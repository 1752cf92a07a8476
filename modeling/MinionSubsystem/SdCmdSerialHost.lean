import Mathlib.Tactic.SplitIfs
import MinionSubsystem.ClockedRun
import MinionSubsystem.SdCrc

/-!
# The command host `sd_cmd_serial_host`

One step is one rising edge of `sd_clk`. `nextState` is `FSM_COMBO`, the edge of
each state is its branch of `FSM_OUT`. The source assigns `cmd_oe_o` and
`cmd_out_o` with blocking assignments, so `packet_o` sees their new values, and
everything else without. `CRC_7` hangs on the same edge and sees the old
`crc_bit` and `crc_enable`, but clears as soon as `crc_rst` rises.
-/

namespace MinionSubsystem.SdCmdSerialHost

open MinionSubsystem.SdCrc

set_option autoImplicit false

inductive HostState where
  | init
  | idle
  | setupCrc
  | write
  | readWait
  | read
  | finishRdWr
  deriving DecidableEq, Repr, Inhabited

structure Inputs where
  rst : Bool
  settingI : BitVec 3
  cmdI : BitVec 38
  startI : Bool
  timeoutI : BitVec 32
  cmdDatI : Bool

structure State where
  state : HostState
  packetO : BitVec 48
  responseO : BitVec 134
  finishO : Bool
  crcOkO : Bool
  indexOkO : Bool
  cmdOeO : Bool
  cmdOutO : Bool
  startDataO : Bool
  crcValO : BitVec 7
  waitRegO : BitVec 32
  cmdDatReg : Bool
  crcRst : Bool
  crcEnable : Bool
  crcBit : Bool
  counter : BitVec 8
  deriving DecidableEq, Inhabited

def initDelay : Nat := 74

def bitsToSend : Nat := 48

def cmdSize : Nat := 40

def respSizeLong : Nat := 127

def respSizeShort : Nat := 39

def cmdStartBit (cmd : BitVec 38) : BitVec 40 := 0b01#2 ++ cmd

def respLen (setting : BitVec 3) : Nat :=
  if setting.getLsbD 1 then respSizeLong else respSizeShort

def withResponse (setting : BitVec 3) : Bool := setting.getLsbD 0

def withData (setting : BitVec 3) : Bool := setting.getLsbD 2

def reset : State where
  state := .init
  packetO := 0
  responseO := 0
  finishO := false
  crcOkO := false
  indexOkO := false
  cmdOeO := true
  cmdOutO := true
  startDataO := false
  crcValO := 0
  waitRegO := 0
  cmdDatReg := false
  crcRst := true
  crcEnable := false
  crcBit := false
  counter := 0

def nextState (i : Inputs) (s : State) : HostState :=
  match s.state with
  | .init => if initDelay ≤ s.counter.toNat then .idle else .init
  | .idle => if i.startI then .setupCrc else .idle
  | .setupCrc => .write
  | .write =>
      if bitsToSend ≤ s.counter.toNat ∧ withResponse i.settingI then .readWait
      else if bitsToSend ≤ s.counter.toNat then .finishRdWr
      else .write
  | .readWait =>
      if 3 ≤ s.waitRegO ∧ s.cmdDatReg = false then .read
      else if i.timeoutI ≤ s.waitRegO then .finishRdWr
      else .readWait
  | .read =>
      if respLen i.settingI + 8 ≤ s.counter.toNat then .finishRdWr else .read
  | .finishRdWr => if i.startI then .finishRdWr else .idle

def initEdge (s : State) : State :=
  { s with
    counter := s.counter + 1
    cmdOeO := true
    cmdOutO := true }

def idleEdge (s : State) : State :=
  { s with
    cmdOeO := false
    counter := 0
    crcRst := true
    crcEnable := false
    indexOkO := false
    finishO := false
    startDataO := false }

def setupCrcEdge (i : Inputs) (s : State) : State :=
  { s with
    crcRst := false
    crcEnable := true
    responseO := 0
    packetO := 0
    crcBit := (cmdStartBit i.cmdI).getLsbD (cmdSize - 1) }

/-- A command bit, with `crc_bit` one bit ahead of it. -/
def writeCommandBit (i : Inputs) (s : State) : State :=
  let counter := s.counter.toNat
  { s with
    cmdOeO := true
    cmdOutO := (cmdStartBit i.cmdI).getLsbD (cmdSize - 1 - counter)
    crcBit :=
      if counter < bitsToSend - 9 then
        (cmdStartBit i.cmdI).getLsbD (cmdSize - 2 - counter)
      else s.crcBit
    crcEnable := if counter < bitsToSend - 9 then s.crcEnable else false }

def writeCheckBit (s : State) : State :=
  { s with
    cmdOeO := true
    crcEnable := false
    cmdOutO := s.crcValO.getLsbD (bitsToSend - s.counter.toNat - 2) }

/-- The conditional part of `WRITE`; behind the stop bit it releases the line. -/
def writeDrive (i : Inputs) (s : State) : State :=
  if s.counter.toNat < bitsToSend - 8 then writeCommandBit i s
  else if s.counter.toNat < bitsToSend - 1 then writeCheckBit s
  else if s.counter.toNat = bitsToSend - 1 then { s with cmdOeO := true, cmdOutO := true }
  else { s with cmdOeO := false, cmdOutO := true }

def writeEdge (i : Inputs) (s : State) : State :=
  let driven := writeDrive i s
  { driven with
    cmdDatReg := true
    counter := s.counter + 1
    waitRegO := 0
    packetO :=
      if driven.cmdOeO then s.packetO.shiftConcat driven.cmdOutO else s.packetO }

def readWaitEdge (i : Inputs) (s : State) : State :=
  { s with
    cmdDatReg := i.cmdDatI
    crcEnable := false
    crcRst := true
    counter := 1
    cmdOeO := false
    waitRegO := s.waitRegO + 1 }

def readEdge (i : Inputs) (s : State) : State :=
  let counter := s.counter.toNat
  let length := respLen i.settingI
  { s with
    cmdDatReg := i.cmdDatI
    crcRst := false
    crcEnable :=
      decide (counter ≤ length) && (decide (length ≠ respSizeLong) || decide (7 < counter))
    cmdOeO := false
    crcBit := if counter ≤ length then s.cmdDatReg else s.crcBit
    startDataO := if counter ≤ length then s.startDataO else withData i.settingI
    responseO :=
      if counter ≤ length + 7 then s.responseO.shiftConcat s.cmdDatReg else s.responseO
    crcOkO :=
      if counter ≤ length + 7 then s.crcOkO else s.responseO.extractLsb' 0 7 = s.crcValO
    counter := s.counter + 1 }

def finishRdWrEdge (i : Inputs) (s : State) : State :=
  { s with
    indexOkO := (cmdStartBit i.cmdI).extractLsb' 32 6 = s.responseO.extractLsb' 120 6
    finishO := true
    crcEnable := false
    counter := 0
    cmdOeO := false }

def outEdge (i : Inputs) (s : State) : State :=
  match s.state with
  | .init => initEdge s
  | .idle => idleEdge s
  | .setupCrc => setupCrcEdge i s
  | .write => writeEdge i s
  | .readWait => readWaitEdge i s
  | .read => readEdge i s
  | .finishRdWr => finishRdWrEdge i s

/-- `CRC_7` at the edge that takes the FSM from `old` to `new`. -/
def crcEdge (old new : State) : BitVec 7 :=
  if new.crcRst then 0 else sdCrc7Edge old.crcBit old.crcEnable old.crcRst old.crcValO

def step (i : Inputs) (s : State) : State :=
  if i.rst then reset
  else
    { outEdge i s with
      state := nextState i s
      crcValO := crcEdge s (outEdge i s) }

theorem step_running (i : Inputs) (s : State) (running : i.rst = false) :
    step i s =
      { outEdge i s with
        state := nextState i s
        crcValO := crcEdge s (outEdge i s) } := by
  rw [step, running]
  rfl

theorem counter_succ (counter : BitVec 8) (room : counter.toNat + 1 < 2 ^ 8) :
    (counter + 1).toNat = counter.toNat + 1 := by
  rw [BitVec.toNat_add]
  exact Nat.mod_eq_of_lt room

/-- While released and enabled the register divides the bit set up an edge ago. -/
theorem crc_edge_extends (old new : State) (message : List Bool)
    (released : old.crcRst = false) (kept : new.crcRst = false)
    (enabled : old.crcEnable = true) (divided : old.crcValO = crc7 message) :
    crcEdge old new = crc7 (message ++ [old.crcBit]) := by
  rw [crcEdge, kept, released, enabled, divided, ← sd_crc_7_extends]
  rfl

theorem crc_edge_holds (old new : State) (released : old.crcRst = false)
    (kept : new.crcRst = false) (disabled : old.crcEnable = false) :
    crcEdge old new = old.crcValO := by
  rw [crcEdge, kept, released, disabled]
  rfl

/-- A register in reset, or put into reset, reads 0. -/
theorem crc_edge_clears (old new : State) (cleared : old.crcRst = true ∨ new.crcRst = true) :
    crcEdge old new = 0 := by
  unfold crcEdge
  rcases cleared with held | raised
  · cases new.crcRst <;> simp [held]
  · rw [raised]
    rfl

end MinionSubsystem.SdCmdSerialHost
