import Mathlib.Tactic.IntervalCases
import Mathlib.Tactic.SplitIfs

/-!
# The module `uart`

One step is one rising edge of `clk`. All assignments are blocking and stand in one
block, so the state machines see what reset, acknowledge and dividers have just
written; a reset does not keep them from running. The line `tx` is the lowest bit of
`tx_out` and changes after the block.
-/

namespace MinionSubsystem.Uart

set_option autoImplicit false

inductive RxState where
  | idle
  | checkStart
  | readBits
  | checkStop
  | delayRestart
  | error
  | received
  deriving DecidableEq, Repr

inductive TxState where
  | idle
  | sending
  | delayRestart
  deriving DecidableEq, Repr

structure Receiver where
  rxClkDivider : BitVec 11
  recvState : RxState
  rxCountdown : BitVec 6
  rxBitsRemaining : BitVec 4
  rxData : BitVec 8
  received : Bool
  recvError : Bool
  rxByte : BitVec 8

structure Transmitter where
  txClkDivider : BitVec 11
  txOut : BitVec 9
  txState : TxState
  txCountdown : BitVec 6
  txBitsRemaining : BitVec 4
  txData : BitVec 8

structure State where
  rx : Receiver
  tx : Transmitter

structure Inputs where
  rst : Bool
  transmit : Bool
  txByte : BitVec 8
  baud : BitVec 16
  recvAck : Bool

def Transmitter.line (tx : Transmitter) : Bool := tx.txOut.getLsbD 0

namespace Receiver

def reset (baud : BitVec 16) (rx : Receiver) : Receiver :=
  { rx with
    received := false
    recvError := false
    recvState := .idle
    rxClkDivider := baud.setWidth 11
    rxByte := 0
    rxData := 0 }

def acknowledge (rx : Receiver) : Receiver := { rx with received := false, recvError := false }

def divide (baud : BitVec 16) (rx : Receiver) : Receiver :=
  let rxClkDivider := rx.rxClkDivider - 1
  if rxClkDivider = 0 then
    { rx with rxClkDivider := baud.setWidth 11, rxCountdown := rx.rxCountdown - 1 }
  else { rx with rxClkDivider := rxClkDivider }

/-- `{rx, rx_data[7:1]}`. -/
def shift (line : Bool) (rxData : BitVec 8) : BitVec 8 :=
  BitVec.ofBool line ++ rxData.extractLsb' 1 7

def advance (baud : BitVec 16) (line : Bool) (rx : Receiver) : Receiver :=
  match rx.recvState with
  | .idle =>
      if line = false then
        { rx with rxClkDivider := baud.setWidth 11, rxCountdown := 2, recvState := .checkStart }
      else rx
  | .checkStart =>
      if rx.rxCountdown = 0 then
        if line = false then
          { rx with rxCountdown := 4, rxBitsRemaining := 8, recvState := .readBits }
        else { rx with recvState := .error }
      else rx
  | .readBits =>
      if rx.rxCountdown = 0 then
        { rx with
          rxData := shift line rx.rxData
          rxCountdown := 4
          rxBitsRemaining := rx.rxBitsRemaining - 1
          recvState := if rx.rxBitsRemaining - 1 ≠ 0 then .readBits else .checkStop }
      else rx
  | .checkStop =>
      if rx.rxCountdown = 0 then { rx with recvState := if line then .received else .error }
      else rx
  | .delayRestart => { rx with recvState := if rx.rxCountdown ≠ 0 then .delayRestart else .idle }
  | .error => { rx with rxCountdown := 8, recvError := true, recvState := .delayRestart }
  | .received => { rx with received := true, rxByte := rx.rxData, recvState := .idle }

def step (inputs : Inputs) (line : Bool) (rx : Receiver) : Receiver :=
  let rx := if inputs.rst then rx.reset inputs.baud else rx
  let rx := if inputs.recvAck then rx.acknowledge else rx
  (rx.divide inputs.baud).advance inputs.baud line

end Receiver

namespace Transmitter

def reset (baud : BitVec 16) (tx : Transmitter) : Transmitter :=
  { tx with
    txState := .delayRestart
    txClkDivider := baud.setWidth 11
    txOut := 0x1FF
    txCountdown := 15
    txData := 0
    txBitsRemaining := 0 }

def divide (baud : BitVec 16) (tx : Transmitter) : Transmitter :=
  let txClkDivider := tx.txClkDivider - 1
  if txClkDivider = 0 then
    { tx with txClkDivider := baud.setWidth 11, txCountdown := tx.txCountdown - 1 }
  else { tx with txClkDivider := txClkDivider }

/-- `{1'b1, tx_out[8:1]}`. -/
def shift (txOut : BitVec 9) : BitVec 9 := 1#1 ++ txOut.extractLsb' 1 8

def advance (inputs : Inputs) (tx : Transmitter) : Transmitter :=
  match tx.txState with
  | .idle =>
      if inputs.transmit then
        { txData := inputs.txByte
          txOut := inputs.txByte ++ 0#1
          txClkDivider := inputs.baud.setWidth 11
          txCountdown := 4
          txBitsRemaining := 9
          txState := .sending }
      else tx
  | .sending =>
      if tx.txCountdown = 0 then
        if tx.txBitsRemaining ≠ 0 then
          { tx with
            txBitsRemaining := tx.txBitsRemaining - 1
            txOut := shift tx.txOut
            txCountdown := 4
            txState := .sending }
        else { tx with txCountdown := 8, txState := .delayRestart }
      else tx
  | .delayRestart => { tx with txState := if tx.txCountdown ≠ 0 then .delayRestart else .idle }

def step (inputs : Inputs) (tx : Transmitter) : Transmitter :=
  let tx := if inputs.rst then tx.reset inputs.baud else tx
  (tx.divide inputs.baud).advance inputs

end Transmitter

/-- One edge with the line `rx` as it was before it. -/
def step (inputs : Inputs) (line : Bool) (uart : State) : State :=
  { rx := uart.rx.step inputs line, tx := uart.tx.step inputs }

theorem of_nat_ne_zero (width count : Nat) (some : 0 < count) (small : count < 2 ^ width) :
    BitVec.ofNat width count ≠ 0 := by
  intro zero
  have value := congrArg BitVec.toNat zero
  rw [BitVec.toNat_ofNat, Nat.mod_eq_of_lt small] at value
  rw [value] at some
  exact absurd some (by simp)

theorem of_nat_pred (width count : Nat) :
    BitVec.ofNat width (count + 1) - 1 = BitVec.ofNat width count := by
  rw [BitVec.ofNat_add]
  exact BitVec.add_sub_cancel _ _

/-- The clocks between two ticks of a divider; 0 stands for all 11 bits. -/
def period (baud : BitVec 16) : Nat :=
  if baud.setWidth 11 = 0 then 2048 else (baud.setWidth 11).toNat

theorem period_bounds (baud : BitVec 16) : 1 ≤ period baud ∧ period baud ≤ 2048 := by
  have small := (baud.setWidth 11).isLt
  rw [period]
  split_ifs with zero
  · decide
  · have some : (baud.setWidth 11).toNat ≠ 0 :=
      fun none => zero (BitVec.eq_of_toNat_eq none)
    omega

theorem period_reload (baud : BitVec 16) : BitVec.ofNat 11 (period baud) = baud.setWidth 11 := by
  rw [period]
  split_ifs with zero
  · rw [zero]
    rfl
  · rw [BitVec.ofNat_toNat, BitVec.setWidth_eq]

def dividerAt (baud : BitVec 16) (age : Nat) : BitVec 11 :=
  BitVec.ofNat 11 (period baud - age % period baud)

theorem divider_at_start (baud : BitVec 16) : dividerAt baud 0 = baud.setWidth 11 := by
  rw [dividerAt, Nat.zero_mod, Nat.sub_zero, period_reload]

/-- A divider reaches zero when its age becomes a multiple of the period. -/
theorem divider_at_tick (baud : BitVec 16) (age : Nat) (tick : (age + 1) % period baud = 0) :
    dividerAt baud age - 1 = 0 ∧ dividerAt baud (age + 1) = baud.setWidth 11 ∧
      (age + 1) / period baud = age / period baud + 1 := by
  obtain ⟨positive, -⟩ := period_bounds baud
  have last : age % period baud = period baud - 1 := by
    have split := Nat.div_add_mod age (period baud)
    have below := Nat.mod_lt age positive
    by_contra early
    have inside : age % period baud + 1 < period baud := by omega
    rw [Nat.add_mod, Nat.mod_eq_of_lt (by omega : 1 < period baud),
      Nat.mod_eq_of_lt inside] at tick
    omega
  refine ⟨?_, ?_, ?_⟩
  · rw [dividerAt, last, show period baud - (period baud - 1) = 1 by omega]
    rfl
  · rw [dividerAt, tick, Nat.sub_zero, period_reload]
  · rw [Nat.succ_div_of_dvd (Nat.dvd_of_mod_eq_zero tick)]

theorem divider_at_between (baud : BitVec 16) (age : Nat) (quiet : (age + 1) % period baud ≠ 0) :
    dividerAt baud age - 1 = dividerAt baud (age + 1) ∧ dividerAt baud (age + 1) ≠ 0 ∧
      (age + 1) / period baud = age / period baud := by
  obtain ⟨positive, most⟩ := period_bounds baud
  have below := Nat.mod_lt age positive
  have apart : age % period baud + 1 ≠ period baud := by
    intro last
    apply quiet
    have split := Nat.div_add_mod age (period baud)
    have next : age + 1 = period baud * (age / period baud + 1) := by
      rw [Nat.mul_add, Nat.mul_one]
      omega
    rw [next, Nat.mul_mod_right]
  have next : (age + 1) % period baud = age % period baud + 1 := by
    by_cases one : period baud = 1
    · omega
    · rw [Nat.add_mod, Nat.mod_eq_of_lt (by omega : 1 < period baud),
        Nat.mod_eq_of_lt (by omega)]
  refine ⟨?_, ?_, ?_⟩
  · have more : period baud - age % period baud = period baud - (age % period baud + 1) + 1 := by
      omega
    rw [dividerAt, dividerAt, next, more, of_nat_pred]
  · rw [dividerAt, next]
    exact of_nat_ne_zero 11 _ (by omega) (by omega)
  · exact Nat.succ_div_of_not_dvd fun divides => quiet (Nat.mod_eq_zero_of_dvd divides)

theorem divider_at_last (baud : BitVec 16) (age count : Nat)
    (last : age + 1 = (count + 1) * period baud) :
    (age + 1) % period baud = 0 ∧ age / period baud = count := by
  obtain ⟨positive, -⟩ := period_bounds baud
  have tick : (age + 1) % period baud = 0 := by rw [last, Nat.mul_mod_left]
  obtain ⟨-, -, next⟩ := divider_at_tick baud age tick
  rw [last, Nat.mul_div_cancel _ positive] at next
  exact ⟨tick, (Nat.succ.inj next).symm⟩

end MinionSubsystem.Uart
