import MinionSubsystem.SdCmdSerialHost
import MinionSubsystem.SdDataSerialHost

/-!
# The controller: registers of `sd_bus` over the hosts of `sd_top`

The registers are written from the processor's clock, the hosts step with
`sd_clk`; `writeRegister` and `sdClkEdge` are the two kinds of step and may
come in any order. `sd_cmd_rst` and `sd_data_rst` are asynchronous, so a write
that clears one of them resets its host at once.
-/

namespace MinionSubsystem.SdController

open MinionSubsystem.BitStream

set_option autoImplicit false

structure Registers where
  sdBlksize : BitVec 12
  sdDataStart : BitVec 3
  clockDividerSdClk : BitVec 8
  sdCmdI : BitVec 6
  sdCmdArg : BitVec 32
  sdCmdSetting : BitVec 3
  sdCmdStart : Bool
  sdReset : Bool
  sdDataRst : Bool
  sdCmdRst : Bool
  sdClkRst : Bool
  sdCmdTimeout : BitVec 32
  deriving DecidableEq

structure Controller where
  regs : Registers
  cmdHost : SdCmdSerialHost.State
  dataHost : SdDataSerialHost.State
  deriving DecidableEq

/-- What reaches the hosts at one rising edge: the card's lines, as sampled by the
falling edge before it, and the transmit FIFO. -/
structure CardLines where
  sdCmdToHostDly : Bool
  sdDatToHostDly : BitVec 4
  dataOutTxFifo : BitVec 32

def powerUp : Controller where
  regs :=
    { sdBlksize := 0
      sdDataStart := 0
      clockDividerSdClk := 0
      sdCmdI := 0
      sdCmdArg := 0
      sdCmdSetting := 0
      sdCmdStart := false
      sdReset := false
      sdDataRst := false
      sdCmdRst := false
      sdClkRst := false
      sdCmdTimeout := 15 }
  cmdHost := SdCmdSerialHost.reset
  dataHost := SdDataSerialHost.afterReset

/-- The write port of `sd_bus`; `sel` is `core_lsu_addr[5:2]`. -/
def storeRegister (sel : Nat) (wdata : BitVec 32) (regs : Registers) : Registers :=
  match sel with
  | 1 => { regs with clockDividerSdClk := wdata.extractLsb' 0 8 }
  | 2 => { regs with sdCmdArg := wdata }
  | 3 => { regs with sdCmdI := wdata.extractLsb' 0 6 }
  | 4 =>
      { regs with
        sdDataStart := wdata.extractLsb' 3 3
        sdCmdSetting := wdata.extractLsb' 0 3 }
  | 5 => { regs with sdCmdStart := wdata.getLsbD 0 }
  | 6 =>
      { regs with
        sdReset := wdata.getLsbD 3
        sdClkRst := wdata.getLsbD 2
        sdDataRst := wdata.getLsbD 1
        sdCmdRst := wdata.getLsbD 0 }
  | 8 => { regs with sdBlksize := wdata.extractLsb' 0 12 }
  | 9 => { regs with sdCmdTimeout := wdata }
  | _ => regs

/-- The asynchronous resets `cmd_rst` and `data_rst` of the two hosts. -/
def applyResets (c : Controller) : Controller :=
  { c with
    cmdHost := if c.regs.sdCmdRst then c.cmdHost else SdCmdSerialHost.reset
    dataHost := if c.regs.sdDataRst then c.dataHost else SdDataSerialHost.reset c.dataHost }

def writeRegister (sel : Nat) (wdata : BitVec 32) (c : Controller) : Controller :=
  applyResets { c with regs := storeRegister sel wdata c.regs }

def cmdInputs (lines : CardLines) (c : Controller) : SdCmdSerialHost.Inputs where
  rst := !c.regs.sdCmdRst
  settingI := c.regs.sdCmdSetting
  cmdI := c.regs.sdCmdI ++ c.regs.sdCmdArg
  startI := c.regs.sdCmdStart
  timeoutI := c.regs.sdCmdTimeout
  cmdDatI := lines.sdCmdToHostDly

def dataInputs (lines : CardLines) (c : Controller) : SdDataSerialHost.Inputs where
  rst := !c.regs.sdDataRst
  dataIn := lines.dataOutTxFifo
  datDatI := lines.sdDatToHostDly
  blksize := c.regs.sdBlksize
  bus4bit := c.regs.sdDataStart.getLsbD 2
  start := if c.cmdHost.startDataO then c.regs.sdDataStart.extractLsb' 0 2 else 0
  timeoutI := c.regs.sdCmdTimeout

/-- One period of `sd_clk`; both hosts sample what the other showed before it. -/
def sdClkEdge (lines : CardLines) (c : Controller) : Controller :=
  { c with
    cmdHost := SdCmdSerialHost.step (cmdInputs lines c) c.cmdHost
    dataHost := SdDataSerialHost.step (dataInputs lines c) c.dataHost }

/-- `status_o`, over the four FIFO flags that fill bits 3:0 of the status word. -/
def statusWord (fifoStatus : BitVec 4) (c : Controller) : BitVec 32 :=
  0#1 ++ c.cmdHost.crcValO ++ (0#1 ++ c.cmdHost.responseO.extractLsb' 0 7) ++
    (0#4 ++
      concatBits 8
        [c.cmdHost.startDataO, c.dataHost.finishO, SdDataSerialHost.sdDataBusy c.dataHost,
          c.cmdHost.finishO, c.cmdHost.indexOkO, c.cmdHost.crcOkO, false,
          SdDataSerialHost.busy c.dataHost]) ++
    fifoStatus

/-- Bit 8 of the status word is the command host's `finish_o`, bit 10 the data host's. -/
theorem status_finish (fifoStatus : BitVec 4) (c : Controller) :
    (statusWord fifoStatus c).getLsbD 8 = c.cmdHost.finishO ∧
      (statusWord fifoStatus c).getLsbD 10 = c.dataHost.finishO := by
  unfold statusWord
  constructor
  · rw [BitVec.getLsbD_append, if_neg (by decide), BitVec.getLsbD_append, if_pos (by decide),
      BitVec.getLsbD_append, if_pos (by decide), concat_bits_getLsbD _ _ (by simp) (by decide)]
    rfl
  · rw [BitVec.getLsbD_append, if_neg (by decide), BitVec.getLsbD_append, if_pos (by decide),
      BitVec.getLsbD_append, if_pos (by decide), concat_bits_getLsbD _ _ (by simp) (by decide)]
    rfl

def HeldInReset (c : Controller) : Prop :=
  c.regs.sdCmdRst = false → c.cmdHost = SdCmdSerialHost.reset

theorem power_up_held : HeldInReset powerUp := fun _ => rfl

theorem write_register_held (sel : Nat) (wdata : BitVec 32) (c : Controller) :
    HeldInReset (writeRegister sel wdata c) := by
  intro asserted
  change (storeRegister sel wdata c.regs).sdCmdRst = false at asserted
  simp [writeRegister, applyResets, asserted]

theorem sd_clk_edge_held (lines : CardLines) (c : Controller) :
    HeldInReset (sdClkEdge lines c) := by
  intro asserted
  change c.regs.sdCmdRst = false at asserted
  simp [sdClkEdge, SdCmdSerialHost.step, cmdInputs, asserted]

end MinionSubsystem.SdController
