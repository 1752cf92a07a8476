import Mathlib.Tactic.Common

/-!
# The register accesses of the driver

`minion_uart_write` and what it calls, as the sequence of accesses to the
controller it makes. Within a call the accesses depend only on the arguments
and on the driver's static variables, not on what is read: a polling loop is
one operation, repeated until its condition holds.
-/

namespace MinionSubsystem.MinionDriver

set_option autoImplicit false

inductive Operation where
  /-- `queue_write(sd_base+sel, data)`. -/
  | write (sel : Nat) (data : BitVec 32)
  /-- `sd_transaction_wait(mask)`. -/
  | waitAll (mask : BitVec 32)
  /-- The loop of `sd_transaction_finish(mask)`. -/
  | waitNone (mask : BitVec 32)
  deriving DecidableEq, Repr

structure Statics where
  minionUartHostControl : BitVec 32
  minionUartTransferMode : BitVec 32
  deriving DecidableEq

/-- The values of `reg` that `minion_uart_write` tells apart; the rest of its
cases only store a variable for `minion_uart_read`. -/
inductive UartRegister where
  | blockCount
  | blockSize
  | hostControl
  | argument
  | transferMode
  | command
  | timeoutControl
  | softwareReset
  | clockControl
  | intStatus
  | other
  deriving DecidableEq, Repr

def sdAlign (align : BitVec 32) : Operation := .write 0 align

def sdClkDiv (clkDiv : BitVec 32) : Operation := .write 1 clkDiv

def sdArg (arg : BitVec 32) : Operation := .write 2 arg

def sdCmd (cmd : BitVec 32) : Operation := .write 3 cmd

def sdSetting (setting : BitVec 32) : Operation := .write 4 setting

def sdCmdStart (start : BitVec 32) : Operation := .write 5 start

def sdReset (sdRst clkRst dataRst cmdRst : BitVec 32) : Operation :=
  .write 6 ((sdRst &&& 1) <<< 3 ||| (clkRst &&& 1) <<< 2 ||| (dataRst &&& 1) <<< 1 |||
    (cmdRst &&& 1))

def sdBlkcnt (blkcnt : BitVec 32) : Operation := .write 7 (blkcnt &&& 0xFFFF)

def sdBlksize (blksize : BitVec 32) : Operation := .write 8 (blksize &&& 0xFFF)

def sdTimeout (timeout : BitVec 32) : Operation := .write 9 timeout

def uartTrnsRead : BitVec 32 := 0x10

def uartCtrl4BitBus : BitVec 32 := 0x02

def uartCmdRespMask : BitVec 32 := 0x03

/-- `MINION_UART_CMD_RESP_NONE`, `_LONG`, `_SHORT` and `_SHORT_BUSY` are 0 to 3. -/
def responseSetting (cmdFlags : BitVec 32) : BitVec 32 :=
  match (cmdFlags &&& uartCmdRespMask).toNat with
  | 0 => 0
  | 1 => 3
  | 2 => 1
  | 3 => 1
  | _ => 0

def sdCmdSetting (v : Statics) (cmdFlags : BitVec 32) : Operation :=
  let setting := responseSetting cmdFlags
  sdSetting
    (if v.minionUartTransferMode &&& uartTrnsRead ≠ 0 then
      if v.minionUartHostControl &&& uartCtrl4BitBus ≠ 0 then setting ||| 0x14 ||| 0x20
      else setting ||| 0x14
    else setting)

/-- `cmd_flags` is an `int` here, so `cmd_flags >> 8` keeps its sign. -/
def sdTransactionStart (v : Statics) (cmdFlags : BitVec 32) : List Operation :=
  [sdCmd (cmdFlags.sshiftRight 8), sdCmdSetting v (cmdFlags &&& 255), sdCmdStart 1]

def sdTransactionFinish (v : Statics) (mask : BitVec 32) : List Operation :=
  [sdCmdStart 0, sdCmdSetting v 0, .waitNone mask]

def transactionMask (v : Statics) : BitVec 32 :=
  if v.minionUartTransferMode &&& uartTrnsRead ≠ 0 then 0x500 else 0x100

def uartDividerShift : Nat := 8

def minionUartWrite (v : Statics) (val : BitVec 32) : UartRegister → List Operation
  | .blockCount => [sdBlkcnt val]
  | .blockSize => [sdBlksize val]
  | .argument => [sdArg val]
  | .command =>
      sdTransactionStart v val ++ [.waitAll (transactionMask v)] ++
        sdTransactionFinish v (transactionMask v)
  | .timeoutControl => [sdTimeout val]
  | .clockControl =>
      let clockDiv := val >>> uartDividerShift
      if clockDiv = 0 then [] else [sdClkDiv (40000000 / clockDiv)]
  | .hostControl | .transferMode | .softwareReset | .intStatus | .other => []

def staticsAfter (v : Statics) (val : BitVec 32) : UartRegister → Statics
  | .hostControl => { v with minionUartHostControl := val }
  | .transferMode => { v with minionUartTransferMode := val }
  | .softwareReset | .intStatus => { v with minionUartTransferMode := 0 }
  | .blockCount | .blockSize | .argument | .command | .timeoutControl | .clockControl
  | .other => v

def boardMmcPowerInit : List Operation :=
  [sdClkDiv 200, sdReset 0 1 0 0, sdBlkcnt 1, sdBlksize 1, sdAlign 0, sdTimeout 14,
    sdReset 0 1 1 1]

/-- Both masks of a transaction contain bit 8, the command host's `finish_o`. -/
theorem transaction_mask_finish (v : Statics) : (transactionMask v).getLsbD 8 = true := by
  unfold transactionMask
  split <;> decide

/-- Only a command writes `sd_cmd_start` or the reset register. -/
theorem uart_write_selects (v : Statics) (val : BitVec 32) (reg : UartRegister)
    (other : reg ≠ .command) :
    ∀ op ∈ minionUartWrite v val reg, ∃ sel data, op = .write sel data ∧ sel ≠ 5 ∧ sel ≠ 6 := by
  have single : ∀ {sel : Nat} (data : BitVec 32), sel ≠ 5 → sel ≠ 6 →
      ∀ op ∈ [Operation.write sel data], ∃ sel data, op = .write sel data ∧ sel ≠ 5 ∧ sel ≠ 6 := by
    intro sel data notStart notReset op member
    exact ⟨sel, data, List.mem_singleton.mp member, notStart, notReset⟩
  cases reg with
  | command => exact absurd rfl other
  | clockControl =>
      simp only [minionUartWrite]
      split_ifs
      · exact List.forall_mem_nil _
      · exact single _ (by decide) (by decide)
  | blockCount | blockSize | argument | timeoutControl =>
      exact single _ (by decide) (by decide)
  | hostControl | transferMode | softwareReset | intStatus | other =>
      exact List.forall_mem_nil _

end MinionSubsystem.MinionDriver
