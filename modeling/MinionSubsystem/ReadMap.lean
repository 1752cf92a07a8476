import MinionSubsystem.DataBus
import MinionSubsystem.SdController

/-!
# What the driver's accessors read

A load goes through the region decoder to one of the slaves' outputs, and for
the SD controller through the multiplexer of `sd_bus`. Slave 5, where the driver
looks for the status word, is a constant; the status word is word 5 of slave 6.
-/

namespace MinionSubsystem.ReadMap

open MinionSubsystem.DataBus
open MinionSubsystem.SdController

set_option autoImplicit false

structure FifoPort (width : Nat) where
  dout : BitVec width
  rdcount : BitVec 12
  rderr : Bool
  wrcount : BitVec 12
  wrerr : Bool
  almostfull : Bool
  full : Bool
  empty : Bool

/-- What the slaves of `minion_soc` show the bus. `otherRdata` is the output of the
slaves that are memories or are not driven. -/
structure Soc where
  controller : Controller
  sdDetect : Bool
  rxFifo : FifoPort 36
  txFifo : FifoPort 36
  uartFifo : FifoPort 9
  isTrans : Bool
  isRecv : Bool
  fromDipReg : BitVec 16
  keybFifo : FifoPort 36
  otherRdata : Nat → BitVec 32

def fifoStatusWord (fifo : FifoPort 36) : BitVec 32 :=
  (BitVec.ofBool fifo.almostfull ++ BitVec.ofBool fifo.full ++ BitVec.ofBool fifo.rderr ++
    BitVec.ofBool fifo.wrerr ++ fifo.rdcount ++ fifo.wrcount).setWidth 32

/-- `{tx_full,tx_empty,rx_full,rx_empty}`. -/
def fifoStatus (soc : Soc) : BitVec 4 :=
  BitVec.ofBool soc.txFifo.full ++ BitVec.ofBool soc.txFifo.empty ++
    BitVec.ofBool soc.rxFifo.full ++ BitVec.ofBool soc.rxFifo.empty

def cmdStateCode : SdCmdSerialHost.HostState → BitVec 6
  | .init => 0x00
  | .idle => 0x01
  | .setupCrc => 0x02
  | .write => 0x04
  | .readWait => 0x08
  | .read => 0x10
  | .finishRdWr => 0x20

def dataStateCode : SdDataSerialHost.HostState → BitVec 7
  | .idle => 0x01
  | .writeDat => 0x02
  | .writeCrc => 0x04
  | .writeBusy => 0x08
  | .readWait => 0x10
  | .readDat => 0x20
  | .finish => 0x40

/-- The read multiplexer of `sd_bus`; `sel` is `core_lsu_addr[6:2]`. -/
def sdCmdRespSel (soc : Soc) (sel : Nat) : BitVec 32 :=
  let regs := soc.controller.regs
  let cmdHost := soc.controller.cmdHost
  let dataHost := soc.controller.dataHost
  match sel with
  | 0 => cmdHost.responseO.extractLsb' 7 32
  | 1 => cmdHost.responseO.extractLsb' 39 32
  | 2 => cmdHost.responseO.extractLsb' 71 32
  | 3 => 0#1 ++ cmdHost.responseO.extractLsb' 103 31
  | 4 => cmdHost.waitRegO
  | 5 => statusWord (fifoStatus soc) soc.controller
  | 6 => cmdHost.packetO.extractLsb' 0 32
  | 7 => 0#16 ++ cmdHost.packetO.extractLsb' 32 16
  | 8 => dataHost.waitRegO
  | 9 => 0#19 ++ dataHost.sdTransfCnt
  | 10 => fifoStatusWord soc.rxFifo
  | 11 => fifoStatusWord soc.txFifo
  | 12 => 0#31 ++ BitVec.ofBool soc.sdDetect
  | 13 => 0#26 ++ cmdStateCode cmdHost.state
  | 14 => 0#25 ++ dataStateCode dataHost.state
  | 15 => 0#23 ++ dataHost.crcS ++ dataHost.crcLaneOk
  | 16 => 0
  | 17 => 0#24 ++ regs.clockDividerSdClk
  | 18 => regs.sdCmdArg
  | 19 => 0#26 ++ regs.sdCmdI
  | 20 => 0#26 ++ regs.sdDataStart ++ regs.sdCmdSetting
  | 21 => 0#31 ++ BitVec.ofBool regs.sdCmdStart
  | 22 =>
      0#28 ++ BitVec.ofBool regs.sdReset ++ BitVec.ofBool regs.sdClkRst ++
        BitVec.ofBool regs.sdDataRst ++ BitVec.ofBool regs.sdCmdRst
  | 23 => 1
  | 24 => 0#20 ++ regs.sdBlksize
  | 25 => regs.sdCmdTimeout
  | 26 => dataHost.crcDin 1 ++ dataHost.crcDin 0
  | 27 => dataHost.crcDin 3 ++ dataHost.crcDin 2
  | 28 => dataHost.crcCalc 1 ++ dataHost.crcCalc 0
  | 29 => dataHost.crcCalc 3 ++ dataHost.crcCalc 2
  | _ => 0xDEADBEEF

/-- `one_hot_rdata[3]`. -/
def uartWord (soc : Soc) : BitVec 32 :=
  (soc.uartFifo.wrcount ++ BitVec.ofBool soc.uartFifo.almostfull ++
    BitVec.ofBool soc.uartFifo.full ++ BitVec.ofBool soc.uartFifo.rderr ++
    BitVec.ofBool soc.uartFifo.wrerr ++ soc.uartFifo.dout.extractLsb' 8 1 ++
    BitVec.ofBool soc.isTrans ++ BitVec.ofBool soc.isRecv ++
    BitVec.ofBool (!soc.uartFifo.empty) ++ soc.uartFifo.dout.extractLsb' 0 8).setWidth 32

/-- `one_hot_rdata[9]`. -/
def keyboardWord (soc : Soc) (addr : BitVec 32) : BitVec 32 :=
  if addr.getLsbD 2 then
    (BitVec.ofBool soc.keybFifo.empty ++ soc.keybFifo.dout.extractLsb' 0 16).setWidth 32
  else
    (BitVec.ofBool soc.keybFifo.empty ++ BitVec.ofBool soc.keybFifo.almostfull ++
      BitVec.ofBool soc.keybFifo.full ++ BitVec.ofBool soc.keybFifo.rderr ++
      BitVec.ofBool soc.keybFifo.wrerr ++ soc.keybFifo.rdcount ++
      soc.keybFifo.wrcount).setWidth 32

def oneHotRdata (soc : Soc) (addr : BitVec 32) : Nat → BitVec 32
  | 3 => uartWord soc
  | 4 => soc.rxFifo.dout.extractLsb' 0 32
  | 5 => 0xDEADBEEF
  | 6 => sdCmdRespSel soc (addr.extractLsb' 2 5).toNat
  | 7 => soc.fromDipReg.setWidth 32
  | 9 => keyboardWord soc addr
  | slave => soc.otherRdata slave

def busRead (soc : Soc) (addr : BitVec 32) : BitVec 32 :=
  coreLsuRdata addr (oneHotRdata soc addr)

def uartBase : BitVec 32 := 3 <<< 20

def rxfifoBase : BitVec 32 := 4 <<< 20

def sdStatBase : BitVec 32 := 5 <<< 20

def sdBase : BitVec 32 := 6 <<< 20

/-- The pointers are `unsigned int *`, an index counts words. -/
def queueRead (soc : Soc) (ptr : BitVec 32) (index : Nat) : BitVec 32 :=
  busRead soc (ptr + BitVec.ofNat 32 (4 * index))

def sdResp (soc : Soc) (sel : Nat) : BitVec 32 := queueRead soc sdBase sel

def sdStat (soc : Soc) (sel : Nat) : BitVec 32 := queueRead soc sdStatBase sel

def rxReadFifo (soc : Soc) : BitVec 32 := queueRead soc rxfifoBase 0

def uartRead (soc : Soc) : BitVec 32 := queueRead soc uartBase 0

theorem bus_read_slave (soc : Soc) (addr : BitVec 32) :
    busRead soc addr = oneHotRdata soc addr (region addr) :=
  core_lsu_rdata_selects addr (oneHotRdata soc addr)

theorem sd_resp_selects (soc : Soc) (sel : Nat) (bound : sel < 32) :
    sdResp soc sel = sdCmdRespSel soc sel := by
  have place : region (sdBase + BitVec.ofNat 32 (4 * sel)) = 6 ∧
      ((sdBase + BitVec.ofNat 32 (4 * sel)).extractLsb' 2 5).toNat = sel := by
    revert sel
    decide
  unfold sdResp queueRead
  rw [bus_read_slave, place.1]
  change sdCmdRespSel soc _ = _
  rw [place.2]

theorem sd_stat_constant (soc : Soc) : sdStat soc 0 = 0xDEADBEEF := by
  unfold sdStat queueRead
  rw [bus_read_slave, show region (sdStatBase + BitVec.ofNat 32 (4 * 0)) = 5 from by decide]
  rfl

theorem rx_read_fifo_output (soc : Soc) :
    rxReadFifo soc = soc.rxFifo.dout.extractLsb' 0 32 := by
  unfold rxReadFifo queueRead
  rw [bus_read_slave, show region (rxfifoBase + BitVec.ofNat 32 (4 * 0)) = 4 from by decide]
  rfl

theorem uart_read_word (soc : Soc) : uartRead soc = uartWord soc := by
  unfold uartRead queueRead
  rw [bus_read_slave, show region (uartBase + BitVec.ofNat 32 (4 * 0)) = 3 from by decide]
  rfl

theorem uart_word_bits (soc : Soc) :
    (uartWord soc).getLsbD 8 = !soc.uartFifo.empty ∧
      (uartWord soc).getLsbD 10 = soc.isTrans ∧
      (uartWord soc).extractLsb' 0 8 = soc.uartFifo.dout.extractLsb' 0 8 := by
  refine ⟨?_, ?_, ?_⟩
  · rw [uartWord, BitVec.getLsbD_setWidth]
    simp only [BitVec.getLsbD_append]
    simp
  · rw [uartWord, BitVec.getLsbD_setWidth]
    simp only [BitVec.getLsbD_append]
    simp
  · apply BitVec.eq_of_getLsbD_eq
    intro index inside
    have within : index < 32 := by omega
    simp only [uartWord, BitVec.getLsbD_extractLsb', BitVec.getLsbD_setWidth,
      BitVec.getLsbD_append, Nat.zero_add, inside, within, decide_true, Bool.true_and, if_true]

/-- The word the driver polls at slave 5 is in fact word 5 of slave 6. -/
theorem sd_resp_status (soc : Soc) :
    (sdResp soc 5).getLsbD 8 = soc.controller.cmdHost.finishO ∧
      (sdResp soc 5).getLsbD 10 = soc.controller.dataHost.finishO ∧
      (sdResp soc 5).getLsbD 0 = soc.rxFifo.empty := by
  rw [sd_resp_selects soc 5 (by decide)]
  have finish := status_finish (fifoStatus soc) soc.controller
  refine ⟨finish.1, finish.2, ?_⟩
  change (statusWord (fifoStatus soc) soc.controller).getLsbD 0 = soc.rxFifo.empty
  simp only [statusWord, fifoStatus, BitVec.getLsbD_append]
  simp

structure ReadMapAgrees (soc : Soc) : Prop where
  finishCmd : (sdStat soc 0).getLsbD 8 = soc.controller.cmdHost.finishO
  finishData : (sdStat soc 0).getLsbD 10 = soc.controller.dataHost.finishO
  rxEmpty : (sdStat soc 0).getLsbD 0 = soc.rxFifo.empty
  response : ∀ k, k ≤ 9 → sdResp soc k = sdCmdRespSel soc k
  rxFifo : rxReadFifo soc = soc.rxFifo.dout.extractLsb' 0 32
  uartReady : (uartRead soc).getLsbD 8 = !soc.uartFifo.empty
  uartBusy : (uartRead soc).getLsbD 10 = soc.isTrans
  uartByte : (uartRead soc).extractLsb' 0 8 = soc.uartFifo.dout.extractLsb' 0 8

/-- The map agrees in exactly the states whose status happens to have the three bits
of the constant `0xDEADBEEF`. -/
theorem read_map_agrees_iff (soc : Soc) :
    ReadMapAgrees soc ↔
      soc.controller.cmdHost.finishO = false ∧ soc.controller.dataHost.finishO = true ∧
        soc.rxFifo.empty = true := by
  constructor
  · intro agrees
    have command := agrees.finishCmd
    have data := agrees.finishData
    have empty := agrees.rxEmpty
    rw [sd_stat_constant] at command data empty
    exact ⟨command.symm, data.symm, empty.symm⟩
  · rintro ⟨command, data, empty⟩
    have uart := uart_word_bits soc
    rw [← uart_read_word] at uart
    constructor
    · rw [sd_stat_constant, command]
      decide
    · rw [sd_stat_constant, data]
      decide
    · rw [sd_stat_constant, empty]
      decide
    · intro k bound
      exact sd_resp_selects soc k (by omega)
    · exact rx_read_fifo_output soc
    · exact uart.1
    · exact uart.2.1
    · exact uart.2.2

def emptyFifo (width : Nat) : FifoPort width where
  dout := 0
  rdcount := 0
  rderr := false
  wrcount := 0
  wrerr := false
  almostfull := false
  full := false
  empty := true

def powerUp : Soc where
  controller := SdController.powerUp
  sdDetect := false
  rxFifo := emptyFifo 36
  txFifo := emptyFifo 36
  uartFifo := emptyFifo 9
  isTrans := false
  isRecv := false
  fromDipReg := 0
  keybFifo := emptyFifo 36
  otherRdata := fun _ => 0

/-- After reset no data transfer has finished, but `sd_stat(0)` has bit 10 set. -/
theorem power_up_read_map_differs :
    (sdStat powerUp 0).getLsbD 10 = true ∧
      powerUp.controller.dataHost.finishO = false ∧ ¬ReadMapAgrees powerUp := by
  have bit : (sdStat powerUp 0).getLsbD 10 = true := by
    rw [sd_stat_constant]
    decide
  refine ⟨bit, rfl, ?_⟩
  intro agrees
  have data := agrees.finishData
  rw [bit] at data
  exact absurd data (by decide)

end MinionSubsystem.ReadMap
