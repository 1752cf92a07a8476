import Mathlib.Data.Fintype.Pi
import Mathlib.Tactic.SplitIfs
import MinionSubsystem.ClockedRun
import MinionSubsystem.SdCrc

/-!
# The data host `sd_data_serial_host`

One step is one period of `sd_clk`: `posedge` computes the registers of the
`FSM_OUT` block from their old values, as its non-blocking assignments do, and
`negedge` clocks the four `sd_crc_16` lanes, which hang on `~sd_clk`. Later
assignments of a branch override earlier ones, so every branch below starts from
`sample`, the assignments made before the `case`.
-/

namespace MinionSubsystem.SdDataSerialHost

open MinionSubsystem.BitStream
open MinionSubsystem.SdCrc

set_option autoImplicit false

inductive HostState where
  | idle
  | writeDat
  | writeCrc
  | writeBusy
  | readWait
  | readDat
  | finish
  deriving DecidableEq, Repr, Inhabited

structure Inputs where
  rst : Bool
  dataIn : BitVec 32
  datDatI : BitVec 4
  blksize : BitVec 12
  bus4bit : Bool
  start : BitVec 2
  timeoutI : BitVec 32

/-- The numerals of `Fin 4` are the lanes. -/
instance lanes : NeZero 4 := ⟨by decide⟩

/-- The registers of the module and of its CRC lanes. `crnt_din` is assigned
and read within one edge only and is a local value of `writeDatEdge`. -/
structure State where
  state : HostState
  rd : Bool
  dataOutO : BitVec 32
  weO : Bool
  datOeO : Bool
  datDatO : BitVec 4
  crcS : BitVec 5
  crcLaneOk : BitVec 4
  finishO : Bool
  waitRegO : BitVec 32
  sdTransfCnt : BitVec 13
  crcDin : Fin 4 → BitVec 16
  crcCalc : Fin 4 → BitVec 16
  transfCnt : BitVec 16
  dataOut : BitVec 32
  we : Bool
  datDatReg : BitVec 4
  dataCycles : BitVec 16
  bus4bitReg : Bool
  crcIn : BitVec 5
  crcRst : Bool
  crcStatus : BitVec 3
  busyInt : Bool
  blksizeReg : BitVec 12
  crcC : BitVec 5
  dataIndex : BitVec 5
  deriving DecidableEq, Inhabited

def busy (s : State) : Bool := s.state ≠ .idle && s.state ≠ .finish

def sdDataBusy (s : State) : Bool := !s.datDatReg.getLsbD 0

/-- Sixteen-bit counters are compared after extension to the width of an integer literal. -/
def wide (counter : BitVec 16) : BitVec 32 := counter.setWidth 32

def reset (s : State) : State :=
  { s with
    state := .idle
    datOeO := false
    crcIn := 0
    crcRst := true
    crcCalc := fun _ => 0
    transfCnt := 0
    rd := false
    crcC := 0
    datDatO := 0
    crcStatus := 0
    crcLaneOk := 0
    crcS := 0
    we := false
    weO := false
    dataOut := 0
    busyInt := false
    dataIndex := 0
    dataCycles := 0
    bus4bitReg := false
    waitRegO := 0
    finishO := false
    datDatReg := 0
    dataOutO := 0
    sdTransfCnt := 0 }

/-- Reset from power-up; `crc_din` and `blksize_reg` are not reset and read as 0 here. -/
def afterReset : State := reset default

def sample (i : Inputs) (s : State) : State :=
  { s with
    datDatReg := i.datDatI
    dataOutO := if s.we then s.dataOut else s.dataOutO
    weO := s.we }

def idleEdge (i : Inputs) (s : State) : State :=
  { sample i s with
    crcDin := fun _ => 0
    datOeO := false
    datDatO := 0xF
    crcIn := 0
    crcRst := true
    transfCnt := 0
    crcC := 16
    crcStatus := 0
    crcLaneOk := 0
    crcS := 0
    we := false
    rd := false
    dataIndex := 0
    blksizeReg := i.blksize
    dataCycles :=
      if i.bus4bit then (0#2 ++ i.blksize ++ 0#1).setWidth 16 + 2
      else (i.blksize ++ 0#3).setWidth 16 + 8
    bus4bitReg := i.bus4bit
    waitRegO := 0
    finishO := false
    dataOutO := 0
    sdTransfCnt := 0
    state :=
      if i.start = 1 then .writeDat
      else if i.start = 2 then .readWait
      else .idle }

def writeStart (i : Inputs) (s : State) : State :=
  { sample i s with
    transfCnt := s.transfCnt + 1
    crcRst := false
    dataIndex := 0
    rd := true
    datOeO := true
    datDatO := if s.bus4bitReg then 0x0 else 0xE
    sdTransfCnt := 0 }

/-- `crnt_din` while data is sent: a nibble, or one bit under three ones. -/
def crntDin (i : Inputs) (s : State) : BitVec 4 :=
  let nibble := s.dataIndex.toNat % 8
  if s.bus4bitReg then
    concatBits 4
      [i.dataIn.getLsbD (31 - 4 * nibble), i.dataIn.getLsbD (30 - 4 * nibble),
        i.dataIn.getLsbD (29 - 4 * nibble), i.dataIn.getLsbD (28 - 4 * nibble)]
  else concatBits 4 [true, true, true, i.dataIn.getLsbD (31 - s.dataIndex.toNat)]

def popsWord (s : State) : Bool :=
  if s.bus4bitReg then
    s.dataIndex.toNat % 8 = 7 && wide s.transfCnt < wide s.dataCycles - 2
  else s.dataIndex = 29

def writeSend (i : Inputs) (s : State) : State :=
  { sample i s with
    transfCnt := s.transfCnt + 1
    rd := popsWord s
    sdTransfCnt :=
      if popsWord s then
        if s.bus4bitReg then (s.transfCnt.extractLsb' 3 13)
        else 0#2 ++ s.transfCnt.extractLsb' 5 11
      else s.sdTransfCnt
    dataIndex := s.dataIndex + 1 }

def writeData (i : Inputs) (s : State) : State :=
  { writeSend i s with
    crcIn := 1#1 ++ crntDin i s
    datDatO := crntDin i s }

def writeCheck (i : Inputs) (s : State) : State :=
  let place := (s.crcC - 1).toNat
  { writeSend i s with
    crcIn := 0
    crcC := s.crcC - 1
    datOeO := true
    datDatO :=
      if s.bus4bitReg then
        concatBits 4
          [(s.crcCalc 3).getLsbD place, (s.crcCalc 2).getLsbD place,
            (s.crcCalc 1).getLsbD place, (s.crcCalc 0).getLsbD place]
      else concatBits 4 [true, true, true, (s.crcCalc 0).getLsbD place] }

def writeStop (i : Inputs) (s : State) : State :=
  { writeSend i s with
    crcIn := 0
    datOeO := true
    datDatO := 0xF }

/-- Waiting for the write acknowledge; `transf_cnt` keeps counting. -/
def writeRelease (i : Inputs) (s : State) : State :=
  { sample i s with
    transfCnt := s.transfCnt + 1
    rd := false
    datOeO := false
    crcS := setBit s.crcS 4 (s.datDatReg.getLsbD 0)
    state := if s.datDatReg.getLsbD 0 then s.state else .writeCrc }

/-- The one clock between the stop bit and the release, which no branch handles. -/
def writeGap (i : Inputs) (s : State) : State :=
  { sample i s with
    transfCnt := s.transfCnt + 1
    rd := false }

def writeDatEdge (i : Inputs) (s : State) : State :=
  if s.transfCnt = 0 then writeStart i s
  else if wide s.transfCnt < wide s.dataCycles + 16 then
    if wide s.transfCnt < wide s.dataCycles - 1 then writeData i s
    else if s.crcC ≠ 0 then writeCheck i s
    else writeStop i s
  else if wide s.dataCycles + 17 ≤ wide s.transfCnt then writeRelease i s
  else writeGap i s

def writeCrcEdge (i : Inputs) (s : State) : State :=
  { sample i s with
    datOeO := false
    crcStatus := s.crcStatus + 1
    crcS := setBit s.crcS (3 - s.crcStatus.toNat % 4) (s.datDatReg.getLsbD 0)
    busyInt := true
    state := if s.crcStatus = 3 then .writeBusy else s.state }

def writeBusyEdge (i : Inputs) (s : State) : State :=
  { sample i s with
    busyInt := !s.datDatReg.getLsbD 0
    state := if s.busyInt then s.state else .finish }

def readWaitEdge (i : Inputs) (s : State) : State :=
  { sample i s with
    datOeO := false
    crcRst := false
    crcIn := 0
    crcC := 15
    transfCnt := 0
    dataIndex := 0
    waitRegO := s.waitRegO + 1
    state :=
      if 3 ≤ s.waitRegO ∧ s.datDatReg.getLsbD 0 = false then .readDat
      else if i.timeoutI ≤ s.waitRegO then .finish
      else s.state }

def packed (s : State) : BitVec 32 :=
  let nibble := s.dataIndex.toNat % 8
  if s.bus4bitReg then
    setBit (setBit (setBit (setBit s.dataOut
      (31 - 4 * nibble) (s.datDatReg.getLsbD 3))
      (30 - 4 * nibble) (s.datDatReg.getLsbD 2))
      (29 - 4 * nibble) (s.datDatReg.getLsbD 1))
      (28 - 4 * nibble) (s.datDatReg.getLsbD 0)
  else setBit s.dataOut (31 - s.dataIndex.toNat) (s.datDatReg.getLsbD 0)

def completesWord (s : State) : Bool :=
  if s.bus4bitReg then s.dataIndex.toNat % 8 = 7 else s.dataIndex = 31

def readData (i : Inputs) (s : State) : State :=
  { sample i s with
    we := completesWord s
    sdTransfCnt :=
      if completesWord s then
        if s.bus4bitReg then (s.transfCnt.extractLsb' 3 13)
        else 0#2 ++ s.transfCnt.extractLsb' 5 11
      else s.sdTransfCnt
    dataOut := packed s
    dataIndex := s.dataIndex + 1
    crcIn := 1#1 ++ s.datDatReg
    transfCnt := s.transfCnt + 1 }

def readCheck (i : Inputs) (s : State) : State :=
  { sample i s with
    crcDin := fun lane =>
      setBit (s.crcDin lane) (s.crcC.toNat % 16) (s.datDatReg.getLsbD lane)
    transfCnt := s.transfCnt + 1
    crcIn := 0
    we := false
    crcC := s.crcC - 1 }

def readDone (i : Inputs) (s : State) : State :=
  { sample i s with
    we := false
    crcLaneOk := concatBits 4
      [s.crcCalc 3 = s.crcDin 3, s.crcCalc 2 = s.crcDin 2,
        s.crcCalc 1 = s.crcDin 1, s.crcCalc 0 = s.crcDin 0]
    state := .finish }

def readDatEdge (i : Inputs) (s : State) : State :=
  if wide s.transfCnt < wide s.dataCycles - 2 then readData i s
  else if s.crcC ≠ 0x1F then readCheck i s
  else readDone i s

def finishEdge (i : Inputs) (s : State) : State :=
  { sample i s with
    finishO := true
    state := if i.start = 0 then .idle else s.state }

def caseEdge (i : Inputs) (s : State) : State :=
  match s.state with
  | .idle => idleEdge i s
  | .writeDat => writeDatEdge i s
  | .writeCrc => writeCrcEdge i s
  | .writeBusy => writeBusyEdge i s
  | .readWait => readWaitEdge i s
  | .readDat => readDatEdge i s
  | .finish => finishEdge i s

/-- The `FSM_OUT` block at a rising edge, the abort assignment being its last. -/
def posedge (i : Inputs) (s : State) : State :=
  if i.start = 3 then { caseEdge i s with state := .idle } else caseEdge i s

/-- The falling edge clocks `CRC_16_gen[0..3]` with the new `crc_in` and `crc_rst`. -/
def negedge (s : State) : State :=
  { s with
    crcCalc := fun lane =>
      sdCrc16Edge (s.crcIn.getLsbD lane) (s.crcIn.getLsbD 4) s.crcRst (s.crcCalc lane) }

def step (i : Inputs) (s : State) : State :=
  if i.rst then reset s else negedge (posedge i s)

structure Running (i : Inputs) : Prop where
  released : i.rst = false
  kept : i.start ≠ 3

theorem step_running (i : Inputs) (s : State) (running : Running i) :
    step i s = negedge (caseEdge i s) := by
  rw [step, posedge, if_neg running.kept, running.released]
  rfl

/-- Outside `IDLE` a pending word appears on `data_out_o` with its strobe. -/
theorem step_pushes (i : Inputs) (s : State) (running : Running i)
    (active : s.state ≠ .idle) :
    (step i s).weO = (sample i s).weO ∧
      (step i s).dataOutO = (sample i s).dataOutO := by
  rw [step_running i s running]
  cases current : s.state with
  | idle => exact absurd current active
  | writeDat =>
      simp only [negedge, caseEdge, current, writeDatEdge]
      split_ifs <;> exact ⟨rfl, rfl⟩
  | readDat =>
      simp only [negedge, caseEdge, current, readDatEdge]
      split_ifs <;> exact ⟨rfl, rfl⟩
  | writeCrc | writeBusy | readWait | finish =>
      simp only [negedge, caseEdge, current]
      exact ⟨rfl, rfl⟩

theorem case_edge_samples (i : Inputs) (s : State) :
    (caseEdge i s).datDatReg = i.datDatI := by
  unfold caseEdge
  cases s.state with
  | writeDat =>
      simp only [writeDatEdge]
      split_ifs <;> rfl
  | readDat =>
      simp only [readDatEdge]
      split_ifs <;> rfl
  | idle | writeCrc | writeBusy | readWait | finish => rfl

theorem step_samples (i : Inputs) (s : State) (running : Running i) :
    (step i s).datDatReg = i.datDatI := by
  rw [step_running i s running]
  exact case_edge_samples i s

/-- With `crc_in` cleared and `crc_rst` low the CRC lanes keep their value. -/
theorem negedge_crc_holds (s : State) (quiet : s.crcIn = 0) (released : s.crcRst = false) :
    (negedge s).crcCalc = s.crcCalc := by
  funext lane
  simp [negedge, quiet, released]

/-- With bit 4 of `crc_in` set every lane divides its own bit of `crc_in`. -/
theorem negedge_crc_extends (s : State) (bits : BitVec 4) (messages : Fin 4 → List Bool)
    (enabled : s.crcIn = 1#1 ++ bits) (released : s.crcRst = false)
    (divided : s.crcCalc = fun lane => crc16 (messages lane)) :
    (negedge s).crcCalc = fun lane => crc16 (messages lane ++ [bits.getLsbD lane]) := by
  funext lane
  have enable : s.crcIn.getLsbD 4 = true := by
    rw [enabled, BitVec.getLsbD_append, if_neg (by decide)]
    rfl
  have bit : s.crcIn.getLsbD lane = bits.getLsbD lane := by
    rw [enabled, BitVec.getLsbD_append, if_pos lane.isLt]
  rw [← sd_crc_16_extends]
  simp only [negedge, enable, bit, released, divided]

theorem wide_toNat (counter : BitVec 16) : (wide counter).toNat = counter.toNat := by
  have bound := counter.isLt
  rw [wide, BitVec.toNat_setWidth, Nat.mod_eq_of_lt (by omega)]

theorem wide_lt_sub (counter cycles : BitVec 16) (margin : BitVec 32)
    (positive : margin.toNat ≤ cycles.toNat) :
    wide counter < wide cycles - margin ↔ counter.toNat < cycles.toNat - margin.toNat := by
  have bound := cycles.isLt
  rw [BitVec.lt_def, BitVec.toNat_sub, wide_toNat, wide_toNat]
  omega

theorem wide_lt_add (counter cycles : BitVec 16) (margin : BitVec 32)
    (small : margin.toNat < 2 ^ 16) :
    wide counter < wide cycles + margin ↔ counter.toNat < cycles.toNat + margin.toNat := by
  have bound := cycles.isLt
  rw [BitVec.lt_def, BitVec.toNat_add, wide_toNat, wide_toNat, Nat.mod_eq_of_lt (by omega)]

theorem counter_succ (counter : BitVec 16) (room : counter.toNat + 1 < 2 ^ 16) :
    (counter + 1).toNat = counter.toNat + 1 := by
  rw [BitVec.toNat_add]
  exact Nat.mod_eq_of_lt room

/-- The clocks the host takes for data. On one lane it takes six too many: the
host adds 8 to the bit count and every comparison subtracts 2. -/
def dataClocks (four : Bool) (byteCount : Nat) : Nat :=
  if four then 2 * byteCount else 8 * byteCount + 6

theorem idle_data_cycles (i : Inputs) (s : State) :
    (idleEdge i s).dataCycles.toNat = dataClocks i.bus4bit i.blksize.toNat + 2 := by
  have bound := i.blksize.isLt
  have doubled : (0#2 ++ i.blksize ++ 0#1).toNat = 2 * i.blksize.toNat := by
    rw [BitVec.toNat_append, BitVec.toNat_append]
    simp [Nat.shiftLeft_eq]
    omega
  have eightfold : (i.blksize ++ 0#3).toNat = 8 * i.blksize.toNat := by
    rw [BitVec.toNat_append]
    simp [Nat.shiftLeft_eq]
    omega
  simp only [idleEdge, dataClocks]
  cases i.bus4bit
  · simp only [Bool.false_eq_true, if_false, BitVec.toNat_add, BitVec.toNat_setWidth,
      eightfold]
    simp
    omega
  · simp only [if_true, BitVec.toNat_add, BitVec.toNat_setWidth, doubled]
    simp
    omega

end MinionSubsystem.SdDataSerialHost
