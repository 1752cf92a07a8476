import MinionSubsystem.SdBlock
import MinionSubsystem.SdDataSerialHost

/-!
# Writing a block

`Driving count` describes the host `count` clocks after the start bit, through
data, check bits and stop bit: one invariant on one clock number, because the
serialisation index, the FIFO prefetch and the two frame counters of the source
all run from `transf_cnt`. The data clocks are again `data_cycles - 2`.
-/

namespace MinionSubsystem.SdDataWrite

open MinionSubsystem.BitStream
open MinionSubsystem.ClockedRun
open MinionSubsystem.SdBlock
open MinionSubsystem.SdCrc
open MinionSubsystem.SdDataSerialHost

set_option autoImplicit false

def startNibble (four : Bool) : BitVec 4 := if four then 0x0 else 0xE

def checkNibble (four : Bool) (crc : Fin 4 → BitVec 16) (index : Nat) : BitVec 4 :=
  if four then
    concatBits 4 [(crc 3).getMsbD index, (crc 2).getMsbD index,
      (crc 1).getMsbD index, (crc 0).getMsbD index]
  else concatBits 4 [true, true, true, (crc 0).getMsbD index]

def laneCrc (data : Nat → BitVec 4) (count : Nat) (lane : Fin 4) : BitVec 16 :=
  crc16 (laneBits data lane count)

/-- What the host drives `clock` clocks after the start bit, `data` being what it
drives in the data clocks. -/
def frameNibble (four : Bool) (total : Nat) (data : Nat → BitVec 4) (clock : Nat) : BitVec 4 :=
  if clock = 0 then startNibble four
  else if clock ≤ total then data (clock - 1)
  else if clock ≤ total + 16 then checkNibble four (laneCrc data total) (clock - total - 1)
  else 0xF

def popsAt (four : Bool) (total clock : Nat) : Bool :=
  if four then clock % 8 = 0 && clock < total else clock = 0 || clock % 32 = 30

/-- `IDLE` has accepted a write and the start bit comes next. -/
structure Armed (four : Bool) (total : Nat) (s : State) : Prop where
  state : s.state = .writeDat
  transfCnt : s.transfCnt = 0
  dataCycles : s.dataCycles.toNat = total + 2
  bus : s.bus4bitReg = four
  crcC : s.crcC = 16
  crcIn : s.crcIn = 0
  crcCalc : s.crcCalc = fun _ => 0
  rd : s.rd = false
  datOeO : s.datOeO = false

structure Driving (four : Bool) (total : Nat) (data : Nat → BitVec 4) (count : Nat)
    (s : State) : Prop where
  state : s.state = .writeDat
  transfCnt : s.transfCnt.toNat = count + 1
  dataIndex : s.dataIndex.toNat = count % 32
  dataCycles : s.dataCycles.toNat = total + 2
  bus : s.bus4bitReg = four
  crcC : s.crcC.toNat = 16 - (count - total)
  crcRst : s.crcRst = false
  crcCalc : s.crcCalc = fun lane => laneCrc data (min count total) lane
  rd : s.rd = popsAt four total count
  datOeO : s.datOeO = true
  datDatO : s.datDatO = frameNibble four total data count

/-- The one clock between the stop bit and the release of the bus. -/
structure Held (total : Nat) (s : State) : Prop where
  state : s.state = .writeDat
  transfCnt : s.transfCnt.toNat = total + 19
  dataCycles : s.dataCycles.toNat = total + 2
  rd : s.rd = false
  datOeO : s.datOeO = true
  datDatO : s.datDatO = 0xF

variable {four : Bool} {total : Nat} {data : Nat → BitVec 4} {i : Inputs} {s : State}

theorem frame_nibble_data {clock : Nat} (inside : clock < total) :
    frameNibble four total data (clock + 1) = data clock := by
  rw [frameNibble, if_neg (by omega), if_pos (by omega), Nat.add_sub_cancel]

theorem frame_nibble_check {index : Nat} (inside : index < 16) :
    frameNibble four total data (total + 1 + index) =
      checkNibble four (laneCrc data total) index := by
  rw [frameNibble, if_neg (by omega), if_neg (by omega), if_pos (by omega)]
  congr 1
  omega

theorem frame_nibble_stop {clock : Nat} (behind : total + 16 < clock) :
    frameNibble four total data clock = 0xF := by
  rw [frameNibble, if_neg (by omega), if_neg (by omega), if_neg (by omega)]

theorem idle_arms (running : Running i) (idle : s.state = .idle) (start : i.start = 1)
    (cycles : (idleEdge i s).dataCycles.toNat = total + 2) :
    Armed i.bus4bit total (step i s) := by
  rw [step_running i s running]
  have edge : caseEdge i s = idleEdge i s := by simp only [caseEdge, idle]
  rw [edge]
  exact
    { state := if_pos start
      transfCnt := rfl
      dataCycles := cycles
      bus := rfl
      crcC := rfl
      crcIn := rfl
      crcCalc := rfl
      rd := rfl
      datOeO := rfl }

theorem armed_starts (running : Running i) (armed : Armed four total s)
    (positive : 0 < total) : Driving four total data 0 (step i s) := by
  rw [step_running i s running]
  have edge : caseEdge i s = writeStart i s := by
    simp only [caseEdge, armed.state, writeDatEdge, armed.transfCnt, if_true]
  rw [edge]
  exact
    { state := armed.state
      transfCnt := by
        change (s.transfCnt + 1).toNat = 0 + 1
        rw [armed.transfCnt]
        rfl
      dataIndex := rfl
      dataCycles := armed.dataCycles
      bus := armed.bus
      crcC := by
        change s.crcC.toNat = _
        rw [armed.crcC, Nat.zero_sub]
        rfl
      crcRst := rfl
      crcCalc := by
        rw [negedge_crc_holds (writeStart i s) armed.crcIn rfl, Nat.zero_min]
        exact armed.crcCalc
      rd := by
        change true = _
        cases four <;> simp [popsAt, positive]
      datOeO := rfl
      datDatO := by
        change (if s.bus4bitReg then (0x0 : BitVec 4) else 0xE) = _
        rw [armed.bus]
        rfl }

private theorem driving_started {count : Nat} (driving : Driving four total data count s) :
    s.transfCnt ≠ 0 := by
  intro zero
  have counted := driving.transfCnt
  rw [zero] at counted
  simp at counted

private theorem driving_data_guard {count : Nat} (driving : Driving four total data count s) :
    wide s.transfCnt < wide s.dataCycles - 1 ↔ count < total := by
  rw [wide_lt_sub _ _ _ (by rw [driving.dataCycles]; simp), driving.transfCnt,
    driving.dataCycles]
  change count + 1 < total + 2 - 1 ↔ _
  omega

private theorem driving_past_data {count : Nat} (driving : Driving four total data count s)
    (sent : total ≤ count) :
    ¬wide s.transfCnt < wide s.dataCycles - 1 ∧
      s.crcCalc = fun lane => laneCrc data total lane := by
  have divided := driving.crcCalc
  rw [min_eq_right sent] at divided
  refine ⟨?_, divided⟩
  rw [driving_data_guard driving]
  omega

/-- The two guards behind the frame, by `transf_cnt`. -/
private theorem behind_frame (cycles : s.dataCycles.toNat = total + 2) :
    (wide s.transfCnt < wide s.dataCycles + 16 ↔ s.transfCnt.toNat < total + 18) ∧
      (wide s.dataCycles + 17 ≤ wide s.transfCnt ↔ total + 19 ≤ s.transfCnt.toNat) := by
  constructor
  · rw [wide_lt_add _ _ _ (by decide), cycles]
    change _ < total + 2 + 16 ↔ _
    omega
  · rw [← BitVec.not_lt, wide_lt_add _ _ _ (by decide), cycles]
    change ¬_ < total + 2 + 17 ↔ _
    omega

private theorem driving_sends {count : Nat} (driving : Driving four total data count s)
    (sends : count < total + 17) : wide s.transfCnt < wide s.dataCycles + 16 := by
  rw [(behind_frame driving.dataCycles).1, driving.transfCnt]
  omega

/-- The prefetch decision of one clock is `rd` in the next. -/
theorem pops_word_next {count : Nat} (driving : Driving four total data count s) :
    popsWord s = popsAt four total (count + 1) := by
  have index := driving.dataIndex
  cases four with
  | false =>
      simp only [popsWord, driving.bus, popsAt, Bool.false_eq_true, if_false]
      rw [Bool.eq_iff_iff, decide_eq_true_iff, ← BitVec.toNat_inj, index]
      simp
      omega
  | true =>
      have guard : wide s.transfCnt < wide s.dataCycles - 2 ↔ count + 1 < total := by
        rw [wide_lt_sub _ _ _ (by rw [driving.dataCycles]; simp), driving.transfCnt,
          driving.dataCycles]
        simp
      simp only [popsWord, driving.bus, popsAt, if_true, guard, index]
      rw [Bool.eq_iff_iff]
      simp
      omega

private theorem sending_counts {count : Nat} (driving : Driving four total data count s)
    (room : total < 2 ^ 15) (sends : count < total + 17) :
    (s.transfCnt + 1).toNat = count + 1 + 1 ∧
      (s.dataIndex + 1).toNat = (count + 1) % 32 := by
  constructor
  · rw [counter_succ _ (by rw [driving.transfCnt]; omega), driving.transfCnt]
  · rw [BitVec.toNat_add, driving.dataIndex]
    simp

theorem driving_data {count : Nat} (running : Running i)
    (driving : Driving four total data count s) (room : total < 2 ^ 15)
    (more : count < total) (drives : crntDin i s = data count) :
    Driving four total data (count + 1) (step i s) := by
  rw [step_running i s running]
  have edge : caseEdge i s = writeData i s := by
    simp only [caseEdge, driving.state, writeDatEdge, driving_started driving,
      driving_sends driving (by omega), (driving_data_guard driving).mpr more,
      if_true, if_false]
  rcases sending_counts driving room (by omega) with ⟨counted, indexed⟩
  rw [edge]
  exact
    { state := driving.state
      transfCnt := counted
      dataIndex := indexed
      dataCycles := driving.dataCycles
      bus := driving.bus
      crcC := driving.crcC.trans (by omega)
      crcRst := driving.crcRst
      crcCalc := by
        have divided := driving.crcCalc
        rw [min_eq_left (by omega)] at divided
        rw [negedge_crc_extends (writeData i s) (crntDin i s)
          (fun lane => laneBits data lane count) rfl driving.crcRst divided]
        funext lane
        rw [min_eq_left (by omega), laneCrc, lane_bits_succ, drives]
      rd := pops_word_next driving
      datOeO := driving.datOeO
      datDatO := by
        change crntDin i s = _
        rw [drives, frame_nibble_data more] }

theorem driving_check {count : Nat} (running : Running i)
    (driving : Driving four total data count s) (room : total < 2 ^ 15)
    (sent : total ≤ count) (more : count < total + 16) :
    Driving four total data (count + 1) (step i s) := by
  rw [step_running i s running]
  have counter := driving.crcC
  have pending : s.crcC ≠ 0 := by
    intro zero
    rw [zero] at counter
    simp at counter
    omega
  rcases driving_past_data driving sent with ⟨past, divided⟩
  have edge : caseEdge i s = writeCheck i s := by
    simp only [caseEdge, driving.state, writeDatEdge, driving_started driving,
      driving_sends driving (by omega), past, pending, if_true, if_false, ne_eq,
      not_false_eq_true]
  rcases sending_counts driving room (by omega) with ⟨counted, indexed⟩
  have place : (s.crcC - 1).toNat = 15 - (count - total) := by
    rw [BitVec.toNat_sub, counter]
    simp
    omega
  rw [edge]
  exact
    { state := driving.state
      transfCnt := counted
      dataIndex := indexed
      dataCycles := driving.dataCycles
      bus := driving.bus
      crcC := by
        change (s.crcC - 1).toNat = _
        omega
      crcRst := driving.crcRst
      crcCalc := by
        rw [negedge_crc_holds (writeCheck i s) rfl driving.crcRst, min_eq_right (by omega)]
        exact divided
      rd := pops_word_next driving
      datOeO := rfl
      datDatO := by
        have inside : count - total < 16 := by omega
        have clock : count + 1 = total + 1 + (count - total) := by omega
        have bit : ∀ lane : Fin 4, (s.crcCalc lane).getLsbD (s.crcC - 1).toNat =
            (laneCrc data total lane).getMsbD (count - total) := by
          intro lane
          rw [divided, place, BitVec.getMsbD_eq_getLsbD]
          simp only [inside, decide_true, Bool.true_and]
        rw [clock, frame_nibble_check inside, checkNibble, ← bit 0, ← bit 1, ← bit 2, ← bit 3,
          ← driving.bus]
        rfl }

theorem driving_stop (running : Running i)
    (driving : Driving four total data (total + 16) s) (room : total < 2 ^ 15) :
    Driving four total data (total + 17) (step i s) := by
  rw [step_running i s running]
  have counter := driving.crcC
  have spent : s.crcC = 0 := by
    rw [← BitVec.toNat_inj, counter]
    simp
  rcases driving_past_data driving (Nat.le_add_right total 16) with ⟨past, divided⟩
  have edge : caseEdge i s = writeStop i s := by
    simp only [caseEdge, driving.state, writeDatEdge, driving_started driving,
      driving_sends driving (by omega), past, spent, if_true, if_false, ne_eq,
      not_true_eq_false]
  rcases sending_counts driving room (by omega) with ⟨counted, indexed⟩
  rw [edge]
  exact
    { state := driving.state
      transfCnt := counted
      dataIndex := indexed
      dataCycles := driving.dataCycles
      bus := driving.bus
      crcC := by
        change s.crcC.toNat = _
        omega
      crcRst := driving.crcRst
      crcCalc := by
        rw [negedge_crc_holds (writeStop i s) rfl driving.crcRst, min_eq_right (by omega)]
        exact divided
      rd := pops_word_next driving
      datOeO := rfl
      datDatO := by
        rw [frame_nibble_stop (by omega)]
        rfl }

/-- One more clock of the frame, whichever phase it is in. -/
theorem driving_step {count : Nat} (running : Running i)
    (driving : Driving four total data count s) (room : total < 2 ^ 15)
    (sends : count < total + 17) (drives : count < total → crntDin i s = data count) :
    Driving four total data (count + 1) (step i s) := by
  by_cases sending : count < total
  · exact driving_data running driving room sending (drives sending)
  by_cases checking : count < total + 16
  · exact driving_check running driving room (by omega) checking
  · have last : count = total + 16 := by omega
    subst last
    exact driving_stop running driving room

theorem driving_holds (running : Running i)
    (driving : Driving four total data (total + 17) s) (room : total < 2 ^ 15) :
    Held total (step i s) := by
  rw [step_running i s running]
  have counted := driving.transfCnt
  have cycles := driving.dataCycles
  rcases behind_frame cycles with ⟨sends, releases⟩
  have sent : ¬wide s.transfCnt < wide s.dataCycles + 16 := by
    rw [sends, counted]
    omega
  have waits : ¬wide s.dataCycles + 17 ≤ wide s.transfCnt := by
    rw [releases, counted]
    omega
  have edge : caseEdge i s = writeGap i s := by
    simp only [caseEdge, driving.state, writeDatEdge, driving_started driving, sent, waits,
      if_false]
  rw [edge]
  exact
    { state := driving.state
      transfCnt := by
        change (s.transfCnt + 1).toNat = _
        rw [counter_succ _ (by omega), counted]
      dataCycles := cycles
      rd := rfl
      datOeO := driving.datOeO
      datDatO := by
        have stop := driving.datDatO
        rw [frame_nibble_stop (by omega)] at stop
        exact stop }

theorem held_releases (running : Running i) (held : Held total s) :
    (step i s).datOeO = false := by
  rw [step_running i s running]
  have counted := held.transfCnt
  have cycles := held.dataCycles
  have started : s.transfCnt ≠ 0 := by
    intro zero
    rw [zero] at counted
    simp at counted
  rcases behind_frame cycles with ⟨sends, releases⟩
  have sent : ¬wide s.transfCnt < wide s.dataCycles + 16 := by
    rw [sends, counted]
    omega
  have waited : wide s.dataCycles + 17 ≤ wide s.transfCnt := by
    rw [releases, counted]
  simp only [caseEdge, held.state, writeDatEdge, started, sent, waited, if_false, if_true]
  rfl

structure WriteRequest (four : Bool) (byteCount : Nat) (start : State)
    (inputs : Nat → Inputs) : Prop where
  idle : start.state = .idle
  running : ∀ clock, Running (inputs clock)
  start : (inputs 0).start = 1
  bus : (inputs 0).bus4bit = four
  blksize : (inputs 0).blksize.toNat = byteCount

def sentData (start : State) (inputs : Nat → Inputs) (count : Nat) : BitVec 4 :=
  crntDin (inputs (2 + count)) (run step start inputs (2 + count))

section Run

variable {byteCount : Nat} {start : State} {inputs : Nat → Inputs}

theorem request_armed (request : WriteRequest four byteCount start inputs) :
    Armed four (dataClocks four byteCount) (run step start inputs 1) := by
  have cycles := idle_data_cycles (inputs 0) start
  have armed := idle_arms (request.running 0) request.idle request.start cycles
  rw [request.bus, request.blksize] at armed
  exact armed

theorem request_room (request : WriteRequest four byteCount start inputs) :
    dataClocks four byteCount < 2 ^ 15 := by
  have bound := (inputs 0).blksize.isLt
  rw [request.blksize] at bound
  unfold dataClocks
  split_ifs <;> omega

theorem driving_run (request : WriteRequest four byteCount start inputs)
    (positive : 0 < dataClocks four byteCount) (count : Nat)
    (bound : count ≤ dataClocks four byteCount + 17) :
    Driving four (dataClocks four byteCount) (sentData start inputs) count
      (run step start inputs (2 + count)) := by
  refine run_invariant step start inputs
    (Driving four (dataClocks four byteCount) (sentData start inputs))
    2 (2 + (dataClocks four byteCount + 17)) ?_ ?_ count (by omega)
  · exact armed_starts (request.running 1) (request_armed request) positive
  · intro count before driving
    exact driving_step (request.running _) driving (request_room request) (by omega)
      fun _ => rfl

theorem held_run (request : WriteRequest four byteCount start inputs)
    (positive : 0 < dataClocks four byteCount) :
    Held (dataClocks four byteCount)
      (run step start inputs (dataClocks four byteCount + 20)) := by
  have driving := driving_run request positive (dataClocks four byteCount + 17) (Nat.le_refl _)
  have clock : dataClocks four byteCount + 20 =
      2 + (dataClocks four byteCount + 17) + 1 := by omega
  rw [clock, run_succ]
  exact driving_holds (request.running _) driving (request_room request)

theorem released_run (request : WriteRequest four byteCount start inputs)
    (positive : 0 < dataClocks four byteCount) :
    (run step start inputs (dataClocks four byteCount + 21)).datOeO = false :=
  held_releases (request.running _) (held_run request positive)

/-- The bus is driven from the start bit to the second stop nibble. -/
theorem drives_iff (request : WriteRequest four byteCount start inputs)
    (positive : 0 < dataClocks four byteCount) (clock : Nat) (after : 1 ≤ clock)
    (bound : clock ≤ dataClocks four byteCount + 21) :
    (run step start inputs clock).datOeO = true ↔
      2 ≤ clock ∧ clock < dataClocks four byteCount + 21 := by
  by_cases armed : clock = 1
  · rw [armed, (request_armed request).datOeO]
    simp
  by_cases driving : clock ≤ dataClocks four byteCount + 19
  · have phase := (driving_run request positive (clock - 2) (by omega)).datOeO
    rw [Nat.add_sub_cancel' (by omega)] at phase
    simp only [phase, true_iff]
    omega
  by_cases held : clock = dataClocks four byteCount + 20
  · rw [held, (held_run request positive).datOeO]
    simp
  · have last : clock = dataClocks four byteCount + 21 := by omega
    rw [last, released_run request positive]
    simp

/-- The nibbles on the bus while it is driven. -/
theorem frame_on_the_bus (request : WriteRequest four byteCount start inputs)
    (positive : 0 < dataClocks four byteCount) :
    observed State.datDatO (run step start inputs) 2 (dataClocks four byteCount + 19) =
      (List.range (dataClocks four byteCount + 19)).map
        (frameNibble four (dataClocks four byteCount) (sentData start inputs)) := by
  apply observed_eq_map
  intro offset bound
  by_cases driving : offset ≤ dataClocks four byteCount + 17
  · exact (driving_run request positive offset driving).datDatO
  · have last : offset = dataClocks four byteCount + 18 := by omega
    have clock : 2 + offset = dataClocks four byteCount + 20 := by omega
    rw [clock, last, frame_nibble_stop (by omega)]
    exact (held_run request positive).datDatO

end Run

end MinionSubsystem.SdDataWrite
