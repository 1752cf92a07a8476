import Mathlib.Tactic.FinCases
import MinionSubsystem.SdBlock
import MinionSubsystem.SdDataSerialHost

/-!
# Reading a block

The read path goes through three phases, each with an invariant indexed by the
clocks spent in it: `Waiting` for the start bit, `Reading` data, `Checking` the
CRC bits. The invariants are stated for both bus widths; `total` is the number of
clocks the host takes for data, `data_cycles - 2`, whatever the block size is.
-/

namespace MinionSubsystem.SdDataRead

open MinionSubsystem.BitStream
open MinionSubsystem.ClockedRun
open MinionSubsystem.SdBlock
open MinionSubsystem.SdCrc
open MinionSubsystem.SdDataSerialHost

set_option autoImplicit false

structure Waiting (four : Bool) (total waited : Nat) (s : State) : Prop where
  state : s.state = .readWait
  waitRegO : s.waitRegO.toNat = waited
  dataCycles : s.dataCycles.toNat = total + 2
  bus : s.bus4bitReg = four
  crcCalc : s.crcCalc = fun _ => 0
  we : s.we = false

/-- After `count` data clocks: `dat count` is sampled but not yet processed. -/
structure Reading (four : Bool) (total : Nat) (dat : Nat → BitVec 4) (count : Nat)
    (s : State) : Prop where
  state : s.state = .readDat
  transfCnt : s.transfCnt.toNat = count
  dataIndex : s.dataIndex.toNat = count % 32
  dataCycles : s.dataCycles.toNat = total + 2
  bus : s.bus4bitReg = four
  crcC : s.crcC = 15
  crcRst : s.crcRst = false
  sampled : s.datDatReg = dat count
  crcCalc : s.crcCalc = fun lane : Fin 4 => crc16 (laneBits dat lane count)
  dataOut : Gathers (wireBit four dat) (bitsPerClock four * count) s.dataOut
  we : s.we = decide (0 < count ∧ bitsPerClock four * count % 32 = 0)

structure Checking (total : Nat) (dat : Nat → BitVec 4) (count : Nat) (s : State) : Prop where
  state : s.state = .readDat
  transfCnt : s.transfCnt.toNat = total + count
  dataCycles : s.dataCycles.toNat = total + 2
  crcC : s.crcC.toNat = (47 - count) % 32
  crcRst : s.crcRst = false
  sampled : s.datDatReg = dat (total + count)
  crcCalc : s.crcCalc = fun lane : Fin 4 => crc16 (laneBits dat lane total)
  crcDin : ∀ lane : Fin 4,
    Gathers (fun clock => (dat (total + clock)).getLsbD lane) count (s.crcDin lane)
  we : 0 < count → s.we = false

/-- The block is over: no word is pending and the lanes have been compared. -/
structure Finished (total : Nat) (dat : Nat → BitVec 4) (s : State) : Prop where
  state : s.state = .finish
  we : s.we = false
  crcLaneOk : ∀ lane : Fin 4, s.crcLaneOk.getLsbD lane =
    decide (crc16 (laneBits dat lane total) =
      streamWord 16 (fun clock => (dat (total + clock)).getLsbD lane) 0)

variable {four : Bool} {total : Nat} {dat : Nat → BitVec 4} {i : Inputs} {s : State}

theorem idle_starts_waiting (running : Running i) (idle : s.state = .idle)
    (start : i.start = 2)
    (cycles : (idleEdge i s).dataCycles.toNat = total + 2) :
    Waiting i.bus4bit total 0 (step i s) := by
  rw [step_running i s running]
  have edge : caseEdge i s = idleEdge i s := by simp only [caseEdge, idle]
  rw [edge]
  exact
    { state := by simp [negedge, idleEdge, start]
      waitRegO := rfl
      dataCycles := cycles
      bus := rfl
      crcCalc := rfl
      we := rfl }

theorem waiting_step {waited : Nat} (running : Running i)
    (waiting : Waiting four total waited s) (silent : s.datDatReg.getLsbD 0 = true)
    (patient : waited < i.timeoutI.toNat) :
    Waiting four total (waited + 1) (step i s) := by
  rw [step_running i s running]
  have edge : caseEdge i s = readWaitEdge i s := by simp only [caseEdge, waiting.state]
  have early : ¬i.timeoutI ≤ s.waitRegO := by
    rw [BitVec.le_def, waiting.waitRegO]
    omega
  have counted : (s.waitRegO + 1).toNat = waited + 1 := by
    have bound := i.timeoutI.isLt
    rw [BitVec.toNat_add, waiting.waitRegO]
    exact Nat.mod_eq_of_lt (by simp; omega)
  rw [edge]
  exact
    { state := by simp [negedge, readWaitEdge, silent, early, waiting.state]
      waitRegO := counted
      dataCycles := waiting.dataCycles
      bus := waiting.bus
      crcCalc := (negedge_crc_holds _ rfl rfl).trans waiting.crcCalc
      we := waiting.we }

theorem waiting_accepts {waited : Nat} (running : Running i)
    (waiting : Waiting four total waited s) (started : s.datDatReg.getLsbD 0 = false)
    (ready : 3 ≤ waited) (next : i.datDatI = dat 0) :
    Reading four total dat 0 (step i s) := by
  rw [step_running i s running]
  have edge : caseEdge i s = readWaitEdge i s := by simp only [caseEdge, waiting.state]
  have late : 3 ≤ s.waitRegO := by
    rw [BitVec.le_def, waiting.waitRegO]
    exact ready
  rw [edge]
  exact
    { state := if_pos ⟨late, started⟩
      transfCnt := rfl
      dataIndex := rfl
      dataCycles := waiting.dataCycles
      bus := waiting.bus
      crcC := rfl
      crcRst := rfl
      sampled := next
      crcCalc := (negedge_crc_holds _ rfl rfl).trans waiting.crcCalc
      dataOut := by
        rw [Nat.mul_zero]
        exact gathers_zero _ _
      we := by
        change s.we = _
        rw [waiting.we]
        simp }

private theorem packed_gathers {count : Nat} (reading : Reading four total dat count s) :
    Gathers (wireBit four dat) (bitsPerClock four * (count + 1)) (packed s) := by
  have gathered := reading.dataOut
  cases four with
  | false =>
      have bit : s.datDatReg.getLsbD 0 = wireBit false dat (1 * count) := by
        simp [wireBit, reading.sampled]
      have place : 31 - s.dataIndex.toNat = 32 - 1 - 1 * count % 32 := by
        rw [reading.dataIndex]
        omega
      simp only [packed, reading.bus, bitsPerClock, Bool.false_eq_true, if_false, bit, place]
        at gathered ⊢
      exact gathers_set_bit _ _ _ (by decide) gathered
  | true =>
      have index := reading.dataIndex
      have bit : ∀ lane, lane < 4 →
          s.datDatReg.getLsbD lane = wireBit true dat (4 * count + (3 - lane)) := by
        intro lane bound
        have clock : (4 * count + (3 - lane)) / 4 = count := by omega
        have place : (4 * count + (3 - lane)) % 4 = 3 - lane := by omega
        have mirrored : 3 - (3 - lane) = lane := by omega
        simp [wireBit, clock, place, reading.sampled, BitVec.getMsbD, mirrored]
        omega
      have place : ∀ lane, lane < 4 →
          28 + lane - 4 * (s.dataIndex.toNat % 8) =
            32 - 1 - (4 * count + (3 - lane)) % 32 := by
        intro lane bound
        omega
      simp only [packed, reading.bus, bitsPerClock, if_true] at gathered ⊢
      rw [bit 3 (by decide), bit 2 (by decide), bit 1 (by decide), bit 0 (by decide),
        place 3 (by decide), place 2 (by decide), place 1 (by decide), place 0 (by decide)]
      have first := gathers_set_bit _ _ _ (by decide) gathered
      have second := gathers_set_bit _ _ _ (by decide) first
      have third := gathers_set_bit _ _ _ (by decide) second
      exact gathers_set_bit _ _ _ (by decide) third

theorem reading_step {count : Nat} (running : Running i)
    (reading : Reading four total dat count s) (more : count < total)
    (room : total < 2 ^ 15) (next : i.datDatI = dat (count + 1)) :
    Reading four total dat (count + 1) (step i s) := by
  rw [step_running i s running]
  have guard : wide s.transfCnt < wide s.dataCycles - 2 := by
    rw [wide_lt_sub _ _ _ (by rw [reading.dataCycles]; simp), reading.transfCnt,
      reading.dataCycles]
    exact more
  have edge : caseEdge i s = readData i s := by
    simp only [caseEdge, reading.state, readDatEdge, guard, if_true]
  have index : (s.dataIndex + 1).toNat = (count + 1) % 32 := by
    rw [BitVec.toNat_add, reading.dataIndex]
    simp
  have complete : completesWord s =
      decide (0 < count + 1 ∧ bitsPerClock four * (count + 1) % 32 = 0) := by
    have current := reading.dataIndex
    cases four <;>
      simp only [completesWord, reading.bus, bitsPerClock, if_true, Bool.false_eq_true,
        if_false, decide_eq_decide]
    · rw [← BitVec.toNat_inj]
      change s.dataIndex.toNat = 31 ↔ _
      omega
    · omega
  rw [edge]
  exact
    { state := reading.state
      transfCnt := by
        change (s.transfCnt + 1).toNat = count + 1
        rw [BitVec.toNat_add, reading.transfCnt]
        exact Nat.mod_eq_of_lt (by simp; omega)
      dataIndex := index
      dataCycles := reading.dataCycles
      bus := reading.bus
      crcC := reading.crcC
      crcRst := reading.crcRst
      sampled := next
      crcCalc := by
        rw [negedge_crc_extends (readData i s) s.datDatReg
          (fun lane => laneBits dat lane count) rfl reading.crcRst reading.crcCalc]
        funext lane
        rw [lane_bits_succ, reading.sampled]
      dataOut := packed_gathers reading
      we := complete }

theorem reading_ends (reading : Reading four total dat total s) :
    Checking total dat 0 s :=
  { state := reading.state
    transfCnt := reading.transfCnt
    dataCycles := reading.dataCycles
    crcC := by rw [reading.crcC]; rfl
    crcRst := reading.crcRst
    sampled := reading.sampled
    crcCalc := reading.crcCalc
    crcDin := fun _ => gathers_zero _ _
    we := fun positive => absurd positive (Nat.lt_irrefl 0) }

private theorem checking_guard {count : Nat} (checking : Checking total dat count s) :
    ¬wide s.transfCnt < wide s.dataCycles - 2 := by
  rw [wide_lt_sub _ _ _ (by rw [checking.dataCycles]; simp), checking.transfCnt,
    checking.dataCycles]
  simp

theorem checking_step {count : Nat} (running : Running i)
    (checking : Checking total dat count s) (more : count < 16)
    (room : total < 2 ^ 15) (next : i.datDatI = dat (total + (count + 1))) :
    Checking total dat (count + 1) (step i s) := by
  rw [step_running i s running]
  have counter := checking.crcC
  have pending : s.crcC ≠ 0x1F := by
    intro wrapped
    rw [wrapped] at counter
    simp at counter
    omega
  have edge : caseEdge i s = readCheck i s := by
    simp only [caseEdge, checking.state, readDatEdge, checking_guard checking, pending,
      if_false, ne_eq, not_false_eq_true, if_true]
  have place : s.crcC.toNat % 16 = 16 - 1 - count % 16 := by omega
  rw [edge]
  exact
    { state := checking.state
      transfCnt := by
        change (s.transfCnt + 1).toNat = total + (count + 1)
        rw [BitVec.toNat_add, checking.transfCnt]
        exact Nat.mod_eq_of_lt (by simp; omega)
      dataCycles := checking.dataCycles
      crcC := by
        change (s.crcC - 1).toNat = (47 - (count + 1)) % 32
        rw [BitVec.toNat_sub, counter]
        simp
        omega
      crcRst := checking.crcRst
      sampled := next
      crcCalc :=
        (negedge_crc_holds (readCheck i s) rfl checking.crcRst).trans checking.crcCalc
      crcDin := by
        intro lane
        change Gathers _ _
          (setBit (s.crcDin lane) (s.crcC.toNat % 16) (s.datDatReg.getLsbD lane))
        rw [place, checking.sampled]
        exact gathers_set_bit _ _ _ (by decide) (checking.crcDin lane)
      we := fun _ => rfl }

theorem checking_ends (running : Running i) (checking : Checking total dat 16 s) :
    Finished total dat (step i s) := by
  rw [step_running i s running]
  have wrapped : s.crcC = 0x1F := by
    rw [← BitVec.toNat_inj, checking.crcC]
    rfl
  have edge : caseEdge i s = readDone i s := by
    simp only [caseEdge, checking.state, readDatEdge, checking_guard checking, wrapped,
      if_false, ne_eq, not_true_eq_false]
  rw [edge]
  exact
    { state := rfl
      we := rfl
      crcLaneOk := by
        intro lane
        have received := gathers_word _ 0 _ (checking.crcDin lane)
        rw [← received, ← congrFun checking.crcCalc lane]
        change (concatBits 4 _).getLsbD lane = _
        rw [concat_bits_getLsbD _ _ (by simp) lane.isLt]
        fin_cases lane
        · rfl
        · rfl
        · rfl
        · rfl }

theorem finished_step (running : Running i) (held : i.start ≠ 0)
    (finished : Finished total dat s) : Finished total dat (step i s) := by
  rw [step_running i s running]
  have edge : caseEdge i s = finishEdge i s := by simp only [caseEdge, finished.state]
  rw [edge]
  exact
    { state := (if_neg held).trans finished.state
      we := finished.we
      crcLaneOk := finished.crcLaneOk }

/-- A host in `IDLE` is asked to read and `READ_WAIT` accepts the start bit that
the card sends after `gap` clocks: in clock `1 + waited` of the wait `wait_reg_o`
is `waited`. -/
structure ReadRequest (four : Bool) (byteCount gap : Nat) (start : State)
    (inputs : Nat → Inputs) : Prop where
  idle : start.state = .idle
  released : ∀ clock, (inputs clock).rst = false
  start : ∀ clock, (inputs clock).start = 2
  bus : (inputs 0).bus4bit = four
  blksize : (inputs 0).blksize.toNat = byteCount
  ready : 3 ≤ gap
  patient : ∀ waited, waited < gap → waited < (inputs (1 + waited)).timeoutI.toNat

def push (s : State) : Option (BitVec 32) := if s.weO then some s.dataOutO else none

def pending (s : State) : Option (BitVec 32) := if s.we then some s.dataOut else none

section Run

variable {byteCount gap : Nat} {start : State} {inputs : Nat → Inputs}

private theorem request_running (request : ReadRequest four byteCount gap start inputs)
    (clock : Nat) : Running (inputs clock) :=
  ⟨request.released clock, by rw [request.start clock]; decide⟩

private theorem request_room (request : ReadRequest four byteCount gap start inputs) :
    dataClocks four byteCount < 2 ^ 15 := by
  have bound := (inputs 0).blksize.isLt
  rw [request.blksize] at bound
  unfold dataClocks
  split_ifs <;> omega

theorem waiting_run (request : ReadRequest four byteCount gap start inputs)
    (silent : ∀ clock, clock < gap → (inputs clock).datDatI.getLsbD 0 = true)
    (waited : Nat) (bound : waited ≤ gap) :
    Waiting four (dataClocks four byteCount) waited (run step start inputs (1 + waited)) ∧
      (run step start inputs (1 + waited)).datDatReg = (inputs waited).datDatI := by
  refine run_invariant step start inputs
    (fun waited s => Waiting four (dataClocks four byteCount) waited s ∧
      s.datDatReg = (inputs waited).datDatI) 1 (1 + gap) ?_ ?_ waited (by omega)
  · have cycles := idle_data_cycles (inputs 0) start
    have waiting := idle_starts_waiting (request_running request 0) request.idle
      (request.start 0) cycles
    rw [request.bus, request.blksize] at waiting
    exact ⟨waiting, step_samples _ _ (request_running request 0)⟩
  · rintro waited before ⟨waiting, sampled⟩
    have patient := request.patient waited (by omega)
    have line := silent waited (by omega)
    rw [← sampled] at line
    refine ⟨waiting_step (request_running request _) waiting line patient, ?_⟩
    rw [step_samples _ _ (request_running request _), Nat.add_comm 1 waited]

theorem reading_run (request : ReadRequest four byteCount gap start inputs)
    (silent : ∀ clock, clock < gap → (inputs clock).datDatI.getLsbD 0 = true)
    (started : (inputs gap).datDatI.getLsbD 0 = false)
    (count : Nat) (bound : count ≤ dataClocks four byteCount) :
    Reading four (dataClocks four byteCount) (fun clock => (inputs (gap + 1 + clock)).datDatI)
      count (run step start inputs (gap + 2 + count)) := by
  refine run_invariant step start inputs
    (Reading four (dataClocks four byteCount) fun clock => (inputs (gap + 1 + clock)).datDatI)
    (gap + 2) (gap + 2 + dataClocks four byteCount) ?_ ?_ count (by omega)
  · rcases waiting_run request silent gap (Nat.le_refl gap) with ⟨waiting, sampled⟩
    rw [Nat.add_comm 1 gap] at waiting sampled
    rw [← sampled] at started
    exact waiting_accepts (request_running request _) waiting started request.ready rfl
  · intro count before reading
    refine reading_step (request_running request _) reading (by omega)
      (request_room request) ?_
    apply congrArg (fun clock => (inputs clock).datDatI)
    omega

theorem checking_run (request : ReadRequest four byteCount gap start inputs)
    (silent : ∀ clock, clock < gap → (inputs clock).datDatI.getLsbD 0 = true)
    (started : (inputs gap).datDatI.getLsbD 0 = false)
    (count : Nat) (bound : count ≤ 16) :
    Checking (dataClocks four byteCount) (fun clock => (inputs (gap + 1 + clock)).datDatI)
      count (run step start inputs (gap + 2 + dataClocks four byteCount + count)) := by
  refine run_invariant step start inputs
    (Checking (dataClocks four byteCount) fun clock => (inputs (gap + 1 + clock)).datDatI)
    (gap + 2 + dataClocks four byteCount) (gap + 2 + dataClocks four byteCount + 16)
    ?_ ?_ count (by omega)
  · exact reading_ends (reading_run request silent started _ (Nat.le_refl _))
  · intro count before checking
    refine checking_step (request_running request _) checking (by omega)
      (request_room request) ?_
    apply congrArg (fun clock => (inputs clock).datDatI)
    omega

theorem finished_run (request : ReadRequest four byteCount gap start inputs)
    (silent : ∀ clock, clock < gap → (inputs clock).datDatI.getLsbD 0 = true)
    (started : (inputs gap).datDatI.getLsbD 0 = false) (later : Nat)
    (past : gap + dataClocks four byteCount + 19 ≤ later) :
    Finished (dataClocks four byteCount) (fun clock => (inputs (gap + 1 + clock)).datDatI)
      (run step start inputs later) := by
  induction later, past using Nat.le_induction with
  | base =>
      have checked := checking_run request silent started 16 (Nat.le_refl 16)
      have clock : gap + dataClocks four byteCount + 19 =
          gap + 2 + dataClocks four byteCount + 16 + 1 := by omega
      rw [clock]
      exact checking_ends (request_running request _) checked
  | succ later _ ih =>
      exact finished_step (request_running request _)
        (by rw [request.start]; decide) ih

/-- Each completed word is presented once, in the clock after it is pending. -/
theorem words_pending (request : ReadRequest four byteCount gap start inputs)
    (silent : ∀ clock, clock < gap → (inputs clock).datDatI.getLsbD 0 = true)
    (started : (inputs gap).datDatI.getLsbD 0 = false)
    (count : Nat) (bound : count ≤ dataClocks four byteCount) :
    transferred pending (run step start inputs) 1 (gap + 2 + count) =
      (List.range (bitsPerClock four * count / 32)).map
        (streamWord 32 (wireBit four fun clock => (inputs (gap + 1 + clock)).datDatI)) := by
  have reading := reading_run request silent started
  induction count with
  | zero =>
      have waits := transferred_silent pending (run step start inputs) 1 0 (gap + 1) (by
        intro offset before
        have waiting := (waiting_run request silent offset (by omega)).1
        simp [pending, waiting.we])
      have first := (reading 0 bound).we
      have clock : 1 + (gap + 1) = gap + 2 + 0 := by omega
      rw [Nat.zero_add] at waits
      rw [transferred_succ, waits, clock]
      simp [pending, first]
  | succ count ih =>
      have now := reading (count + 1) bound
      have clock : 1 + (gap + 2 + count) = gap + 2 + (count + 1) := by omega
      rw [← Nat.add_assoc, transferred_succ, ih (by omega), clock]
      by_cases full : bitsPerClock four * (count + 1) % 32 = 0
      · have groups : bitsPerClock four * (count + 1) =
            32 * (bitsPerClock four * count / 32 + 1) := by
          cases four <;> simp only [bitsPerClock, if_true, Bool.false_eq_true, if_false]
            at full ⊢ <;> omega
        have gathered := now.dataOut
        rw [groups] at gathered
        have word := gathers_word _ _ _ gathered
        rw [groups, Nat.mul_div_cancel_left _ (by decide), List.range_succ, List.map_append]
        simp [pending, now.we, full, ← word]
      · have same : bitsPerClock four * (count + 1) / 32 = bitsPerClock four * count / 32 := by
          cases four <;> simp only [bitsPerClock, if_true, Bool.false_eq_true, if_false]
            at full ⊢ <;> omega
        rw [same]
        simp [pending, now.we, full]

end Run

end MinionSubsystem.SdDataRead
