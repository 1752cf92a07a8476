import MinionSubsystem.SdDataSerialHost

/-!
# Two runs of the data host

What a transfer leaves behind is in the hidden registers once `IDLE` has been
clocked: `blank` clears them. `Alike` relates two runs that differ in the hidden
registers only. A transfer writes each of them before anything that leaves the
host depends on it, and `Alike` says up to where they may still differ.
-/

namespace MinionSubsystem.SdDataIsolation

open MinionSubsystem.BitStream
open MinionSubsystem.ClockedRun
open MinionSubsystem.SdDataSerialHost

set_option autoImplicit false

/-- The visible part of a state: without the registers that `IDLE` or the reset
leaves alone, and without `data_out_o`. -/
def blank (s : State) : State :=
  { s with
    dataOut := 0
    busyInt := false
    dataOutO := 0
    crcDin := fun _ => 0
    blksizeReg := 0 }

/-- The lowest place of `data_out` written since the last word was complete. -/
def written (s : State) : Nat :=
  if s.bus4bitReg then 32 - 4 * (s.dataIndex.toNat % 8) else 32 - s.dataIndex.toNat

/-- Two runs that differ in the hidden registers, where nothing depends on them. -/
structure Alike (s t : State) : Prop where
  visible : blank t = blank s
  strobed : s.weO = true → t.dataOutO = s.dataOutO
  pending : s.we = true → t.dataOut = s.dataOut
  acknowledged : s.state = .writeBusy → t.busyInt = s.busyInt
  gathered : s.state = .readDat → ∀ place, written s ≤ place → place < 32 →
    t.dataOut.getLsbD place = s.dataOut.getLsbD place
  received : s.state ≠ .idle → t.crcDin = s.crcDin

variable {i : Inputs} {s t : State}

/-- An edge whose visible result depends on what is visible only. -/
def Blind (edge : State → State) : Prop := ∀ s, blank (edge (blank s)) = blank (edge s)

theorem visible_register {Value : Type} (register : State → Value)
    (shown : ∀ s, register (blank s) = register s) (same : blank t = blank s) :
    register t = register s := by
  rw [← shown t, same, shown s]

theorem blind_visible {edge : State → State} (blind : Blind edge) (same : blank t = blank s) :
    blank (edge t) = blank (edge s) := by
  rw [← blind t, same, blind s]

theorem write_dat_blind (i : Inputs) : Blind (writeDatEdge i) := by
  intro s
  have position : (blank s).transfCnt = s.transfCnt := rfl
  have cycles : (blank s).dataCycles = s.dataCycles := rfl
  have check : (blank s).crcC = s.crcC := rfl
  simp only [writeDatEdge, position, cycles, check]
  split_ifs <;> rfl

theorem read_dat_visible (same : blank t = blank s) (words : t.crcDin = s.crcDin) :
    blank (readDatEdge i t) = blank (readDatEdge i s) := by
  have position : t.transfCnt = s.transfCnt := visible_register State.transfCnt (fun _ => rfl) same
  have cycles : t.dataCycles = s.dataCycles := visible_register State.dataCycles (fun _ => rfl) same
  have check : t.crcC = s.crcC := visible_register State.crcC (fun _ => rfl) same
  have divided : t.crcCalc = s.crcCalc := visible_register State.crcCalc (fun _ => rfl) same
  have done : ∀ u, blank (readDone i u) =
      { blank (readDone i (blank u)) with
        crcLaneOk := concatBits 4
          [u.crcCalc 3 = u.crcDin 3, u.crcCalc 2 = u.crcDin 2,
            u.crcCalc 1 = u.crcDin 1, u.crcCalc 0 = u.crcDin 0] } := fun _ => rfl
  simp only [readDatEdge, position, cycles, check]
  split_ifs
  · exact blind_visible (fun _ => rfl) same
  · exact blind_visible (fun _ => rfl) same
  · rw [done t, done s, divided, words, same]

theorem write_busy_visible (same : blank t = blank s) (busy : t.busyInt = s.busyInt) :
    blank (writeBusyEdge i t) = blank (writeBusyEdge i s) := by
  have state : t.state = s.state := visible_register State.state (fun _ => rfl) same
  have done : ∀ u, blank (writeBusyEdge i u) =
      { blank (writeBusyEdge i (blank u)) with
        state := if u.busyInt then u.state else .finish } := fun _ => rfl
  rw [done t, done s, busy, state, same]

theorem case_visible (alike : Alike s t) :
    blank (caseEdge i t) = blank (caseEdge i s) := by
  have same := alike.visible
  have state : t.state = s.state := visible_register State.state (fun _ => rfl) same
  unfold caseEdge
  rw [state]
  cases current : s.state with
  | writeDat => exact blind_visible (write_dat_blind i) same
  | readDat => exact read_dat_visible same (alike.received (by simp [current]))
  | writeBusy => exact write_busy_visible same (alike.acknowledged current)
  | idle | writeCrc | readWait | finish => exact blind_visible (fun _ => rfl) same

structure Strobes (s after : State) : Prop where
  weO : after.weO = s.we
  dataOutO : after.dataOutO = if s.we then s.dataOut else s.dataOutO

/-- An edge that only samples: no word is packed and no check bit received. -/
structure Samples (s after : State) : Prop where
  strobes : Strobes s after
  we : after.we = s.we
  dataOut : after.dataOut = s.dataOut
  crcDin : after.crcDin = s.crcDin

theorem write_dat_samples (i : Inputs) (s : State) : Samples s (writeDatEdge i s) := by
  unfold writeDatEdge
  split_ifs <;> exact ⟨⟨rfl, rfl⟩, rfl, rfl, rfl⟩

theorem write_dat_state (writing : s.state = .writeDat) :
    (writeDatEdge i s).state = .writeDat ∨ (writeDatEdge i s).state = .writeCrc := by
  have released : (writeRelease i s).state = .writeDat ∨ (writeRelease i s).state = .writeCrc := by
    simp only [writeRelease, writing]
    split_ifs
    · exact Or.inl rfl
    · exact Or.inr rfl
  unfold writeDatEdge
  split_ifs
  case _ => exact Or.inl writing
  case _ => exact Or.inl writing
  case _ => exact Or.inl writing
  case _ => exact Or.inl writing
  case _ => exact released
  case _ => exact Or.inl writing

theorem strobed_behind (alike : Alike s t) {s' t' : State} (frame : Strobes s s')
    (other : Strobes t t') (strobe : s'.weO = true) : t'.dataOutO = s'.dataOutO := by
  have same : t.we = s.we := visible_register State.we (fun _ => rfl) alike.visible
  have full : s.we = true := frame.weO.symm.trans strobe
  rw [frame.dataOutO, other.dataOutO, same, full]
  exact alike.pending full

theorem samples_alike (alike : Alike s t) (active : s.state ≠ .idle) {s' t' : State}
    (visible : blank t' = blank s') (frame : Samples s s') (other : Samples t t')
    (acknowledged : s'.state = .writeBusy → t'.busyInt = s'.busyInt)
    (fresh : s'.state = .readDat → written s' = 32) : Alike s' t' where
  visible := visible
  strobed := strobed_behind alike frame.strobes other.strobes
  pending := by
    intro full
    rw [other.dataOut, frame.dataOut]
    exact alike.pending (frame.we.symm.trans full)
  acknowledged := acknowledged
  gathered := by
    intro reads place from32 bound
    rw [fresh reads] at from32
    omega
  received := by
    intro _
    rw [other.crcDin, frame.crcDin]
    exact alike.received active

theorem idle_alike (alike : Alike s t) : Alike (idleEdge i s) (idleEdge i t) where
  visible := blind_visible (fun _ => rfl) alike.visible
  strobed := fun _ => rfl
  pending := fun full => absurd full Bool.false_ne_true
  acknowledged := by
    intro waits
    simp only [idleEdge] at waits
    split_ifs at waits
  gathered := by
    intro reads
    simp only [idleEdge] at reads
    split_ifs at reads
  received := fun _ => rfl

/-- The nibble, or bit, that is packed extends what both runs have written. -/
theorem packed_written (alike : Alike s t) (reading : s.state = .readDat) (place : Nat)
    (after : written s ≤ place + (if s.bus4bitReg then 4 else 1)) (bound : place < 32) :
    (packed t).getLsbD place = (packed s).getLsbD place := by
  have bus : t.bus4bitReg = s.bus4bitReg :=
    visible_register State.bus4bitReg (fun _ => rfl) alike.visible
  have index : t.dataIndex = s.dataIndex :=
    visible_register State.dataIndex (fun _ => rfl) alike.visible
  have line : t.datDatReg = s.datDatReg :=
    visible_register State.datDatReg (fun _ => rfl) alike.visible
  have earlier := alike.gathered reading place
  unfold written at after earlier
  simp only [packed, bus, index, line]
  cases four : s.bus4bitReg with
  | false =>
      rw [four] at after earlier
      simp only [Bool.false_eq_true, if_false] at after earlier ⊢
      rw [set_bit_getLsbD, set_bit_getLsbD]
      split_ifs with here
      · rfl
      · exact earlier (by omega) bound
  | true =>
      rw [four] at after earlier
      simp only [if_true] at after earlier ⊢
      simp only [set_bit_getLsbD]
      split_ifs with first second third fourth
      · rfl
      · rfl
      · rfl
      · rfl
      · exact earlier (by omega) bound

/-- After a complete word the next one starts at the top. -/
theorem written_next (s : State) :
    written { s with dataIndex := s.dataIndex + 1 } =
      if completesWord s then 32 else written s - (if s.bus4bitReg then 4 else 1) := by
  have bound := s.dataIndex.isLt
  have next : (s.dataIndex + 1).toNat = (s.dataIndex.toNat + 1) % 32 := by
    rw [BitVec.toNat_add]
    rfl
  unfold written completesWord
  simp only [next]
  cases four : s.bus4bitReg with
  | false =>
      have last : s.dataIndex = 31 ↔ s.dataIndex.toNat = 31 := by
        rw [← BitVec.toNat_inj]
        rfl
      simp only [Bool.false_eq_true, if_false, decide_eq_true_eq, last]
      split_ifs <;> omega
  | true =>
      simp only [if_true, decide_eq_true_eq]
      split_ifs <;> omega

theorem completes_written (s : State) (complete : completesWord s = true) :
    written s = if s.bus4bitReg then 4 else 1 := by
  unfold completesWord at complete
  unfold written
  cases four : s.bus4bitReg with
  | false =>
      simp only [four, Bool.false_eq_true, if_false, decide_eq_true_eq] at complete
      rw [complete]
      rfl
  | true =>
      simp only [four, if_true, decide_eq_true_eq] at complete
      rw [complete]
      rfl

theorem packed_alike (alike : Alike s t) (reading : s.state = .readDat)
    (complete : completesWord s = true) : packed t = packed s := by
  apply BitVec.eq_of_getLsbD_eq
  intro place bound
  apply packed_written alike reading place _ bound
  rw [completes_written s complete]
  exact Nat.le_add_left _ _

theorem read_data_alike (alike : Alike s t) (reading : s.state = .readDat)
    (visible : blank (readData i t) = blank (readData i s)) :
    Alike (readData i s) (readData i t) where
  visible := visible
  strobed := strobed_behind alike ⟨rfl, rfl⟩ ⟨rfl, rfl⟩
  pending := packed_alike alike reading
  acknowledged := by
    intro waits
    exact absurd (reading.symm.trans waits) (by decide)
  gathered := by
    intro _ place after bound
    have next : written (readData i s) = written { s with dataIndex := s.dataIndex + 1 } := rfl
    rw [next, written_next] at after
    by_cases complete : completesWord s = true
    · rw [if_pos complete] at after
      omega
    · rw [if_neg complete] at after
      exact packed_written alike reading place (Nat.sub_le_iff_le_add.mp after) bound
  received := by
    intro _
    exact alike.received (by simp [reading])

theorem read_check_alike (alike : Alike s t) (reading : s.state = .readDat)
    (visible : blank (readCheck i t) = blank (readCheck i s)) :
    Alike (readCheck i s) (readCheck i t) where
  visible := visible
  strobed := strobed_behind alike ⟨rfl, rfl⟩ ⟨rfl, rfl⟩
  pending := fun full => absurd full Bool.false_ne_true
  acknowledged := by
    intro waits
    exact absurd (reading.symm.trans waits) (by decide)
  gathered := fun _ => alike.gathered reading
  received := by
    intro _
    have words := alike.received (by simp [reading])
    have place : t.crcC = s.crcC := visible_register State.crcC (fun _ => rfl) alike.visible
    have line : t.datDatReg = s.datDatReg :=
      visible_register State.datDatReg (fun _ => rfl) alike.visible
    simp only [readCheck, words, place, line]

theorem read_done_alike (alike : Alike s t) (reading : s.state = .readDat)
    (visible : blank (readDone i t) = blank (readDone i s)) :
    Alike (readDone i s) (readDone i t) where
  visible := visible
  strobed := strobed_behind alike ⟨rfl, rfl⟩ ⟨rfl, rfl⟩
  pending := fun full => absurd full Bool.false_ne_true
  acknowledged := fun waits => absurd waits (by simp [readDone])
  gathered := fun reads => absurd reads (by simp [readDone])
  received := by
    intro _
    exact alike.received (by simp [reading])

theorem read_dat_alike (alike : Alike s t) (reading : s.state = .readDat) :
    Alike (readDatEdge i s) (readDatEdge i t) := by
  have visible : blank (readDatEdge i t) = blank (readDatEdge i s) :=
    read_dat_visible alike.visible (alike.received (by simp [reading]))
  have position : t.transfCnt = s.transfCnt :=
    visible_register State.transfCnt (fun _ => rfl) alike.visible
  have cycles : t.dataCycles = s.dataCycles :=
    visible_register State.dataCycles (fun _ => rfl) alike.visible
  have check : t.crcC = s.crcC := visible_register State.crcC (fun _ => rfl) alike.visible
  simp only [readDatEdge, position, cycles, check] at visible ⊢
  by_cases data : wide s.transfCnt < wide s.dataCycles - 2
  · simp only [data, if_true] at visible ⊢
    exact read_data_alike alike reading visible
  by_cases checks : s.crcC ≠ 0x1F
  · simp only [data, checks, if_true, if_false, ne_eq, not_false_eq_true] at visible ⊢
    exact read_check_alike alike reading visible
  · simp only [data, checks, if_false] at visible ⊢
    exact read_done_alike alike reading visible

theorem case_alike (alike : Alike s t) : Alike (caseEdge i s) (caseEdge i t) := by
  have state : t.state = s.state := visible_register State.state (fun _ => rfl) alike.visible
  have visible := case_visible (i := i) alike
  unfold caseEdge at visible ⊢
  rw [state] at visible ⊢
  cases current : s.state with
  | idle => exact idle_alike alike
  | readDat => exact read_dat_alike alike current
  | writeDat =>
      simp only [current] at visible
      have writes := write_dat_state (i := i) current
      apply samples_alike alike (by simp [current]) visible (write_dat_samples i s)
        (write_dat_samples i t)
      · intro waits
        rw [waits] at writes
        simp at writes
      · intro reads
        rw [reads] at writes
        simp at writes
  | writeCrc =>
      simp only [current] at visible
      apply samples_alike alike (by simp [current]) visible ⟨⟨rfl, rfl⟩, rfl, rfl, rfl⟩
        ⟨⟨rfl, rfl⟩, rfl, rfl, rfl⟩ (fun _ => rfl)
      intro reads
      simp only [writeCrcEdge, sample, current] at reads
      split_ifs at reads
  | writeBusy =>
      simp only [current] at visible
      apply samples_alike alike (by simp [current]) visible ⟨⟨rfl, rfl⟩, rfl, rfl, rfl⟩
        ⟨⟨rfl, rfl⟩, rfl, rfl, rfl⟩
      · intro _
        have line : t.datDatReg = s.datDatReg :=
          visible_register State.datDatReg (fun _ => rfl) alike.visible
        simp only [writeBusyEdge, line]
      · intro reads
        simp only [writeBusyEdge, sample, current] at reads
        split_ifs at reads
  | readWait =>
      simp only [current] at visible
      apply samples_alike alike (by simp [current]) visible ⟨⟨rfl, rfl⟩, rfl, rfl, rfl⟩
        ⟨⟨rfl, rfl⟩, rfl, rfl, rfl⟩
      · intro waits
        simp only [readWaitEdge, sample, current] at waits
        split_ifs at waits
      · intro _
        unfold written
        split_ifs <;> rfl
  | finish =>
      simp only [current] at visible
      apply samples_alike alike (by simp [current]) visible ⟨⟨rfl, rfl⟩, rfl, rfl, rfl⟩
        ⟨⟨rfl, rfl⟩, rfl, rfl, rfl⟩
      · intro waits
        simp only [finishEdge, sample, current] at waits
        split_ifs at waits
      · intro reads
        simp only [finishEdge, sample, current] at reads
        split_ifs at reads

/-- An abort leaves two runs alike, wherever it strikes. -/
theorem abort_alike (alike : Alike s t) :
    Alike { s with state := .idle } { t with state := .idle } where
  visible := congrArg (fun u => { u with state := HostState.idle }) alike.visible
  strobed := alike.strobed
  pending := alike.pending
  acknowledged := fun waits => absurd waits (by simp)
  gathered := fun reads => absurd reads (by simp)
  received := fun active => absurd rfl active

theorem negedge_alike (alike : Alike s t) : Alike (negedge s) (negedge t) where
  visible := congrArg negedge alike.visible
  strobed := alike.strobed
  pending := alike.pending
  acknowledged := alike.acknowledged
  gathered := alike.gathered
  received := alike.received

/-- The reset alone makes two runs alike. -/
theorem reset_alike (s t : State) : Alike (reset s) (reset t) where
  visible := rfl
  strobed := fun strobe => absurd strobe Bool.false_ne_true
  pending := fun full => absurd full Bool.false_ne_true
  acknowledged := fun waits => absurd waits (by simp [reset])
  gathered := fun reads => absurd reads (by simp [reset])
  received := fun active => absurd rfl active

theorem step_alike (i : Inputs) (alike : Alike s t) : Alike (step i s) (step i t) := by
  unfold step posedge
  split_ifs
  · exact reset_alike s t
  · exact negedge_alike (abort_alike (case_alike alike))
  · exact negedge_alike (case_alike alike)

theorem step_forgets_strobe (i : Inputs) (s : State) :
    step i { s with weO := false } = step i s := rfl

/-- The first clock in `IDLE` makes two runs alike up to a strobe that was pending. -/
theorem idle_clock_alike (i : Inputs) (sIdle : s.state = .idle) (tIdle : t.state = .idle)
    (quiet : i.start = 0) :
    Alike { step i s with weO := false } { step i t with weO := false } := by
  cases cleared : i.rst with
  | true =>
      have resets : ∀ u, { step i u with weO := false } = reset u := by
        intro u
        rw [step, if_pos cleared]
        rfl
      rw [resets s, resets t]
      exact reset_alike s t
  | false =>
      have running : Running i := ⟨cleared, by rw [quiet]; decide⟩
      have edge : ∀ u : State, u.state = .idle → step i u = negedge (idleEdge i u) := by
        intro u idle
        rw [step_running i u running]
        simp only [caseEdge, idle]
      have rests : ∀ u, (negedge (idleEdge i u)).state = .idle := by
        intro u
        simp only [negedge, idleEdge, quiet]
        rfl
      rw [edge s sIdle, edge t tIdle]
      exact
        { visible := rfl
          strobed := fun strobe => absurd strobe Bool.false_ne_true
          pending := fun full => absurd full Bool.false_ne_true
          acknowledged := fun waits => absurd ((rests s).symm.trans waits) (by decide)
          gathered := fun reads => absurd ((rests s).symm.trans reads) (by decide)
          received := fun active => absurd (rests s) active }

theorem alike_run (inputs : Nat → Inputs) (sIdle : s.state = .idle) (tIdle : t.state = .idle)
    (quiet : (inputs 0).start = 0) (later : Nat) :
    Alike (run step s inputs (2 + later)) (run step t inputs (2 + later)) := by
  induction later with
  | zero =>
      have first := idle_clock_alike (inputs 0) sIdle tIdle quiet
      have second := step_alike (inputs 1) first
      rw [step_forgets_strobe, step_forgets_strobe] at second
      exact second
  | succ later ih => exact step_alike (inputs (2 + later)) ih

/-- What the host shows: its outputs, `data_out_o` with its strobe only. -/
structure SameOutputs (s t : State) : Prop where
  state : t.state = s.state
  rd : t.rd = s.rd
  weO : t.weO = s.weO
  datOeO : t.datOeO = s.datOeO
  datDatO : t.datDatO = s.datDatO
  finishO : t.finishO = s.finishO
  crcS : t.crcS = s.crcS
  crcLaneOk : t.crcLaneOk = s.crcLaneOk
  waitRegO : t.waitRegO = s.waitRegO
  sdTransfCnt : t.sdTransfCnt = s.sdTransfCnt
  dataOutO : s.weO = true → t.dataOutO = s.dataOutO

theorem alike_outputs (alike : Alike s t) : SameOutputs s t := by
  have same := alike.visible
  exact
    { state := visible_register State.state (fun _ => rfl) same
      rd := visible_register State.rd (fun _ => rfl) same
      weO := visible_register State.weO (fun _ => rfl) same
      datOeO := visible_register State.datOeO (fun _ => rfl) same
      datDatO := visible_register State.datDatO (fun _ => rfl) same
      finishO := visible_register State.finishO (fun _ => rfl) same
      crcS := visible_register State.crcS (fun _ => rfl) same
      crcLaneOk := visible_register State.crcLaneOk (fun _ => rfl) same
      waitRegO := visible_register State.waitRegO (fun _ => rfl) same
      sdTransfCnt := visible_register State.sdTransfCnt (fun _ => rfl) same
      dataOutO := alike.strobed }

/-- Two hosts in `IDLE`, whatever happened to them before, that get the same inputs and
no request at first show the same from the second step on. -/
theorem transfers_isolated (s t : State) (inputs : Nat → Inputs) (sIdle : s.state = .idle)
    (tIdle : t.state = .idle) (quiet : (inputs 0).start = 0) (clock : Nat)
    (second : 2 ≤ clock) : SameOutputs (run step s inputs clock) (run step t inputs clock) := by
  have alike := alike_run inputs sIdle tIdle quiet (clock - 2)
  rw [Nat.add_sub_cancel' second] at alike
  exact alike_outputs alike

private def abortedRead (clock : Nat) : Inputs where
  rst := false
  dataIn := 0
  datDatI := if clock < 4 then 0xF else 0
  blksize := 4
  bus4bit := true
  start := if clock = 13 then 3 else 2
  timeoutI := 14

private def nextRead (clock : Nat) : Inputs where
  rst := false
  dataIn := 0
  datDatI := if clock < 6 then 0xF else 0x5
  blksize := 4
  bus4bit := false
  start := if clock = 0 then 0 else 2
  timeoutI := 14

theorem transfers_isolated_after_abort :
    (run step afterReset abortedRead 14).we = true ∧
      SameOutputs (run step afterReset nextRead 60)
        (run step (run step afterReset abortedRead 14) nextRead 60) := by
  refine ⟨by decide +kernel, ?_⟩
  have aborted : (run step afterReset abortedRead 14).state = .idle := by decide +kernel
  exact transfers_isolated afterReset _ nextRead rfl aborted rfl 60 (by decide)

end MinionSubsystem.SdDataIsolation
