import MinionSubsystem.SdDataWrite

/-!
# Waiting for the write acknowledge

`WRITE_DAT` waits for the card in the state that sends the frame, told apart by
`transf_cnt` only, and `transf_cnt` goes on counting. `Framing` follows it from
the request to the last driven clock, for blocks of every size, `Released` from
there to the clock in which sixteen bits are used up and the frame starts again.
-/

namespace MinionSubsystem.SdWriteWait

open MinionSubsystem.ClockedRun
open MinionSubsystem.SdDataSerialHost
open MinionSubsystem.SdDataWrite

set_option autoImplicit false

structure Framing (total count : Nat) (s : State) : Prop where
  state : s.state = .writeDat
  transfCnt : s.transfCnt.toNat = count
  dataCycles : s.dataCycles.toNat = total + 2
  crcC : s.crcC.toNat = 16 - (count - 1 - total)
  datOeO : 0 < count → s.datOeO = true
  datDatO : total + 17 < count → s.datDatO = 0xF

structure Released (total count : Nat) (s : State) : Prop where
  state : s.state = .writeDat
  transfCnt : s.transfCnt.toNat = count
  dataCycles : s.dataCycles.toNat = total + 2
  datOeO : s.datOeO = false
  rd : s.rd = false

variable {four : Bool} {total count : Nat} {i : Inputs} {s : State}

theorem frame_guards (counted : s.transfCnt.toNat = count)
    (cycles : s.dataCycles.toNat = total + 2) :
    (s.transfCnt = 0 ↔ count = 0) ∧
      (wide s.transfCnt < wide s.dataCycles + 16 ↔ count < total + 18) ∧
      (wide s.transfCnt < wide s.dataCycles - 1 ↔ count < total + 1) ∧
      (wide s.dataCycles + 17 ≤ wide s.transfCnt ↔ total + 19 ≤ count) := by
  refine ⟨?_, ?_, ?_, ?_⟩
  · rw [← BitVec.toNat_inj, counted]
    rfl
  · rw [wide_lt_add _ _ _ (by decide), counted, cycles]
    rfl
  · rw [wide_lt_sub _ _ _ (by rw [cycles]; simp), counted, cycles]
    rfl
  · rw [← BitVec.not_lt, wide_lt_add _ _ _ (by decide), counted, cycles]
    change ¬count < total + 2 + 17 ↔ _
    omega

theorem framing_step (running : Running i) (framing : Framing total count s)
    (room : total < 2 ^ 15) (more : count < total + 19) :
    Framing total (count + 1) (step i s) := by
  rw [step_running i s running]
  have counted := framing.transfCnt
  have cycles := framing.dataCycles
  have check := framing.crcC
  rcases frame_guards counted cycles with ⟨first, sends, data, releases⟩
  have next : (s.transfCnt + 1).toNat = count + 1 := by
    rw [counter_succ _ (by omega), counted]
  have edge : caseEdge i s = writeDatEdge i s := by simp only [caseEdge, framing.state]
  rw [edge]
  by_cases starting : count = 0
  · have branch : writeDatEdge i s = writeStart i s := by
      rw [writeDatEdge, if_pos (first.mpr starting)]
    rw [branch]
    exact
      { state := framing.state
        transfCnt := next
        dataCycles := cycles
        crcC := by
          change s.crcC.toNat = _
          omega
        datOeO := fun _ => rfl
        datDatO := fun behind => by omega }
  have started : ¬s.transfCnt = 0 := fun zero => starting (first.mp zero)
  have driven := framing.datOeO (Nat.pos_of_ne_zero starting)
  by_cases sending : count < total + 1
  · have branch : writeDatEdge i s = writeData i s := by
      rw [writeDatEdge, if_neg started, if_pos (sends.mpr (by omega)), if_pos (data.mpr sending)]
    rw [branch]
    exact
      { state := framing.state
        transfCnt := next
        dataCycles := cycles
        crcC := by
          change s.crcC.toNat = _
          omega
        datOeO := fun _ => driven
        datDatO := fun behind => by omega }
  have sent : ¬wide s.transfCnt < wide s.dataCycles - 1 := fun early => sending (data.mp early)
  by_cases checking : count < total + 17
  · have pending : s.crcC ≠ 0 := by
      intro spent
      rw [spent] at check
      simp at check
      omega
    have branch : writeDatEdge i s = writeCheck i s := by
      rw [writeDatEdge, if_neg started, if_pos (sends.mpr (by omega)), if_neg sent,
        if_pos pending]
    have fewer : (s.crcC - 1).toNat = 16 - (count + 1 - 1 - total) := by
      rw [BitVec.toNat_sub, check]
      simp
      omega
    rw [branch]
    exact
      { state := framing.state
        transfCnt := next
        dataCycles := cycles
        crcC := fewer
        datOeO := fun _ => rfl
        datDatO := fun behind => by omega }
  by_cases stopping : count < total + 18
  · have spent : ¬s.crcC ≠ 0 := by
      rw [not_not, ← BitVec.toNat_inj, check]
      simp
      omega
    have branch : writeDatEdge i s = writeStop i s := by
      rw [writeDatEdge, if_neg started, if_pos (sends.mpr stopping), if_neg sent, if_neg spent]
    rw [branch]
    exact
      { state := framing.state
        transfCnt := next
        dataCycles := cycles
        crcC := by
          change s.crcC.toNat = _
          omega
        datOeO := fun _ => rfl
        datDatO := fun _ => rfl }
  · have past : ¬wide s.transfCnt < wide s.dataCycles + 16 := fun early =>
      stopping (sends.mp early)
    have early : ¬wide s.dataCycles + 17 ≤ wide s.transfCnt := by
      rw [releases]
      omega
    have branch : writeDatEdge i s = writeGap i s := by
      rw [writeDatEdge, if_neg started, if_neg past, if_neg early]
    rw [branch]
    exact
      { state := framing.state
        transfCnt := next
        dataCycles := cycles
        crcC := by
          change s.crcC.toNat = _
          omega
        datOeO := fun _ => driven
        datDatO := fun _ => framing.datDatO (by omega) }

/-- A clock of the wait with `DAT0` high. The counter may wrap. -/
theorem waiting_clock (running : Running i) (writing : s.state = .writeDat)
    (counted : s.transfCnt.toNat = count) (cycles : s.dataCycles.toNat = total + 2)
    (behind : total + 19 ≤ count) (line : s.datDatReg.getLsbD 0 = true) :
    Released total ((count + 1) % 2 ^ 16) (step i s) := by
  rw [step_running i s running]
  rcases frame_guards counted cycles with ⟨first, sends, data, releases⟩
  have started : ¬s.transfCnt = 0 := by
    rw [first]
    omega
  have past : ¬wide s.transfCnt < wide s.dataCycles + 16 := by
    rw [sends]
    omega
  have branch : caseEdge i s = writeRelease i s := by
    simp only [caseEdge, writing, writeDatEdge]
    rw [if_neg started, if_neg past, if_pos (releases.mpr behind)]
  rw [branch]
  exact
    { state := by
        change (if s.datDatReg.getLsbD 0 then s.state else .writeCrc) = _
        rw [line]
        exact writing
      transfCnt := by
        change (s.transfCnt + 1).toNat = _
        rw [BitVec.toNat_add, counted]
        rfl
      dataCycles := cycles
      datOeO := rfl
      rd := rfl }

/-- With the counter back at 0 the host starts a frame. -/
theorem wrapped_clock (running : Running i) (released : Released total 0 s) :
    (step i s).datOeO = true ∧ (step i s).rd = true := by
  rw [step_running i s running]
  have zero : s.transfCnt = 0 := by
    rw [← BitVec.toNat_inj, released.transfCnt]
    rfl
  have branch : caseEdge i s = writeStart i s := by
    simp only [caseEdge, released.state, writeDatEdge]
    rw [if_pos zero]
  rw [branch]
  exact ⟨rfl, rfl⟩

structure WriteUntil (four : Bool) (byteCount last : Nat) (start : State)
    (inputs : Nat → Inputs) : Prop where
  idle : start.state = .idle
  write : (inputs 0).start = 1
  bus : (inputs 0).bus4bit = four
  blksize : (inputs 0).blksize.toNat = byteCount
  running : ∀ clock, clock < last → Running (inputs clock)

/-- While the host drives `DAT0` it reads its own value there, and the card leaves the
line high from the clock that shows the release. -/
structure SilentCard (total last : Nat) (start : State) (inputs : Nat → Inputs) : Prop where
  readBack : ∀ clock, clock < last → (run step start inputs clock).datOeO = true →
    (inputs clock).datDatI.getLsbD 0 = (run step start inputs clock).datDatO.getLsbD 0
  released : ∀ clock, total + 21 ≤ clock → clock < last →
    (inputs clock).datDatI.getLsbD 0 = true

def LineHigh (total last : Nat) (inputs : Nat → Inputs) : Prop :=
  ∀ clock, total + 19 ≤ clock → clock < last → (inputs clock).datDatI.getLsbD 0 = true

section Run

variable {byteCount last : Nat} {start : State} {inputs : Nat → Inputs}

theorem write_room (write : WriteUntil four byteCount last start inputs) :
    dataClocks four byteCount < 2 ^ 15 := by
  have bound := (inputs 0).blksize.isLt
  rw [write.blksize] at bound
  unfold dataClocks
  split_ifs <;> omega

theorem framing_run (write : WriteUntil four byteCount last start inputs) (count : Nat)
    (bound : count ≤ dataClocks four byteCount + 19) (before : 1 + count ≤ last) :
    Framing (dataClocks four byteCount) count (run step start inputs (1 + count)) := by
  induction count with
  | zero =>
      have cycles := idle_data_cycles (inputs 0) start
      have armed := idle_arms (write.running 0 (by omega)) write.idle write.write cycles
      rw [write.bus, write.blksize] at armed
      have position := armed.transfCnt
      have check := armed.crcC
      exact
        { state := armed.state
          transfCnt := congrArg BitVec.toNat position
          dataCycles := armed.dataCycles
          crcC := (congrArg BitVec.toNat check).trans (by simp)
          datOeO := fun positive => absurd positive (Nat.lt_irrefl 0)
          datDatO := fun behind => absurd behind (Nat.not_lt_zero _) }
  | succ count ih =>
      have running := write.running (1 + count) (by omega)
      have framing := ih (by omega) (by omega)
      exact framing_step running framing (write_room write) (by omega)

/-- The host drives the stop bit, so a silent card leaves the line high throughout. -/
theorem silent_line_high (write : WriteUntil four byteCount last start inputs)
    (silent : SilentCard (dataClocks four byteCount) last start inputs) :
    LineHigh (dataClocks four byteCount) last inputs := by
  intro clock after before
  by_cases released : dataClocks four byteCount + 21 ≤ clock
  · exact silent.released clock released before
  · have framing := framing_run write (clock - 1) (by omega) (by omega)
    rw [Nat.add_sub_cancel' (by omega)] at framing
    have driven := framing.datOeO (by omega)
    rw [silent.readBack clock before driven, framing.datDatO (by omega)]
    decide

theorem waiting_run (write : WriteUntil four byteCount last start inputs)
    (line : LineHigh (dataClocks four byteCount) last inputs) (clock : Nat)
    (after : dataClocks four byteCount + 21 ≤ clock) (wrap : clock ≤ 2 ^ 16 + 1)
    (before : clock ≤ last) :
    Released (dataClocks four byteCount) ((clock - 1) % 2 ^ 16) (run step start inputs clock) := by
  have sampled : ∀ earlier, dataClocks four byteCount + 19 ≤ earlier → earlier < last →
      (run step start inputs (earlier + 1)).datDatReg.getLsbD 0 = true := by
    intro earlier late bound
    rw [run_succ, step_samples _ _ (write.running earlier bound)]
    exact line earlier late bound
  have room := write_room write
  induction clock, after using Nat.le_induction with
  | base =>
      have framing := framing_run write (dataClocks four byteCount + 19) (Nat.le_refl _) (by omega)
      have place : 1 + (dataClocks four byteCount + 19) = dataClocks four byteCount + 20 := by
        omega
      rw [place] at framing
      exact waiting_clock (write.running _ (by omega)) framing.state framing.transfCnt
        framing.dataCycles (Nat.le_refl _) (sampled _ (Nat.le_refl _) (by omega))
  | succ clock after ih =>
      have released := ih (by omega) (by omega)
      have counted := released.transfCnt
      have small : (clock - 1) % 2 ^ 16 = clock - 1 := Nat.mod_eq_of_lt (by omega)
      rw [small] at counted
      have high := sampled (clock - 1) (by omega) (by omega)
      have place : clock - 1 + 1 = clock := by omega
      rw [place] at high
      have next := waiting_clock (write.running clock (by omega)) released.state counted
        released.dataCycles (by omega) high
      rw [place] at next
      exact next

theorem restart_run (write : WriteUntil four byteCount last start inputs)
    (line : LineHigh (dataClocks four byteCount) last inputs) (long : 2 ^ 16 + 2 ≤ last) :
    (run step start inputs (2 ^ 16 + 2)).datOeO = true ∧
      (run step start inputs (2 ^ 16 + 2)).rd = true := by
  have room := write_room write
  have released := waiting_run write line (2 ^ 16 + 1) (by omega) (Nat.le_refl _) (by omega)
  exact wrapped_clock (write.running (2 ^ 16 + 1) (by omega)) released

end Run

/-- The host has released the bus and pops no data, from the release up to `last`. -/
def StaysOff (total last : Nat) (start : State) (inputs : Nat → Inputs) : Prop :=
  ∀ clock, total + 21 ≤ clock → clock ≤ last →
    (run step start inputs clock).datOeO = false ∧ (run step start inputs clock).rd = false

/-- Behind a write that no card acknowledges, the host stays off the bus if and only if
the reset or the abort comes within 2^16 + 1 clocks of the request. -/
theorem stays_off_iff (four : Bool) (byteCount last : Nat) (start : State)
    (inputs : Nat → Inputs) (write : WriteUntil four byteCount last start inputs)
    (silent : SilentCard (dataClocks four byteCount) last start inputs) :
    StaysOff (dataClocks four byteCount) last start inputs ↔ last ≤ 2 ^ 16 + 1 := by
  have line := silent_line_high write silent
  have room := write_room write
  constructor
  · intro off
    by_contra long
    have drives := restart_run write line (by omega)
    have quiet := off (2 ^ 16 + 2) (by omega) (by omega)
    rw [drives.1] at quiet
    exact absurd quiet.1 (by decide)
  · intro short clock after before
    have released := waiting_run write line clock after (by omega) before
    exact ⟨released.datOeO, released.rd⟩

private def zerosInputs (clock : Nat) : Inputs where
  rst := false
  dataIn := 0
  datDatI := if 2 ≤ clock ∧ clock ≤ 26 then 0 else 0xF
  blksize := 4
  bus4bit := true
  start := 1
  timeoutI := 14

private theorem zeros_write (last : Nat) : WriteUntil true 4 last afterReset zerosInputs where
  idle := rfl
  write := rfl
  bus := rfl
  blksize := rfl
  running := fun _ _ => ⟨rfl, by
    change (1 : BitVec 2) ≠ 3
    decide⟩

private theorem zeros_line_high (last : Nat) :
    LineHigh (dataClocks true 4) last zerosInputs := by
  intro clock after _
  have behind : ¬(2 ≤ clock ∧ clock ≤ 26) := by
    change 8 + 19 ≤ clock at after
    omega
  simp [zerosInputs, behind]

private theorem zeros_silent (last : Nat) (bound : last ≤ 2 ^ 16 + 2) :
    SilentCard (dataClocks true 4) last afterReset zerosInputs where
  readBack := by
    intro clock before drives
    by_cases framing : clock < 29
    · have readBack : ∀ clock, clock < 29 →
          (run step afterReset zerosInputs clock).datOeO = true →
            (zerosInputs clock).datDatI.getLsbD 0 =
              (run step afterReset zerosInputs clock).datDatO.getLsbD 0 := by
        decide +kernel
      exact readBack clock framing drives
    · have after : dataClocks true 4 + 21 ≤ clock := Nat.le_of_not_lt framing
      have released := waiting_run (zeros_write last) (zeros_line_high last) clock after
        (by omega) (by omega)
      rw [released.datOeO] at drives
      exact absurd drives (by decide)
  released := fun clock after before => zeros_line_high last clock (by omega) before

theorem stays_off_iff_zeros :
    StaysOff (dataClocks true 4) 1000 afterReset zerosInputs ↔ 1000 ≤ 2 ^ 16 + 1 :=
  stays_off_iff true 4 1000 afterReset zerosInputs (zeros_write 1000)
    (zeros_silent 1000 (by decide))

/-- Without a card the host drives the bus and pops the FIFO again. -/
theorem bus_taken_again :
    WriteUntil true 4 (2 ^ 16 + 2) afterReset zerosInputs ∧
      SilentCard (dataClocks true 4) (2 ^ 16 + 2) afterReset zerosInputs ∧
      ¬StaysOff (dataClocks true 4) (2 ^ 16 + 2) afterReset zerosInputs := by
  have write := zeros_write (2 ^ 16 + 2)
  refine ⟨write, zeros_silent _ (Nat.le_refl _), ?_⟩
  intro off
  have drives := restart_run write (zeros_line_high _) (Nat.le_refl _)
  have quiet := off (2 ^ 16 + 2) (by decide) (Nat.le_refl _)
  rw [drives.1] at quiet
  exact absurd quiet.1 (by decide)

end MinionSubsystem.SdWriteWait
