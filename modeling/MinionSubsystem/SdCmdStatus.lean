import MinionSubsystem.SdCmdResponse

/-!
# What a finished command reports

`crc_ok_o` and `index_ok_o` are registers, so what they show with `finish_o` may
be about this command or about an earlier one. `Watched` adds to the host what
the command in progress has really received; `index_ok_o` is compared with the
slice of `response_o` that a short answer fills.
-/

namespace MinionSubsystem.SdCmdStatus

open MinionSubsystem.BitStream
open MinionSubsystem.ClockedRun
open MinionSubsystem.SdCmdFrame
open MinionSubsystem.SdCmdResponse
open MinionSubsystem.SdCmdSerialHost

set_option autoImplicit false

/-- The host with its history since the reset: whether the current command has got
a response and the check bits of it matched, and the same of the last response
to a command before it. -/
structure Watched where
  host : State
  answer : Option Bool
  before : Bool

def checkMatches (s : State) : Bool := s.responseO.extractLsb' 0 7 = s.crcValO

def powerUp : Watched where
  host := reset
  answer := none
  before := false

/-- A command begins when `IDLE` accepts it; it has its response when `READ` is left. -/
def watch (i : Inputs) (w : Watched) : Watched :=
  if i.rst then powerUp
  else
    match w.host.state with
    | .idle =>
        if i.startI then
          { host := step i w.host, answer := none, before := w.answer.getD w.before }
        else { w with host := step i w.host }
    | .read =>
        if nextState i w.host = .finishRdWr then
          { w with host := step i w.host, answer := some (checkMatches w.host) }
        else { w with host := step i w.host }
    | .init | .setupCrc | .write | .readWait | .finishRdWr => { w with host := step i w.host }

/-- `crc_ok_o` tells about the last response since the reset, whoever got it. -/
def Remembers (w : Watched) : Prop := w.host.crcOkO = w.answer.getD w.before

theorem read_ends_iff (i : Inputs) (s : State) (reading : s.state = .read) :
    nextState i s = .finishRdWr ↔ ¬s.counter.toNat ≤ respLen i.settingI + 7 := by
  simp only [nextState, reading]
  split_ifs with last
  · simp
    omega
  · simp
    omega

theorem crc_ok_kept (i : Inputs) (s : State) (running : i.rst = false)
    (elsewhere : s.state ≠ .read) : (step i s).crcOkO = s.crcOkO := by
  rw [step_running i s running]
  cases current : s.state with
  | read => exact absurd current elsewhere
  | write =>
      simp only [outEdge, current, writeEdge, writeDrive]
      split_ifs <;> rfl
  | init | idle | setupCrc | readWait | finishRdWr =>
      simp only [outEdge, current]
      rfl

theorem crc_ok_read (i : Inputs) (s : State) (running : i.rst = false)
    (reading : s.state = .read) :
    (step i s).crcOkO = if nextState i s = .finishRdWr then checkMatches s else s.crcOkO := by
  have ends := read_ends_iff i s reading
  rw [step_running i s running]
  simp only [outEdge, reading, readEdge]
  by_cases last : s.counter.toNat ≤ respLen i.settingI + 7
  · have stays : ¬nextState i s = .finishRdWr := fun left => (ends.mp left) last
    rw [if_pos last, if_neg stays]
  · rw [if_neg last, if_pos (ends.mpr last)]
    rfl

theorem watch_remembers (i : Inputs) (w : Watched) (remembers : Remembers w) :
    Remembers (watch i w) := by
  unfold Remembers at *
  cases running : i.rst with
  | true =>
      simp only [watch, running, if_true]
      rfl
  | false =>
      cases current : w.host.state with
      | idle =>
          have kept := crc_ok_kept i w.host running (by simp [current])
          cases start : i.startI with
          | true => simp only [watch, running, current, start, if_true, Bool.false_eq_true,
              if_false, Option.getD_none, kept, remembers]
          | false => simp only [watch, running, current, start, Bool.false_eq_true, if_false,
              kept, remembers]
      | read =>
          have judged := crc_ok_read i w.host running current
          simp only [watch, running, current, Bool.false_eq_true, if_false]
          split_ifs with last
          · rw [if_pos last] at judged
            exact judged
          · rw [if_neg last] at judged
            exact judged.trans remembers
      | init | setupCrc | write | readWait | finishRdWr =>
          have kept := crc_ok_kept i w.host running (by simp [current])
          simp only [watch, running, current, Bool.false_eq_true, if_false]
          exact kept.trans remembers

theorem remembers_run (inputs : Nat → Inputs) (clock : Nat) :
    Remembers (run watch powerUp inputs clock) := by
  induction clock with
  | zero => rfl
  | succ clock ih => exact watch_remembers (inputs clock) _ ih

/-- What `crc_ok_o` is to say when it is shown with `finish_o`. -/
def CrcOkBelongs (w : Watched) : Prop :=
  w.host.finishO = true → w.host.crcOkO = true → w.answer = some true

/-- A command that finishes without a response finds no good one before it. -/
def NothingStale (w : Watched) : Prop :=
  w.host.finishO = true → w.answer = none → w.before = false

/-- In every sequence of commands, `crc_ok_o` belongs to the finished command if and
only if the command got a response or the last response before it was not a good one. -/
theorem crc_ok_belongs_iff (inputs : Nat → Inputs) (clock : Nat) :
    CrcOkBelongs (run watch powerUp inputs clock) ↔
      NothingStale (run watch powerUp inputs clock) := by
  have remembers := remembers_run inputs clock
  unfold Remembers at remembers
  unfold CrcOkBelongs NothingStale
  rw [remembers]
  cases (run watch powerUp inputs clock).answer with
  | none => simp
  | some good => simp

/-- Command 8 with its answer, then command 0, which expects none. -/
def answeredThenSilent (clock : Nat) : Inputs where
  rst := false
  settingI := if clock < 185 then 1 else 0
  cmdI := if clock < 185 then 8#6 ++ 0x000001AA#32 else 0
  startI := decide (clock < 180 ∨ 185 ≤ clock)
  timeoutI := 15
  cmdDatI :=
    if clock < 130 then true
    else (false :: ((Answer.short 8 0x000001AA).bits false ++ wireBits 0x09#7)).getD
      (clock - 130) true

/-- Command 0 finishes with the `crc_ok_o` of command 8. -/
theorem crc_ok_stale :
    (run watch powerUp answeredThenSilent 240).host.finishO = true ∧
      (run watch powerUp answeredThenSilent 240).host.packetO = 0x400000000095 ∧
      (run watch powerUp answeredThenSilent 240).answer = none ∧
      ¬CrcOkBelongs (run watch powerUp answeredThenSilent 240) := by
  have shown : (run watch powerUp answeredThenSilent 240).host.finishO = true ∧
      (run watch powerUp answeredThenSilent 240).host.crcOkO = true ∧
      (run watch powerUp answeredThenSilent 240).host.packetO = 0x400000000095 ∧
      (run watch powerUp answeredThenSilent 240).answer = none := by decide +kernel
  rcases shown with ⟨finished, good, packet, unanswered⟩
  refine ⟨finished, packet, unanswered, ?_⟩
  intro belongs
  have answered := belongs finished good
  rw [unanswered] at answered
  exact absurd answered (by decide)

/-- A command with index `c` that expects a short answer, its start bit in time. -/
structure ShortCommand (c : BitVec 6) (argument : BitVec 32) (wait : Nat) (start : State)
    (inputs : Nat → Inputs) : Prop where
  request : CommandAccepted (c ++ argument) start inputs
  response : ∀ clock, withResponse (inputs clock).settingI = true
  short : ∀ clock, (inputs clock).settingI.getLsbD 1 = false
  turnaround : 3 ≤ wait
  patient : ∀ clock, wait ≤ (inputs clock).timeoutI.toNat

def shortDone (wait : Nat) : Nat := 50 + (wait + dataBits false + 10)

theorem finish_rises (i : Inputs) (s : State) (running : i.rst = false) :
    (s.state = .finishRdWr → (step i s).finishO = true) ∧
      (s.state ≠ .finishRdWr → s.finishO = false → (step i s).finishO = false) := by
  rw [step_running i s running]
  constructor
  · intro finished
    simp only [outEdge, finished]
    rfl
  · intro elsewhere low
    cases current : s.state with
    | finishRdWr => exact absurd current elsewhere
    | write =>
        simp only [outEdge, current]
        exact (write_drive_keeps i s).2.trans low
    | init | setupCrc | readWait | read =>
        simp only [outEdge, current]
        exact low
    | idle =>
        simp only [outEdge, current]
        rfl

theorem response_kept (i : Inputs) (s : State) (running : i.rst = false)
    (holding : s.state = .write ∨ s.state = .readWait ∨ s.state = .finishRdWr) :
    (step i s).responseO = s.responseO := by
  rw [step_running i s running]
  rcases holding with writing | waiting | finished
  · simp only [outEdge, writing, writeEdge, writeDrive]
    split_ifs <;> rfl
  · simp only [outEdge, waiting]
    rfl
  · simp only [outEdge, finished]
    rfl

/-- The slice of `response_o` that is compared is above the 46 bits of a short answer. -/
theorem short_response_slice (bits : List Bool) (short : bits.length ≤ 120) :
    (shiftInAll (0 : BitVec 134) bits).extractLsb' 120 6 = 0 := by
  apply BitVec.eq_of_getLsbD_eq
  intro index bound
  have above : ¬120 + index < bits.length := by omega
  rw [BitVec.getLsbD_extractLsb', shift_in_all_getLsbD]
  simp [above]

theorem command_start_index (c : BitVec 6) (argument : BitVec 32) :
    (cmdStartBit (c ++ argument)).extractLsb' 32 6 = c := by
  apply BitVec.eq_of_getLsbD_eq
  intro index bound
  have inside : 32 + index < 38 := by omega
  have high : ¬32 + index < 32 := by omega
  rw [BitVec.getLsbD_extractLsb', cmdStartBit, BitVec.getLsbD_append, if_pos inside,
    BitVec.getLsbD_append, if_neg high, Nat.add_sub_cancel_left]
  simp [bound]

section ShortAnswer

variable {c : BitVec 6} {argument : BitVec 32} {wait : Nat} {start : State}
  {inputs : Nat → Inputs} {answer : List Bool}

theorem short_awaits (command : ShortCommand c argument wait start inputs) :
    ResponseRequest false wait (run step start inputs 50) fun clock => inputs (50 + clock) :=
  command_awaits_response command.request (command.response 50)
    (fun clock => command.short (50 + clock)) command.turnaround
    (fun clock => command.patient (50 + clock))

theorem short_waiting (command : ShortCommand c argument wait start inputs)
    (card : CardAnswers (fun clock => (inputs (50 + clock)).cmdDatI) wait answer) (count : Nat)
    (bound : count ≤ wait) :
    Waiting wait count (run step start inputs (51 + count)) := by
  have waiting := waiting_run (short_awaits command) card.idle card.startBit count bound
  rw [← run_add, ← Nat.add_assoc] at waiting
  exact waiting

theorem short_reading (command : ShortCommand c argument wait start inputs)
    (card : CardAnswers (fun clock => (inputs (50 + clock)).cmdDatI) wait answer) :
    ∃ bits base, ∀ count, count ≤ dataBits false + 7 →
      Reading false bits base count (run step start inputs (52 + wait + count)) := by
  obtain ⟨base, readings⟩ := reading_run (short_awaits command) card.idle card.startBit
  refine ⟨fun index => (inputs (50 + (wait + 1 + index))).cmdDatI, base, ?_⟩
  intro count bound
  have reading := readings count bound
  have clock : 50 + (wait + 2 + count) = 52 + wait + count := by omega
  rw [← run_add, clock] at reading
  exact reading

theorem short_done (command : ShortCommand c argument wait start inputs)
    (card : CardAnswers (fun clock => (inputs (50 + clock)).cmdDatI) wait answer) :
    (run step start inputs (shortDone wait)).state = .finishRdWr ∧
      ∃ bits : List Bool, bits.length = 46 ∧
        (run step start inputs (shortDone wait)).responseO =
          shiftInAll (run step start inputs (52 + wait)).responseO bits := by
  obtain ⟨bits, base, readings⟩ := short_reading command card
  have first := (readings 0 (Nat.zero_le _)).responseO
  have last := readings (dataBits false + 7) (Nat.le_refl _)
  have clock : shortDone wait = 52 + wait + (dataBits false + 7) + 1 := by
    unfold shortDone
    omega
  have released := command.request.released (52 + wait + (dataBits false + 7))
  have ends := reading_ends released last (command.short _)
  have cleared : (run step start inputs (52 + wait)).responseO = base := first
  rw [clock, cleared]
  exact ⟨ends.1, _, by simp [dataBits, respSizeShort], ends.2.1⟩

/-- Until then the host is at work. -/
theorem short_working (command : ShortCommand c argument wait start inputs)
    (card : CardAnswers (fun clock => (inputs (50 + clock)).cmdDatI) wait answer) (clock : Nat)
    (after : 1 ≤ clock) (bound : clock < shortDone wait) :
    (run step start inputs clock).state ≠ .finishRdWr ∧
      (run step start inputs clock).state ≠ .idle := by
  by_cases setup : clock = 1
  · rw [setup, (setup_run command.request).state]
    decide
  by_cases writes : clock ≤ 50
  · have writing := writing_run command.request (clock - 2) (by omega)
    rw [Nat.add_sub_cancel' (by omega)] at writing
    rw [writing.state]
    decide
  by_cases waits : clock ≤ 51 + wait
  · have waiting := short_waiting command card (clock - 51) (by omega)
    rw [Nat.add_sub_cancel' (by omega)] at waiting
    rw [waiting.state]
    decide
  · obtain ⟨bits, base, readings⟩ := short_reading command card
    have inside : clock - (52 + wait) ≤ dataBits false + 7 := by
      unfold shortDone at bound
      omega
    have reading := readings (clock - (52 + wait)) inside
    rw [Nat.add_sub_cancel' (by omega)] at reading
    rw [reading.state]
    decide

theorem short_active (command : ShortCommand c argument wait start inputs)
    (card : CardAnswers (fun clock => (inputs (50 + clock)).cmdDatI) wait answer) :
    Active start inputs (shortDone wait) := by
  intro clock after bound
  by_cases last : clock = shortDone wait
  · rw [last, (short_done command card).1]
    decide
  · exact (short_working command card clock after (by omega)).2

theorem short_unfinished (command : ShortCommand c argument wait start inputs)
    (card : CardAnswers (fun clock => (inputs (50 + clock)).cmdDatI) wait answer) (clock : Nat)
    (bound : clock < shortDone wait) :
    (run step start inputs (clock + 1)).finishO = false := by
  have released := command.request.released
  induction clock with
  | zero =>
      rw [run_succ, step_running _ _ (released 0)]
      simp only [outEdge, run_zero, command.request.idle]
      rfl
  | succ clock ih =>
      have working := short_working command card (clock + 1) (Nat.succ_pos clock) bound
      exact (finish_rises _ _ (released (clock + 1))).2 working.1 (ih (by omega))

/-- `response_o` is cleared for the command and filled by its answer only. -/
theorem short_response_empty (command : ShortCommand c argument wait start inputs)
    (card : CardAnswers (fun clock => (inputs (50 + clock)).cmdDatI) wait answer) (count : Nat)
    (bound : count ≤ wait + 50) :
    (run step start inputs (2 + count)).responseO = 0 := by
  have released := command.request.released
  induction count with
  | zero =>
      have setup := setup_run command.request
      rw [run_succ, step_running _ _ (released 1)]
      simp only [outEdge, setup.state]
      rfl
  | succ count ih =>
      have holding : (run step start inputs (2 + count)).state = .write ∨
          (run step start inputs (2 + count)).state = .readWait ∨
          (run step start inputs (2 + count)).state = .finishRdWr := by
        by_cases writes : count ≤ 48
        · exact Or.inl (writing_run command.request count writes).state
        · have waiting := short_waiting command card (count - 49) (by omega)
          have place : 51 + (count - 49) = 2 + count := by omega
          rw [place] at waiting
          exact Or.inr (Or.inl waiting.state)
      rw [← Nat.add_assoc, run_succ, response_kept _ _ (released _) holding]
      exact ih (by omega)

theorem short_response_high (command : ShortCommand c argument wait start inputs)
    (card : CardAnswers (fun clock => (inputs (50 + clock)).cmdDatI) wait answer) :
    (run step start inputs (shortDone wait)).responseO.extractLsb' 120 6 = 0 := by
  obtain ⟨bits, length, response⟩ := (short_done command card).2
  have empty := short_response_empty command card (wait + 50) (Nat.le_refl _)
  have place : 2 + (wait + 50) = 52 + wait := by omega
  rw [place] at empty
  rw [response, empty]
  exact short_response_slice bits (by omega)

/-- Behind the answer the host holds it until `start_i` is withdrawn. -/
theorem short_held (command : ShortCommand c argument wait start inputs)
    (card : CardAnswers (fun clock => (inputs (50 + clock)).cmdDatI) wait answer) (clock : Nat)
    (past : shortDone wait ≤ clock) (active : Active start inputs clock) :
    (run step start inputs clock).state = .finishRdWr ∧
      (run step start inputs clock).responseO.extractLsb' 120 6 = 0 := by
  induction clock, past using Nat.le_induction with
  | base => exact ⟨(short_done command card).1, short_response_high command card⟩
  | succ clock past ih =>
      have earlier := ih fun before after bound => active before after (by omega)
      have released := command.request.released clock
      have kept := response_kept _ _ released (Or.inr (Or.inr earlier.1))
      constructor
      · have stays := active (clock + 1) (Nat.succ_pos clock) (Nat.le_refl _)
        rw [run_succ, step_running _ _ released] at stays ⊢
        simp only [nextState, earlier.1] at stays ⊢
        cases held : (inputs clock).startI with
        | true => rfl
        | false =>
            rw [held] at stays
            exact absurd rfl stays
      · rw [run_succ, kept]
        exact earlier.2

theorem short_index_ok (command : ShortCommand c argument wait start inputs)
    (card : CardAnswers (fun clock => (inputs (50 + clock)).cmdDatI) wait answer) (clock : Nat)
    (past : shortDone wait ≤ clock) (active : Active start inputs clock) :
    (run step start inputs (clock + 1)).finishO = true ∧
      (run step start inputs (clock + 1)).indexOkO = decide (c = 0) := by
  have held := short_held command card clock past active
  have released := command.request.released clock
  refine ⟨(finish_rises _ _ released).1 held.1, ?_⟩
  rw [run_succ, step_running _ _ released]
  simp only [outEdge, held.1, finishRdWrEdge, command.request.cmdI, command_start_index, held.2]

end ShortAnswer

/-- What `index_ok_o` is to say of a command with index `c` answered with index `r`,
in every clock that shows `finish_o`. -/
def IndexOkBelongs (c r : BitVec 6) (start : State) (inputs : Nat → Inputs) : Prop :=
  ∀ clock, Active start inputs clock → (run step start inputs (clock + 1)).finishO = true →
    ((run step start inputs (clock + 1)).indexOkO = true ↔ r = c)

/-- `index_ok_o` of a short answer shows whether the command has index 0: the slice it is
compared with is the one of a long answer. -/
theorem index_ok_belongs_iff (c r : BitVec 6) (argument answered : BitVec 32)
    (direction stop : Bool) (check : BitVec 7) (wait : Nat) (start : State)
    (inputs : Nat → Inputs) (command : ShortCommand c argument wait start inputs)
    (card : CardAnswers (fun clock => (inputs (50 + clock)).cmdDatI) wait
      ((Answer.short r answered).bits direction ++ wireBits check ++ [stop])) :
    IndexOkBelongs c r start inputs ↔ (r = c ↔ c = 0) := by
  have known := short_index_ok command card
  constructor
  · intro belongs
    have active := short_active command card
    have done := known (shortDone wait) (Nat.le_refl _) active
    have shown := belongs (shortDone wait) active done.1
    rw [done.2, decide_eq_true_iff] at shown
    exact shown.symm
  · intro agree clock active finished
    by_cases past : shortDone wait ≤ clock
    · rw [(known clock past active).2, decide_eq_true_iff]
      exact agree.symm
    · have low := short_unfinished command card clock (by omega)
      rw [low] at finished
      exact absurd finished (by decide)

private def echoInputs (clock : Nat) : Inputs where
  rst := false
  settingI := 1
  cmdI := 8#6 ++ 0x000001AA#32
  startI := true
  timeoutI := 15
  cmdDatI :=
    if clock < 53 then true
    else (false :: ((Answer.short 8 0x000001AA).bits false ++ wireBits 0x09#7 ++ [true])).getD
      (clock - 53) true

private theorem echo_command : ShortCommand 8 0x000001AA 3 ready echoInputs where
  request :=
    { idle := rfl
      released := fun _ => rfl
      cmdI := fun _ => rfl
      startI := rfl }
  response := fun _ => by
    change withResponse 1 = true
    decide
  short := fun _ => by
    change (1 : BitVec 3).getLsbD 1 = false
    decide
  turnaround := Nat.le_refl 3
  patient := fun _ => by
    change 3 ≤ (15 : BitVec 32).toNat
    decide

private theorem echo_answer :
    CardAnswers (fun clock => (echoInputs (50 + clock)).cmdDatI) 3
      ((Answer.short 8 0x000001AA).bits false ++ wireBits 0x09#7 ++ [true]) where
  idle := by
    intro clock _ before
    have early : 50 + clock < 53 := by omega
    simp [echoInputs, early]
  startBit := rfl
  answer := by decide

theorem index_ok_belongs_iff_echo :
    IndexOkBelongs 8 8 ready echoInputs ↔ ((8 : BitVec 6) = 8 ↔ (8 : BitVec 6) = 0) :=
  index_ok_belongs_iff 8 8 0x000001AA 0x000001AA false true 0x09 3 ready echoInputs
    echo_command echo_answer

/-- A command 8 whose answer repeats its index finishes with `index_ok_o` low. -/
theorem index_ok_misses_echo :
    ShortCommand 8 0x000001AA 3 ready echoInputs ∧
      CardAnswers (fun clock => (echoInputs (50 + clock)).cmdDatI) 3
        ((Answer.short 8 0x000001AA).bits false ++ wireBits 0x09#7 ++ [true]) ∧
      ¬IndexOkBelongs 8 8 ready echoInputs := by
  refine ⟨echo_command, echo_answer, ?_⟩
  intro belongs
  have active := short_active echo_command echo_answer
  have done := short_index_ok echo_command echo_answer (shortDone 3) (Nat.le_refl _) active
  have shown := (belongs (shortDone 3) active done.1).mpr rfl
  rw [done.2] at shown
  exact absurd shown (by decide)

end MinionSubsystem.SdCmdStatus
