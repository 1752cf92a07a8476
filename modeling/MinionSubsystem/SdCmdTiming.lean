import Mathlib.Data.Nat.Find
import MinionSubsystem.SdCmdSerialHost

/-!
# How long a command takes

The phases of a command that is held until it has finished, whatever the card
does: 48 bits of frame, the wait for a start bit that `timeout_i` limits, and
the bits of an answer, counted but not looked at. `start_data_o` rises behind
the data bits of an answer and nowhere else.
-/

namespace MinionSubsystem.SdCmdTiming

open MinionSubsystem.ClockedRun
open MinionSubsystem.SdCmdSerialHost

set_option autoImplicit false

/-- A host in `IDLE` is started and its command stays on its inputs. -/
structure CommandHeld (setting : BitVec 3) (timeout : BitVec 32) (start : State)
    (inputs : Nat → Inputs) : Prop where
  idle : start.state = .idle
  released : ∀ clock, (inputs clock).rst = false
  started : ∀ clock, (inputs clock).startI = true
  settingI : ∀ clock, (inputs clock).settingI = setting
  timeoutI : ∀ clock, (inputs clock).timeoutI = timeout

structure Sending (count : Nat) (s : State) : Prop where
  state : s.state = .write
  counter : s.counter.toNat = count
  startDataO : s.startDataO = false

structure Listening (count : Nat) (line : Bool) (s : State) : Prop where
  state : s.state = .readWait
  waitRegO : s.waitRegO.toNat = count
  cmdDatReg : s.cmdDatReg = line
  startDataO : s.startDataO = false

structure Hearing (setting : BitVec 3) (count : Nat) (s : State) : Prop where
  state : s.state = .read
  counter : s.counter.toNat = count + 1
  startDataO : s.startDataO = (decide (respLen setting < count) && withData setting)

structure Ended (data : Bool) (s : State) : Prop where
  state : s.state = .finishRdWr
  startDataO : s.startDataO = data

variable {setting : BitVec 3} {timeout : BitVec 32} {count : Nat} {line data : Bool}
  {i : Inputs} {s : State}

theorem resp_len_bound (setting : BitVec 3) : respLen setting ≤ 127 := by
  unfold respLen
  split_ifs <;> decide

theorem write_keeps_start_data (i : Inputs) (s : State) :
    (writeEdge i s).startDataO = s.startDataO := by
  simp only [writeEdge, writeDrive]
  split_ifs <;> rfl

theorem sending_step (running : i.rst = false) (sending : Sending count s) (more : count < 48) :
    Sending (count + 1) (step i s) := by
  rw [step_running i s running]
  have edge : outEdge i s = writeEdge i s := by simp only [outEdge, sending.state]
  have next : nextState i s = .write := by
    simp only [nextState, sending.state, bitsToSend, sending.counter]
    rw [if_neg (by omega), if_neg (by omega)]
  have counted : (s.counter + 1).toNat = count + 1 := by
    rw [counter_succ _ (by rw [sending.counter]; omega), sending.counter]
  rw [edge, next]
  exact
    { state := rfl
      counter := counted
      startDataO := (write_keeps_start_data i s).trans sending.startDataO }

theorem sending_listens (running : i.rst = false) (sending : Sending 48 s)
    (response : withResponse i.settingI = true) : Listening 0 true (step i s) := by
  rw [step_running i s running]
  have edge : outEdge i s = writeEdge i s := by simp only [outEdge, sending.state]
  have next : nextState i s = .readWait := by
    simp only [nextState, sending.state, bitsToSend, sending.counter, response, Nat.le_refl,
      and_self, if_true]
  rw [edge, next]
  exact
    { state := rfl
      waitRegO := rfl
      cmdDatReg := rfl
      startDataO := (write_keeps_start_data i s).trans sending.startDataO }

theorem listening_nothing (listening : Listening count line s)
    (quiet : ¬(3 ≤ count ∧ line = false)) : ¬(3 ≤ s.waitRegO ∧ s.cmdDatReg = false) := by
  rintro ⟨ready, low⟩
  rw [BitVec.le_def, listening.waitRegO] at ready
  exact quiet ⟨ready, listening.cmdDatReg.symm.trans low⟩

theorem listening_step (running : i.rst = false) (listening : Listening count line s)
    (quiet : ¬(3 ≤ count ∧ line = false)) (patient : count < i.timeoutI.toNat) :
    Listening (count + 1) i.cmdDatI (step i s) := by
  rw [step_running i s running]
  have waited := listening.waitRegO
  have bound := i.timeoutI.isLt
  have edge : outEdge i s = readWaitEdge i s := by simp only [outEdge, listening.state]
  have nothing := listening_nothing listening quiet
  have inTime : ¬i.timeoutI ≤ s.waitRegO := by
    rw [BitVec.le_def, waited]
    omega
  have next : nextState i s = .readWait := by
    simp only [nextState, listening.state, nothing, inTime, if_false]
  have counted : (s.waitRegO + 1).toNat = count + 1 := by
    rw [BitVec.toNat_add, waited]
    change (count + 1) % 2 ^ 32 = _
    exact Nat.mod_eq_of_lt (by omega)
  rw [edge, next]
  exact
    { state := rfl
      waitRegO := counted
      cmdDatReg := rfl
      startDataO := listening.startDataO }

theorem listening_hears (running : i.rst = false) (listening : Listening count false s)
    (ready : 3 ≤ count) (setting : BitVec 3) : Hearing setting 0 (step i s) := by
  rw [step_running i s running]
  have edge : outEdge i s = readWaitEdge i s := by simp only [outEdge, listening.state]
  have turned : 3 ≤ s.waitRegO := by
    rw [BitVec.le_def, listening.waitRegO]
    exact ready
  have next : nextState i s = .read := by
    simp only [nextState, listening.state, listening.cmdDatReg, turned, and_self, if_true]
  rw [edge, next]
  exact
    { state := rfl
      counter := rfl
      startDataO := by
        change s.startDataO = _
        rw [listening.startDataO]
        simp }

theorem listening_gives_up (running : i.rst = false) (limit : i.timeoutI = timeout)
    (listening : Listening timeout.toNat line s)
    (quiet : ¬(3 ≤ timeout.toNat ∧ line = false)) : Ended false (step i s) := by
  subst limit
  rw [step_running i s running]
  have waited := listening.waitRegO
  have edge : outEdge i s = readWaitEdge i s := by simp only [outEdge, listening.state]
  have nothing := listening_nothing listening quiet
  have late : i.timeoutI ≤ s.waitRegO := by
    rw [BitVec.le_def, waited]
  have next : nextState i s = .finishRdWr := by
    simp only [nextState, listening.state, nothing, late, if_true, if_false]
  rw [edge, next]
  exact { state := rfl, startDataO := listening.startDataO }

theorem hearing_step (running : i.rst = false) (held : i.settingI = setting)
    (hearing : Hearing setting count s) (more : count < respLen setting + 7) :
    Hearing setting (count + 1) (step i s) := by
  subst held
  rw [step_running i s running]
  have counter := hearing.counter
  have length := resp_len_bound i.settingI
  have edge : outEdge i s = readEdge i s := by simp only [outEdge, hearing.state]
  have next : nextState i s = .read := by
    simp only [nextState, hearing.state, counter]
    exact if_neg (by omega)
  have counted : (s.counter + 1).toNat = count + 1 + 1 := by
    rw [counter_succ _ (by omega), counter]
  rw [edge, next]
  exact
    { state := rfl
      counter := counted
      startDataO := by
        change (if s.counter.toNat ≤ respLen i.settingI then s.startDataO
          else withData i.settingI) = _
        rw [counter, hearing.startDataO]
        by_cases inside : count + 1 ≤ respLen i.settingI
        · have now : ¬respLen i.settingI < count := by omega
          have later : ¬respLen i.settingI < count + 1 := by omega
          simp [inside, now, later]
        · have past : respLen i.settingI < count + 1 := by omega
          rw [if_neg inside]
          simp [past] }

theorem hearing_ends (running : i.rst = false) (held : i.settingI = setting)
    (hearing : Hearing setting (respLen setting + 7) s) :
    Ended (withData setting) (step i s) := by
  subst held
  rw [step_running i s running]
  have counter := hearing.counter
  have edge : outEdge i s = readEdge i s := by simp only [outEdge, hearing.state]
  have next : nextState i s = .finishRdWr := by
    simp only [nextState, hearing.state, counter]
    exact if_pos (by omega)
  rw [edge, next]
  exact
    { state := rfl
      startDataO := by
        change (if s.counter.toNat ≤ respLen i.settingI then s.startDataO
          else withData i.settingI) = _
        rw [counter, if_neg (by omega)] }

theorem ended_step (running : i.rst = false) (held : i.startI = true) (ended : Ended data s) :
    Ended data (step i s) ∧ (step i s).finishO = true := by
  rw [step_running i s running]
  have edge : outEdge i s = finishRdWrEdge i s := by simp only [outEdge, ended.state]
  have next : nextState i s = .finishRdWr := by
    simp only [nextState, ended.state, held, if_true]
  rw [edge, next]
  exact ⟨{ state := rfl, startDataO := ended.startDataO }, rfl⟩

section Run

variable {start : State} {inputs : Nat → Inputs} {wait : Nat}

/-- The first clock of the wait in which the host accepts a start bit. -/
def StartBit (timeout : BitVec 32) (line : Nat → Bool) (wait : Nat) : Prop :=
  3 ≤ wait ∧ wait ≤ timeout.toNat ∧ line (50 + wait) = false

theorem sending_run (command : CommandHeld setting timeout start inputs) (count : Nat)
    (bound : count ≤ 48) : Sending count (run step start inputs (2 + count)) := by
  have released := command.released
  refine run_invariant step start inputs Sending 2 50 ?_ ?_ count (by omega)
  · have accepted : (run step start inputs 1).state = .setupCrc ∧
        (run step start inputs 1).counter = 0 ∧
          (run step start inputs 1).startDataO = false := by
      rw [run_succ, step_running _ _ (released 0)]
      simp only [outEdge, nextState, run_zero, command.idle, command.started, if_true]
      exact ⟨trivial, rfl, rfl⟩
    rcases accepted with ⟨setup, counter, low⟩
    rw [run_succ, step_running _ _ (released 1)]
    simp only [outEdge, nextState, setup]
    exact
      { state := rfl
        counter := by
          change (run step start inputs 1).counter.toNat = 0
          rw [counter]
          rfl
        startDataO := low }
  · intro count before sending
    exact sending_step (released _) sending (by omega)

def heard (inputs : Nat → Inputs) (count : Nat) : Bool :=
  if count = 0 then true else (inputs (50 + count)).cmdDatI

theorem heard_start_bit (patient : count ≤ timeout.toNat) :
    3 ≤ count ∧ heard inputs count = false ↔
      StartBit timeout (fun clock => (inputs clock).cmdDatI) count := by
  unfold heard StartBit
  by_cases first : count = 0
  · simp [first]
  · simp [first, patient]

theorem listening_run (command : CommandHeld setting timeout start inputs)
    (response : withResponse setting = true) (count : Nat) (bound : count ≤ timeout.toNat)
    (silent : ∀ wait, wait < count → ¬StartBit timeout (fun clock => (inputs clock).cmdDatI) wait) :
    Listening count (heard inputs count) (run step start inputs (51 + count)) := by
  induction count with
  | zero =>
      have sending := sending_run command 48 (Nat.le_refl _)
      exact sending_listens (command.released 50) sending
        ((congrArg withResponse (command.settingI 50)).trans response)
  | succ count ih =>
      have listening := ih (by omega) fun wait before => silent wait (by omega)
      have quiet := silent count (Nat.lt_succ_self count)
      rw [← heard_start_bit (by omega)] at quiet
      have patient : count < (inputs (51 + count)).timeoutI.toNat := by
        rw [command.timeoutI]
        omega
      have next := listening_step (command.released (51 + count)) listening quiet patient
      have line : heard inputs (count + 1) = (inputs (51 + count)).cmdDatI := by
        have place : 50 + (count + 1) = 51 + count := by omega
        rw [heard, if_neg (Nat.succ_ne_zero count), place]
      rw [line]
      exact next

/-- A command that hears its first start bit in clock `wait` of the wait. -/
structure Answered (timeout : BitVec 32) (inputs : Nat → Inputs) (wait : Nat) : Prop where
  startBit : StartBit timeout (fun clock => (inputs clock).cmdDatI) wait
  first : ∀ earlier, earlier < wait →
    ¬StartBit timeout (fun clock => (inputs clock).cmdDatI) earlier

theorem hearing_run (command : CommandHeld setting timeout start inputs)
    (response : withResponse setting = true) (answered : Answered timeout inputs wait)
    (count : Nat) (bound : count ≤ respLen setting + 7) :
    Hearing setting count (run step start inputs (52 + wait + count)) := by
  refine run_invariant step start inputs (Hearing setting) (52 + wait)
    (52 + wait + (respLen setting + 7)) ?_ ?_ count (by omega)
  · have inTime := answered.startBit.2.1
    have listening := listening_run command response wait inTime answered.first
    rcases (heard_start_bit inTime).mpr answered.startBit with ⟨ready, low⟩
    rw [low] at listening
    have hearing := listening_hears (command.released (51 + wait)) listening ready setting
    rw [← run_succ step start inputs, Nat.add_right_comm] at hearing
    exact hearing
  · intro count before hearing
    exact hearing_step (command.released _) (command.settingI _) hearing (by omega)

/-- An answered command ends with `start_data_o` high if it has data. -/
theorem answered_ends (command : CommandHeld setting timeout start inputs)
    (response : withResponse setting = true) (answered : Answered timeout inputs wait)
    (later : Nat) :
    Ended (withData setting) (run step start inputs (60 + wait + respLen setting + later)) := by
  induction later with
  | zero =>
      have hearing := hearing_run command response answered (respLen setting + 7) (Nat.le_refl _)
      have ended := hearing_ends (command.released (52 + wait + (respLen setting + 7)))
        (command.settingI _) hearing
      have place : 52 + wait + (respLen setting + 7) + 1 = 60 + wait + respLen setting := by omega
      rw [← run_succ step start inputs, place] at ended
      exact ended
  | succ later ih => exact (ended_step (command.released _) (command.started _) ih).1

/-- A command without an answer ends with `start_data_o` low. -/
theorem unanswered_ends (command : CommandHeld setting timeout start inputs)
    (response : withResponse setting = true)
    (silent : ∀ wait, ¬StartBit timeout (fun clock => (inputs clock).cmdDatI) wait)
    (later : Nat) : Ended false (run step start inputs (52 + timeout.toNat + later)) := by
  induction later with
  | zero =>
      have listening := listening_run command response timeout.toNat (Nat.le_refl _)
        fun wait _ => silent wait
      have quiet := silent timeout.toNat
      rw [← heard_start_bit (Nat.le_refl _)] at quiet
      have ended := listening_gives_up (command.released (51 + timeout.toNat))
        (command.timeoutI _) listening quiet
      rw [← run_succ step start inputs, Nat.add_right_comm] at ended
      exact ended
  | succ later ih => exact (ended_step (command.released _) (command.started _) ih).1

/-- Up to the start bit `start_data_o` is low. -/
theorem start_data_low (command : CommandHeld setting timeout start inputs)
    (response : withResponse setting = true) (count : Nat) (bound : count ≤ timeout.toNat)
    (silent : ∀ wait, wait < count → ¬StartBit timeout (fun clock => (inputs clock).cmdDatI) wait)
    (clock : Nat) (after : 1 ≤ clock) (before : clock ≤ 51 + count) :
    (run step start inputs clock).startDataO = false := by
  by_cases setup : clock = 1
  · rw [setup, run_succ, step_running _ _ (command.released 0)]
    simp only [outEdge, run_zero, command.idle]
    rfl
  by_cases sends : clock ≤ 50
  · have sending := sending_run command (clock - 2) (by omega)
    rw [Nat.add_sub_cancel' (by omega)] at sending
    exact sending.startDataO
  · have listening := listening_run command response (clock - 51) (by omega)
      fun wait early => silent wait (by omega)
    rw [Nat.add_sub_cancel' (by omega)] at listening
    exact listening.startDataO

theorem start_data_answered (command : CommandHeld setting timeout start inputs)
    (response : withResponse setting = true) (answered : Answered timeout inputs wait)
    (clock : Nat) (after : 1 ≤ clock) :
    (run step start inputs clock).startDataO =
      (decide (52 + wait + respLen setting < clock) && withData setting) := by
  by_cases waits : clock ≤ 51 + wait
  · have low := start_data_low command response wait answered.startBit.2.1 answered.first clock
      after waits
    have early : ¬52 + wait + respLen setting < clock := by omega
    rw [low]
    simp [early]
  by_cases hears : clock ≤ 52 + wait + (respLen setting + 7)
  · have hearing := hearing_run command response answered (clock - (52 + wait)) (by omega)
    rw [Nat.add_sub_cancel' (by omega)] at hearing
    have same : respLen setting < clock - (52 + wait) ↔ 52 + wait + respLen setting < clock := by
      omega
    rw [hearing.startDataO, decide_eq_decide.mpr same]
  · have ended := answered_ends command response answered
      (clock - (60 + wait + respLen setting))
    rw [Nat.add_sub_cancel' (by omega)] at ended
    have late : 52 + wait + respLen setting < clock := by omega
    rw [ended.startDataO]
    simp [late]

theorem start_data_unanswered (command : CommandHeld setting timeout start inputs)
    (response : withResponse setting = true)
    (silent : ∀ wait, ¬StartBit timeout (fun clock => (inputs clock).cmdDatI) wait)
    (clock : Nat) (after : 1 ≤ clock) : (run step start inputs clock).startDataO = false := by
  by_cases waits : clock ≤ 51 + timeout.toNat
  · exact start_data_low command response timeout.toNat (Nat.le_refl _) (fun wait _ => silent wait)
      clock after waits
  · have ended := unanswered_ends command response silent (clock - (52 + timeout.toNat))
    rw [Nat.add_sub_cancel' (by omega)] at ended
    exact ended.startDataO

theorem answered_finishes (command : CommandHeld setting timeout start inputs)
    (response : withResponse setting = true) (answered : Answered timeout inputs wait)
    (clock : Nat) (after : 61 + wait + respLen setting ≤ clock) :
    (run step start inputs clock).finishO = true := by
  have ended := answered_ends command response answered
    (clock - (61 + wait + respLen setting))
  have place : 60 + wait + respLen setting + (clock - (61 + wait + respLen setting)) =
      clock - 1 := by omega
  rw [place] at ended
  have next := (ended_step (command.released (clock - 1)) (command.started _) ended).2
  have last : clock - 1 + 1 = clock := by omega
  rw [← run_succ step start inputs, last] at next
  exact next

end Run

end MinionSubsystem.SdCmdTiming
