import MinionSubsystem.SdCmdTiming

/-!
# Every command ends

`SETUP_CRC` may hold anything in its registers. From there the host works off a
rank: the bits of the frame, the wait that `timeout_i` limits, the bits of an
answer. Every state spends at least one of it, so the card cannot delay the end.
-/

namespace MinionSubsystem.SdCmdCompletion

open MinionSubsystem.ClockedRun
open MinionSubsystem.SdCmdSerialHost
open MinionSubsystem.SdCmdTiming

set_option autoImplicit false

def commandClocks (timeout : BitVec 32) : Nat := timeout.toNat + 186

/-- A host in `SETUP_CRC`; its command stays on its inputs as long as it can take. -/
structure SetupHeld (setting : BitVec 3) (timeout : BitVec 32) (start : State)
    (inputs : Nat → Inputs) : Prop where
  setup : start.state = .setupCrc
  released : ∀ clock, (inputs clock).rst = false
  started : ∀ clock, clock ≤ commandClocks timeout → (inputs clock).startI = true
  settingI : ∀ clock, clock ≤ commandClocks timeout → (inputs clock).settingI = setting
  timeoutI : ∀ clock, clock ≤ commandClocks timeout → (inputs clock).timeoutI = timeout

/-- What the state has left to do. `WRITE` may be entered with any counter. -/
def rank (setting : BitVec 3) (timeout : BitVec 32) (s : State) : Nat :=
  let answer := respLen setting + 8
  match s.state with
  | .setupCrc => timeout.toNat + 51 + answer
  | .write => timeout.toNat + (48 - s.counter.toNat) + 2 + answer
  | .readWait => timeout.toNat - s.waitRegO.toNat + 1 + answer
  | .read => answer + 1 - s.counter.toNat
  | .init | .idle | .finishRdWr => 0

inductive Working (setting : BitVec 3) (timeout : BitVec 32) (s : State) : Prop where
  | setup (state : s.state = .setupCrc)
  | write (state : s.state = .write)
  | readWait (state : s.state = .readWait) (inTime : s.waitRegO.toNat ≤ timeout.toNat)
  | read (state : s.state = .read) (inside : s.counter.toNat ≤ respLen setting + 8)
  | finished (state : s.state = .finishRdWr)

variable {setting : BitVec 3} {timeout : BitVec 32} {i : Inputs} {s : State}

theorem rank_of_setup (state : s.state = .setupCrc) :
    rank setting timeout s ≤ commandClocks timeout := by
  have length := resp_len_bound setting
  simp only [rank, state, commandClocks]
  omega

/-- The counters of a state after a step, for a host out of reset. -/
theorem step_registers (running : i.rst = false) :
    (step i s).state = nextState i s ∧ (step i s).counter = (outEdge i s).counter ∧
      (step i s).waitRegO = (outEdge i s).waitRegO := by
  rw [step_running i s running]
  exact ⟨rfl, rfl, rfl⟩

theorem setup_progress (running : i.rst = false) (state : s.state = .setupCrc) :
    Working setting timeout (step i s) ∧
      rank setting timeout (step i s) < rank setting timeout s := by
  rcases step_registers (s := s) running with ⟨next, counter, _⟩
  simp only [nextState, state] at next
  refine ⟨.write next, ?_⟩
  simp only [rank, next, state]
  omega

theorem write_progress (running : i.rst = false) (state : s.state = .write) :
    Working setting timeout (step i s) ∧
      rank setting timeout (step i s) < rank setting timeout s := by
  rcases step_registers (s := s) running with ⟨next, counter, waited⟩
  have size : bitsToSend = 48 := rfl
  simp only [nextState, state] at next
  simp only [outEdge, state, writeEdge] at counter waited
  by_cases sent : bitsToSend ≤ s.counter.toNat
  · by_cases response : withResponse i.settingI = true
    · rw [if_pos ⟨sent, response⟩] at next
      have zero : (step i s).waitRegO.toNat = 0 := by
        rw [waited]
        rfl
      refine ⟨.readWait next (by omega), ?_⟩
      simp only [rank, next, state, zero]
      omega
    · rw [if_neg fun both => response both.2, if_pos sent] at next
      refine ⟨.finished next, ?_⟩
      simp only [rank, next, state]
      omega
  · rw [if_neg fun both => sent both.1, if_neg sent] at next
    have counted : (step i s).counter.toNat = s.counter.toNat + 1 := by
      rw [counter]
      exact counter_succ _ (by omega)
    refine ⟨.write next, ?_⟩
    simp only [rank, next, state, counted]
    omega

theorem read_wait_progress (running : i.rst = false) (limit : i.timeoutI = timeout)
    (state : s.state = .readWait) (inTime : s.waitRegO.toNat ≤ timeout.toNat) :
    Working setting timeout (step i s) ∧
      rank setting timeout (step i s) < rank setting timeout s := by
  rcases step_registers (s := s) running with ⟨next, counter, waited⟩
  simp only [nextState, state, limit] at next
  simp only [outEdge, state, readWaitEdge] at counter waited
  by_cases heard : 3 ≤ s.waitRegO ∧ s.cmdDatReg = false
  · rw [if_pos heard] at next
    have first : (step i s).counter.toNat = 1 := by
      rw [counter]
      rfl
    refine ⟨.read next (by omega), ?_⟩
    simp only [rank, next, state, first]
    omega
  · rw [if_neg heard] at next
    by_cases late : timeout ≤ s.waitRegO
    · rw [if_pos late] at next
      refine ⟨.finished next, ?_⟩
      simp only [rank, next, state]
      omega
    · -- the counter is below `timeout_i`, so it does not wrap
      rw [if_neg late] at next
      rw [BitVec.le_def] at late
      have bound := timeout.isLt
      have counted : (step i s).waitRegO.toNat = s.waitRegO.toNat + 1 := by
        rw [waited, BitVec.toNat_add]
        exact Nat.mod_eq_of_lt (by change s.waitRegO.toNat + 1 < _; omega)
      refine ⟨.readWait next (by omega), ?_⟩
      simp only [rank, next, state, counted]
      omega

theorem read_progress (running : i.rst = false) (held : i.settingI = setting)
    (state : s.state = .read) (inside : s.counter.toNat ≤ respLen setting + 8) :
    Working setting timeout (step i s) ∧
      rank setting timeout (step i s) < rank setting timeout s := by
  rcases step_registers (s := s) running with ⟨next, counter, _⟩
  have length := resp_len_bound setting
  simp only [nextState, state, held] at next
  simp only [outEdge, state, readEdge] at counter
  by_cases last : respLen setting + 8 ≤ s.counter.toNat
  · rw [if_pos last] at next
    refine ⟨.finished next, ?_⟩
    simp only [rank, next, state]
    omega
  · rw [if_neg last] at next
    have counted : (step i s).counter.toNat = s.counter.toNat + 1 := by
      rw [counter]
      exact counter_succ _ (by omega)
    refine ⟨.read next (by omega), ?_⟩
    simp only [rank, next, state, counted]
    omega

theorem working_progress (running : i.rst = false) (held : i.settingI = setting)
    (limit : i.timeoutI = timeout) (working : Working setting timeout s) :
    s.state = .finishRdWr ∨ (Working setting timeout (step i s) ∧
      rank setting timeout (step i s) < rank setting timeout s) := by
  cases working with
  | setup state => exact .inr (setup_progress running state)
  | write state => exact .inr (write_progress running state)
  | readWait state inTime => exact .inr (read_wait_progress running limit state inTime)
  | read state inside => exact .inr (read_progress running held state inside)
  | finished state => exact .inl state

/-- `FINISH_RD_WR` is left when `start_i` falls, for `IDLE`. -/
theorem finish_step (running : i.rst = false) (state : s.state = .finishRdWr) :
    (step i s).state = if i.startI then .finishRdWr else .idle := by
  rw [(step_registers running).1, nextState, state]

/-- The host is in `FINISH_RD_WR` within `timeout_i + 186` clocks, stays there while
`start_i` is high and is in `IDLE` one clock after it has fallen. -/
theorem command_completes (setting : BitVec 3) (timeout : BitVec 32) (start : State)
    (inputs : Nat → Inputs) (held : SetupHeld setting timeout start inputs) :
    ∃ finish, finish ≤ timeout.toNat + 186 ∧
      (run step start inputs finish).state = .finishRdWr ∧
      ∀ later, (∀ offset, offset < later → (inputs (finish + offset)).startI = true) →
        (run step start inputs (finish + later)).state = .finishRdWr ∧
          ((inputs (finish + later)).startI = false →
            (run step start inputs (finish + later + 1)).state = .idle) := by
  have bound : rank setting timeout start ≤ commandClocks timeout := rank_of_setup held.setup
  obtain ⟨finish, near, finished⟩ := run_reaches_within step start inputs
    (Working setting timeout) (rank setting timeout) (fun s => s.state = .finishRdWr)
    (.setup held.setup) fun clock early working =>
      working_progress (held.released clock) (held.settingI clock (by omega))
        (held.timeoutI clock (by omega)) working
  refine ⟨finish, near.trans bound, finished, ?_⟩
  intro later waiting
  have stays : (run step start inputs (finish + later)).state = .finishRdWr := by
    induction later with
    | zero => exact finished
    | succ later ih =>
        have before := ih fun offset earlier => waiting offset (by omega)
        have next := finish_step (held.released (finish + later)) before
        rw [waiting later (Nat.lt_succ_self later)] at next
        exact next
  refine ⟨stays, ?_⟩
  intro fallen
  have next := finish_step (held.released (finish + later)) stays
  rw [fallen] at next
  exact next

private def setupState : State := { reset with state := .setupCrc }

/-- A long response is expected, the card holds CMD low. -/
private def lowLine (_ : Nat) : Inputs where
  rst := false
  settingI := 3
  cmdI := 0
  startI := true
  timeoutI := 0xFFFFFFFF
  cmdDatI := false

private theorem setup_state_held : SetupHeld 3 0xFFFFFFFF setupState lowLine where
  setup := rfl
  released := fun _ => rfl
  started := fun _ _ => rfl
  settingI := fun _ _ => rfl
  timeoutI := fun _ _ => rfl

theorem command_completes_of_low_line :
    ∃ finish, finish ≤ (0xFFFFFFFF : BitVec 32).toNat + 186 ∧
      (run step setupState lowLine finish).state = .finishRdWr ∧
      ∀ later, (∀ offset, offset < later → (lowLine (finish + offset)).startI = true) →
        (run step setupState lowLine (finish + later)).state = .finishRdWr ∧
          ((lowLine (finish + later)).startI = false →
            (run step setupState lowLine (finish + later + 1)).state = .idle) :=
  command_completes 3 0xFFFFFFFF setupState lowLine setup_state_held

end MinionSubsystem.SdCmdCompletion
