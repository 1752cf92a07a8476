import Mathlib.Data.List.Basic
import Mathlib.Tactic.Common

/-!
# Runs of a clocked machine

A synchronous circuit is a function from its inputs and its registers to the
registers after the next clock edge. `run` iterates it over an input stream;
the other definitions are what an observer of one output collects over a window
of clocks. Nothing here depends on the circuit.
-/

namespace MinionSubsystem.ClockedRun

set_option autoImplicit false

variable {State Input Output : Type*}

/-- The registers after `clock` edges; edge `n` samples `inputs n`. -/
def run (step : Input → State → State) (start : State) (inputs : Nat → Input) :
    Nat → State
  | 0 => start
  | clock + 1 => step (inputs clock) (run step start inputs clock)

@[simp] theorem run_zero (step : Input → State → State) (start : State)
    (inputs : Nat → Input) : run step start inputs 0 = start := rfl

theorem run_succ (step : Input → State → State) (start : State)
    (inputs : Nat → Input) (clock : Nat) :
    run step start inputs (clock + 1) =
      step (inputs clock) (run step start inputs clock) := rfl

/-- A run goes on from any of its states. -/
theorem run_add (step : Input → State → State) (start : State) (inputs : Nat → Input)
    (first clock : Nat) :
    run step start inputs (first + clock) =
      run step (run step start inputs first) (fun later => inputs (first + later)) clock := by
  induction clock with
  | zero => rfl
  | succ clock ih => rw [← Nat.add_assoc, run_succ, run_succ, ih]

/-- A run invariant indexed by the clock: what holds at `first` and is kept by
every edge before `last` holds throughout the window. -/
theorem run_invariant (step : Input → State → State) (start : State)
    (inputs : Nat → Input) (holds : Nat → State → Prop) (first last : Nat)
    (initial : holds 0 (run step start inputs first))
    (preserved : ∀ offset, first + offset < last →
      holds offset (run step start inputs (first + offset)) →
      holds (offset + 1) (step (inputs (first + offset))
        (run step start inputs (first + offset))))
    (offset : Nat) (bound : first + offset ≤ last) :
    holds offset (run step start inputs (first + offset)) := by
  induction offset with
  | zero => exact initial
  | succ offset ih =>
      exact preserved offset (by omega) (ih (by omega))

/-- A rank that falls with every edge is a bound on the clocks until the run is done.
The inputs need to behave only that long. -/
theorem run_reaches_within (step : Input → State → State) (start : State) (inputs : Nat → Input)
    (working : State → Prop) (rank : State → Nat) (done : State → Prop) (initial : working start)
    (progress : ∀ clock, clock ≤ rank start → working (run step start inputs clock) →
      done (run step start inputs clock) ∨
        (working (run step start inputs (clock + 1)) ∧
          rank (run step start inputs (clock + 1)) < rank (run step start inputs clock))) :
    ∃ clock, clock ≤ rank start ∧ done (run step start inputs clock) := by
  have within : ∀ bound clock, clock + bound ≤ rank start →
      working (run step start inputs clock) → rank (run step start inputs clock) ≤ bound →
        ∃ later, later ≤ clock + bound ∧ done (run step start inputs later) := by
    intro bound
    induction bound with
    | zero =>
        intro clock early works low
        rcases progress clock early works with finished | ⟨_, falls⟩
        · exact ⟨clock, Nat.le_refl _, finished⟩
        · omega
    | succ bound ih =>
        intro clock early works low
        rcases progress clock (by omega) works with finished | ⟨next, falls⟩
        · exact ⟨clock, Nat.le_add_right _ _, finished⟩
        · obtain ⟨later, near, finished⟩ := ih (clock + 1) (by omega) next (by omega)
          exact ⟨later, by omega, finished⟩
  obtain ⟨clock, near, finished⟩ := within (rank start) 0 (by omega) initial (Nat.le_refl _)
  exact ⟨clock, by omega, finished⟩

theorem run_reaches (step : Input → State → State) (start : State) (inputs : Nat → Input)
    (working : State → Prop) (rank : State → Nat) (done : State → Prop) (initial : working start)
    (progress : ∀ clock, working (run step start inputs clock) →
      done (run step start inputs clock) ∨
        (working (run step start inputs (clock + 1)) ∧
          rank (run step start inputs (clock + 1)) < rank (run step start inputs clock))) :
    ∃ clock, clock ≤ rank start ∧ done (run step start inputs clock) :=
  run_reaches_within step start inputs working rank done initial fun clock _ => progress clock

/-- The state after a list of events, for systems whose parts move in any order. -/
def runEvents (step : Input → State → State) (start : State) (events : List Input) : State :=
  events.foldl (fun state event => step event state) start

theorem run_events_invariant (step : Input → State → State) (holds : State → Prop)
    (preserved : ∀ event state, holds state → holds (step event state))
    (events : List Input) (start : State) (initial : holds start) :
    holds (runEvents step start events) := by
  induction events generalizing start with
  | nil => exact initial
  | cons event events ih => exact ih (step event start) (preserved event start initial)

def AllAllowed (step : Input → State → State) (allowed : Input → State → Prop) :
    State → List Input → Prop
  | _, [] => True
  | state, event :: events =>
      allowed event state ∧ AllAllowed step allowed (step event state) events

def decideAllAllowed (step : Input → State → State) (allowed : Input → State → Prop)
    (decides : ∀ event state, Decidable (allowed event state)) :
    (state : State) → (events : List Input) → Decidable (AllAllowed step allowed state events)
  | _, [] => .isTrue trivial
  | state, event :: events =>
      have := decides event state
      have := decideAllAllowed step allowed decides (step event state) events
      inferInstanceAs (Decidable (_ ∧ _))

instance (step : Input → State → State) (allowed : Input → State → Prop)
    [decides : ∀ event state, Decidable (allowed event state)] (state : State)
    (events : List Input) : Decidable (AllAllowed step allowed state events) :=
  decideAllAllowed step allowed decides state events

theorem run_events_guarded (step : Input → State → State) (allowed : Input → State → Prop)
    (holds : State → Prop)
    (preserved : ∀ event state, allowed event state → holds state → holds (step event state))
    (events : List Input) (start : State) (initial : holds start)
    (guarded : AllAllowed step allowed start events) : holds (runEvents step start events) := by
  induction events generalizing start with
  | nil => exact initial
  | cons event events ih =>
      exact ih (step event start) (preserved event start guarded.1 initial) guarded.2

def observed (output : State → Output) (trace : Nat → State) (first count : Nat) :
    List Output :=
  (List.range' first count).map fun clock => output (trace clock)

/-- The values transferred over a window by an output with a strobe. -/
def transferred (output : State → Option Output) (trace : Nat → State)
    (first count : Nat) : List Output :=
  (List.range' first count).filterMap fun clock => output (trace clock)

def clocksHigh (output : State → Bool) (trace : Nat → State) (first count : Nat) : Nat :=
  (List.range' first count).countP fun clock => output (trace clock)

theorem observed_eq_map (output : State → Output) (trace : Nat → State)
    (first count : Nat) (value : Nat → Output)
    (each : ∀ offset, offset < count → output (trace (first + offset)) = value offset) :
    observed output trace first count = (List.range count).map value := by
  rw [observed, List.range'_eq_map_range, List.map_map]
  apply List.map_congr_left
  intro offset member
  exact each offset (List.mem_range.mp member)

@[simp] theorem transferred_zero (output : State → Option Output)
    (trace : Nat → State) (first : Nat) : transferred output trace first 0 = [] := rfl

theorem transferred_succ (output : State → Option Output) (trace : Nat → State)
    (first count : Nat) :
    transferred output trace first (count + 1) =
      transferred output trace first count ++ (output (trace (first + count))).toList := by
  rw [transferred, List.range'_1_concat, List.filterMap_append]
  cases value : output (trace (first + count)) <;> simp [transferred, value]

/-- A window is its two parts. -/
theorem transferred_add (output : State → Option Output) (trace : Nat → State)
    (first count extra : Nat) :
    transferred output trace first (count + extra) =
      transferred output trace first count ++ transferred output trace (first + count) extra := by
  induction extra with
  | zero => rw [Nat.add_zero, transferred_zero, List.append_nil]
  | succ extra ih =>
      rw [← Nat.add_assoc, transferred_succ, transferred_succ, ih, List.append_assoc, Nat.add_assoc]

theorem transferred_first (output : State → Option Output) (trace : Nat → State)
    (first count : Nat) :
    transferred output trace first (count + 1) =
      (output (trace first)).toList ++ transferred output trace (first + 1) count := by
  rw [transferred, List.range'_succ, List.filterMap_cons]
  cases output (trace first) <;> rfl

theorem transferred_silent (output : State → Option Output) (trace : Nat → State)
    (first count extra : Nat)
    (silent : ∀ offset, offset < extra → output (trace (first + count + offset)) = none) :
    transferred output trace first (count + extra) =
      transferred output trace first count := by
  induction extra with
  | zero => rfl
  | succ extra ih =>
      rw [← Nat.add_assoc, transferred_succ, ih fun offset bound => silent offset (by omega),
        ← Nat.add_assoc, silent extra (Nat.lt_succ_self extra)]
      simp

/-- An output registered from another one transfers the same values a clock later. -/
theorem transferred_delayed (output pending : State → Option Output)
    (trace : Nat → State) (first count : Nat)
    (delayed : ∀ offset, offset < count →
      output (trace (first + offset + 1)) = pending (trace (first + offset))) :
    transferred output trace (first + 1) count = transferred pending trace first count := by
  induction count with
  | zero => rfl
  | succ count ih =>
      have last := delayed count (Nat.lt_succ_self count)
      rw [transferred_succ, transferred_succ, ih fun offset bound => delayed offset (by omega),
        Nat.add_right_comm, last]

/-- An output that repeats another one some clocks later, and nothing else, transfers the same
values. -/
theorem transferred_late (output pending : State → Option Output) (trace : Nat → State)
    (first delay count : Nat)
    (silent : ∀ offset, offset < delay → output (trace (first + offset)) = none)
    (late : ∀ offset, offset < count →
      output (trace (first + (delay + offset))) = pending (trace (first + offset))) :
    transferred output trace first (delay + count) = transferred pending trace first count := by
  induction count with
  | zero =>
      have nothing := transferred_silent output trace first 0 delay fun offset bound =>
        silent offset bound
      rwa [Nat.zero_add] at nothing
  | succ count ih =>
      have last := late count (Nat.lt_succ_self count)
      rw [← Nat.add_assoc, transferred_succ, transferred_succ,
        ih fun offset bound => late offset (by omega), last]

@[simp] theorem clocks_high_zero (output : State → Bool) (trace : Nat → State)
    (first : Nat) : clocksHigh output trace first 0 = 0 := rfl

theorem clocks_high_succ (output : State → Bool) (trace : Nat → State)
    (first count : Nat) :
    clocksHigh output trace first (count + 1) =
      clocksHigh output trace first count + (output (trace (first + count))).toNat := by
  rw [clocksHigh, List.range'_1_concat, List.countP_append]
  cases value : output (trace (first + count)) <;> simp [clocksHigh, value]

theorem clocks_high_low (output : State → Bool) (trace : Nat → State)
    (first count extra : Nat)
    (low : ∀ offset, offset < extra → output (trace (first + count + offset)) = false) :
    clocksHigh output trace first (count + extra) =
      clocksHigh output trace first count := by
  induction extra with
  | zero => rfl
  | succ extra ih =>
      rw [← Nat.add_assoc, clocks_high_succ, ih fun offset bound => low offset (by omega),
        ← Nat.add_assoc, low extra (Nat.lt_succ_self extra)]
      rfl

end MinionSubsystem.ClockedRun
