import Mathlib.Data.List.GetD
import MinionSubsystem.ByteMemory

/-!
# The command lines of the monitor

`mygets` of `simple.c` and the loop of `main` around it, one received character at
a time. Place `i` of the memory is `ucmd[i]`; from place 100 on it is what lies
behind the buffer. What a line has stored is described by its characters alone.
-/

namespace MinionSubsystem.MonitorLine

open MinionSubsystem.ByteMemory

set_option autoImplicit false

def ucmdSize : Nat := 100

def carriageReturn : BitVec 8 := 0x0D

def lineFeed : BitVec 8 := 0x0A

def controlD : BitVec 8 := 0x04

/-- A call of `mygets(ucmd)`; `stored` are the places it has written. -/
structure Gets where
  chp : Nat
  memory : Memory
  stored : List Nat
  returned : Bool

def Gets.put (g : Gets) (ch : BitVec 8) : Gets :=
  { g with
    memory := fun place => if place = g.chp then ch else g.memory place
    stored := g.stored ++ [g.chp] }

def getsStep (g : Gets) (ch : BitVec 8) : Gets :=
  if ch = carriageReturn then { g.put 0 with returned := true }
  else
    let g := if ch ≠ lineFeed then { g.put ch with chp := g.chp + 1 } else g
    if ch = controlD then { g with returned := true } else g

def getsRun (before : Memory) (input : Nat → BitVec 8) : Nat → Gets
  | 0 => { chp := 0, memory := before, stored := [], returned := false }
  | n + 1 =>
      let g := getsRun before input n
      if g.returned then g else getsStep g (input n)

def Returns (before : Memory) (input : Nat → BitVec 8) (n : Nat) : Prop :=
  (getsRun before input n).returned = true ∧
    ∀ m, m < n → (getsRun before input m).returned = false

/-- The loop of `main`: where in the stream a call of `mygets` begins and what memory it
finds. `command` is what the command of the line at a place does to the memory, the first
character of `ucmd` included, which is looked at behind it. -/
inductive Called (command : Nat → Memory → Memory) (memory : Memory) (stream : Nat → BitVec 8) :
    Nat → Memory → Prop
  | first : Called command memory stream 0 memory
  | again {position n : Nat} {before : Memory} :
      Called command memory stream position before →
      Returns before (fun i => stream (position + i)) n →
      command position (getsRun before (fun i => stream (position + i)) n).memory 0 ≠ controlD →
      Called command memory stream (position + n)
        (command position (getsRun before (fun i => stream (position + i)) n).memory)

/-- The string in `ucmd`, if there is a terminator in it. -/
def ucmdString (memory : Memory) : Option (List (BitVec 8)) :=
  ((List.range ucmdSize).find? fun place => memory place = 0).map fun length =>
    (List.range length).map memory

/-- The characters of a line among the first `n`: line feeds and the carriage return go. -/
def lineText (input : Nat → BitVec 8) (n : Nat) : List (BitVec 8) :=
  ((List.range n).map input).filter fun ch => ch ≠ lineFeed ∧ ch ≠ carriageReturn

/-- A call stores in the buffer only and leaves the text of the line there. -/
structure KeepsLine (before : Memory) (input : Nat → BitVec 8) : Prop where
  inside : ∀ n, ∀ place ∈ (getsRun before input n).stored, place < ucmdSize
  line : ∀ n, Returns before input n →
    ucmdString (getsRun before input n).memory = some (lineText input n)

def Unfinished (input : Nat → BitVec 8) (n : Nat) : Prop :=
  ∀ i, i < n → input i ≠ carriageReturn ∧ input i ≠ controlD

/-- The lines `mygets` can keep. Behind a control-D it relies on the byte it finds there. -/
structure Fits (before : Memory) (input : Nat → BitVec 8) : Prop where
  unfinished : ∀ n, Unfinished input n → (lineText input n).length ≤ 100
  carriageReturn : ∀ n, Unfinished input n → input n = carriageReturn →
    (lineText input n).length ≤ 99 ∧ 0 ∉ lineText input n
  controlD : ∀ n, Unfinished input n → input n = controlD →
    (lineText input n).length ≤ 98 ∧ 0 ∉ lineText input n ∧
      before ((lineText input n).length + 1) = 0

variable (before : Memory) (input : Nat → BitVec 8)

theorem line_text_succ (n : Nat) :
    lineText input (n + 1) =
      lineText input n ++ [input n].filter fun ch => ch ≠ lineFeed ∧ ch ≠ carriageReturn := by
  rw [lineText, lineText, List.range_succ, List.map_append, List.filter_append]
  rfl

theorem line_text_kept (n : Nat) (feed : input n ≠ lineFeed) (carriage : input n ≠ carriageReturn) :
    lineText input (n + 1) = lineText input n ++ [input n] := by
  rw [line_text_succ, List.filter_cons_of_pos (by simp [feed, carriage])]
  rfl

theorem line_text_dropped (n : Nat) (drop : input n = lineFeed ∨ input n = carriageReturn) :
    lineText input (n + 1) = lineText input n := by
  rw [line_text_succ, List.filter_cons_of_neg (by rcases drop with same | same <;> simp [same]),
    List.filter_nil, List.append_nil]

theorem line_text_control_d (n : Nat) (control : input n = controlD) :
    lineText input (n + 1) = lineText input n ++ [controlD] := by
  have feed : input n ≠ lineFeed := by rw [control]; decide
  have carriage : input n ≠ carriageReturn := by rw [control]; decide
  rw [line_text_kept input n feed carriage, control]

def overlay (text : List (BitVec 8)) : Memory := fun place => text.getD place (before place)

theorem overlay_append (text : List (BitVec 8)) (ch : BitVec 8) :
    overlay before (text ++ [ch]) =
      fun place => if place = text.length then ch else overlay before text place := by
  funext place
  rw [overlay, overlay]
  rcases Nat.lt_trichotomy place text.length with front | same | behind
  · rw [if_neg (by omega), List.getD_append _ _ _ _ front]
  · rw [if_pos same, same, List.getD_append_right _ _ _ _ (Nat.le_refl _), Nat.sub_self]
    rfl
  · rw [if_neg (by omega), List.getD_eq_default _ _ (by rw [List.length_append]; simp; omega),
      List.getD_eq_default _ _ (by omega)]

def filled (text : List (BitVec 8)) : Gets where
  chp := text.length
  memory := overlay before text
  stored := List.range text.length
  returned := false

theorem filled_put (text : List (BitVec 8)) (ch : BitVec 8) :
    (filled before text).put ch =
      { filled before text with
        memory := overlay before (text ++ [ch])
        stored := List.range (text.length + 1) } := by
  rw [Gets.put, overlay_append, List.range_succ]
  rfl

theorem gets_unfinished (n : Nat) (unfinished : Unfinished input n) :
    getsRun before input n = filled before (lineText input n) := by
  induction n with
  | zero => rfl
  | succ n ih =>
      rcases unfinished n (Nat.lt_succ_self n) with ⟨carriage, control⟩
      have previous := ih fun i inside => unfinished i (by omega)
      have running : (filled before (lineText input n)).returned = false := rfl
      rw [getsRun, previous, running, getsStep, if_neg carriage]
      by_cases feed : input n = lineFeed
      · rw [line_text_dropped input n (.inl feed)]
        simp only [feed, ne_eq, not_true_eq_false, if_false]
        rfl
      · rw [line_text_kept input n feed carriage]
        simp only [feed, control, ne_eq, not_false_eq_true, if_true, if_false, filled_put,
          Bool.false_eq_true]
        simp [filled]

theorem gets_carriage_return (n : Nat) (unfinished : Unfinished input n)
    (carriage : input n = carriageReturn) :
    getsRun before input (n + 1) =
      { filled before (lineText input n) with
        memory := overlay before (lineText input n ++ [0])
        stored := List.range ((lineText input n).length + 1)
        returned := true } := by
  rw [getsRun, gets_unfinished before input n unfinished]
  change getsStep _ (input n) = _
  rw [getsStep, if_pos carriage, filled_put]

theorem gets_control_d (n : Nat) (unfinished : Unfinished input n)
    (control : input n = controlD) :
    getsRun before input (n + 1) =
      { filled before (lineText input (n + 1)) with returned := true } := by
  have feed : input n ≠ lineFeed := by rw [control]; decide
  have carriage : input n ≠ carriageReturn := by rw [control]; decide
  rw [getsRun, gets_unfinished before input n unfinished, line_text_kept input n feed carriage]
  change getsStep _ (input n) = _
  rw [getsStep, if_neg carriage]
  simp only [feed, ne_eq, not_false_eq_true, if_true, if_pos control, filled_put]
  simp [filled]

theorem ucmd_string_iff (memory : Memory) (text : List (BitVec 8))
    (stored : (List.range text.length).map memory = text) :
    ucmdString memory = some text ↔
      text.length < 100 ∧ 0 ∉ text ∧ memory text.length = 0 := by
  have characters : 0 ∉ text ↔ ∀ j, j < text.length → memory j ≠ 0 := by
    constructor
    · intro absent j inside zero
      apply absent
      rw [← stored, ← zero]
      exact List.mem_map_of_mem (List.mem_range.mpr inside)
    · intro nonzero member
      rw [← stored, List.mem_map] at member
      obtain ⟨j, inside, zero⟩ := member
      exact nonzero j (List.mem_range.mp inside) zero
  rw [characters, ucmdString, Option.map_eq_some_iff]
  constructor
  · rintro ⟨length, found, same⟩
    have size := congrArg List.length same
    rw [List.length_map, List.length_range] at size
    rw [List.find?_range_eq_some] at found
    rcases found with ⟨zero, inside, nonzero⟩
    rw [← size]
    refine ⟨List.mem_range.mp inside, ?_, of_decide_eq_true zero⟩
    intro j front
    simpa using nonzero j front
  · rintro ⟨short, nonzero, zero⟩
    refine ⟨text.length, ?_, stored⟩
    rw [List.find?_range_eq_some]
    refine ⟨decide_eq_true zero, List.mem_range.mpr short, ?_⟩
    intro j front
    simpa using nonzero j front

theorem overlay_stored (text back : List (BitVec 8)) :
    (List.range text.length).map (overlay before (text ++ back)) = text := by
  apply List.ext_getElem
  · rw [List.length_map, List.length_range]
  · intro i _ inside
    rw [List.getElem_map, List.getElem_range, overlay, List.getD_append _ _ _ _ inside,
      List.getD_eq_getElem _ _ inside]

theorem terminated_string (text : List (BitVec 8)) :
    ucmdString (overlay before (text ++ [0])) = some text ↔ text.length ≤ 99 ∧ 0 ∉ text := by
  have terminator : overlay before (text ++ [0]) text.length = 0 := by
    rw [overlay_append]
    exact if_pos rfl
  rw [ucmd_string_iff _ _ (overlay_stored before text [0])]
  constructor
  · rintro ⟨short, characters, _⟩
    exact ⟨by omega, characters⟩
  · rintro ⟨short, characters⟩
    exact ⟨by omega, characters, terminator⟩

theorem open_string (text : List (BitVec 8)) :
    ucmdString (overlay before text) = some text ↔
      text.length ≤ 99 ∧ 0 ∉ text ∧ before text.length = 0 := by
  have stored := overlay_stored before text []
  rw [List.append_nil] at stored
  have behind : overlay before text text.length = before text.length :=
    List.getD_eq_default _ _ (Nat.le_refl _)
  rw [ucmd_string_iff _ _ stored, behind]
  constructor
  · rintro ⟨short, kept⟩
    exact ⟨by omega, kept⟩
  · rintro ⟨short, kept⟩
    exact ⟨by omega, kept⟩

def Ends (n : Nat) : Prop :=
  Unfinished input n ∧ (input n = carriageReturn ∨ input n = controlD)

theorem unfinished_or_ends (n : Nat) : Unfinished input n ∨ ∃ m, m < n ∧ Ends input m := by
  induction n with
  | zero => exact .inl fun i none => absurd none (Nat.not_lt_zero i)
  | succ n ih =>
      rcases ih with unfinished | ⟨m, before, ends⟩
      · by_cases last : input n = carriageReturn ∨ input n = controlD
        · exact .inr ⟨n, Nat.lt_succ_self n, unfinished, last⟩
        · left
          intro i inside
          by_cases same : i = n
          · rw [same]
            exact not_or.mp last
          · exact unfinished i (by omega)
      · exact .inr ⟨m, by omega, ends⟩

theorem ends_returned (n : Nat) (ends : Ends input n) :
    (getsRun before input (n + 1)).returned = true := by
  rcases ends with ⟨unfinished, carriage | control⟩
  · rw [gets_carriage_return before input n unfinished carriage]
  · rw [gets_control_d before input n unfinished control]

theorem returned_stays (n later : Nat) (returned : (getsRun before input n).returned = true) :
    getsRun before input (n + later) = getsRun before input n := by
  induction later with
  | zero => rfl
  | succ later ih =>
      rw [← Nat.add_assoc, getsRun, ih]
      exact if_pos returned

theorem returns_iff (n : Nat) : Returns before input n ↔ ∃ m, n = m + 1 ∧ Ends input m := by
  constructor
  · rintro ⟨returned, first⟩
    rcases unfinished_or_ends input n with unfinished | ⟨m, inside, ends⟩
    · rw [gets_unfinished before input n unfinished] at returned
      exact absurd returned Bool.false_ne_true
    · refine ⟨m, ?_, ends⟩
      by_contra different
      have early := first (m + 1) (by omega)
      rw [ends_returned before input m ends] at early
      exact absurd early.symm Bool.false_ne_true
  · rintro ⟨m, rfl, ends⟩
    refine ⟨ends_returned before input m ends, ?_⟩
    intro earlier inside
    rw [gets_unfinished before input earlier fun i front => ends.1 i (by omega)]
    rfl

/-- The places of a call: one for each character of the line so far, and the one of the
terminator once a carriage return has come. -/
theorem stored_places (n : Nat) :
    Unfinished input n ∧
        (getsRun before input n).stored = List.range (lineText input n).length ∨
      ∃ m, m < n ∧ Ends input m ∧
        (getsRun before input n).stored = List.range ((lineText input m).length + 1) := by
  rcases unfinished_or_ends input n with unfinished | ⟨m, inside, ends⟩
  · left
    rw [gets_unfinished before input n unfinished]
    exact ⟨unfinished, rfl⟩
  · right
    refine ⟨m, inside, ends, ?_⟩
    obtain ⟨later, rfl⟩ : ∃ later, n = m + 1 + later := ⟨n - (m + 1), by omega⟩
    rw [returned_stays before input (m + 1) later (ends_returned before input m ends)]
    rcases ends with ⟨unfinished, carriage | control⟩
    · rw [gets_carriage_return before input m unfinished carriage]
    · rw [gets_control_d before input m unfinished control, line_text_control_d input m control]
      simp [filled]

theorem inside_iff (count : Nat) :
    (∀ place ∈ List.range count, place < ucmdSize) ↔ count ≤ 100 := by
  have size : ucmdSize = 100 := rfl
  constructor
  · intro inside
    by_contra long
    have behind := inside 100 (List.mem_range.mpr (by omega))
    omega
  · intro short place member
    have front := List.mem_range.mp member
    omega

theorem carriage_return_line (n : Nat) (unfinished : Unfinished input n)
    (carriage : input n = carriageReturn) :
    ucmdString (getsRun before input (n + 1)).memory = some (lineText input (n + 1)) ↔
      (lineText input n).length ≤ 99 ∧ 0 ∉ lineText input n := by
  rw [line_text_dropped input n (.inr carriage),
    gets_carriage_return before input n unfinished carriage]
  exact terminated_string before (lineText input n)

theorem control_d_line (n : Nat) (unfinished : Unfinished input n) (control : input n = controlD) :
    ucmdString (getsRun before input (n + 1)).memory = some (lineText input (n + 1)) ↔
      (lineText input n).length ≤ 98 ∧ 0 ∉ lineText input n ∧
        before ((lineText input n).length + 1) = 0 := by
  have nonzero : ¬(0 : BitVec 8) = controlD := by decide
  rw [gets_control_d before input n unfinished control]
  change ucmdString (overlay before (lineText input (n + 1))) = _ ↔ _
  rw [open_string, line_text_control_d input n control, List.length_append,
    List.length_singleton, List.mem_append, List.mem_singleton, not_or]
  constructor
  · rintro ⟨short, ⟨characters, _⟩, zero⟩
    exact ⟨by omega, characters, zero⟩
  · rintro ⟨short, characters, zero⟩
    exact ⟨by omega, ⟨characters, nonzero⟩, zero⟩

/-- One call, whatever an earlier one has left in the buffer. -/
theorem keeps_line_iff : KeepsLine before input ↔ Fits before input := by
  constructor
  · intro keeps
    constructor
    case unfinished =>
      intro n unfinished
      have inside := keeps.inside n
      rw [gets_unfinished before input n unfinished] at inside
      exact (inside_iff _).mp inside
    case carriageReturn =>
      intro n unfinished carriage
      have returns := (returns_iff before input (n + 1)).mpr ⟨n, rfl, unfinished, .inl carriage⟩
      exact (carriage_return_line before input n unfinished carriage).mp
        (keeps.line (n + 1) returns)
    case controlD =>
      intro n unfinished control
      have returns := (returns_iff before input (n + 1)).mpr ⟨n, rfl, unfinished, .inr control⟩
      exact (control_d_line before input n unfinished control).mp (keeps.line (n + 1) returns)
  · intro fits
    constructor
    case inside =>
      intro n
      rcases stored_places before input n with ⟨unfinished, places⟩ | ⟨m, _, ends, places⟩
      · rw [places, inside_iff]
        exact fits.unfinished n unfinished
      · rw [places, inside_iff]
        rcases ends with ⟨unfinished, carriage | control⟩
        · have short := (fits.carriageReturn m unfinished carriage).1
          omega
        · have short := (fits.controlD m unfinished control).1
          omega
    case line =>
      intro n returns
      obtain ⟨m, rfl, unfinished, carriage | control⟩ := (returns_iff before input n).mp returns
      · exact (carriage_return_line before input m unfinished carriage).mpr
          (fits.carriageReturn m unfinished carriage)
      · exact (control_d_line before input m unfinished control).mpr
          (fits.controlD m unfinished control)

/-- In the loop of `main` every call keeps its line if every line fits what its call finds. -/
theorem lines_kept_iff (command : Nat → Memory → Memory) (memory : Memory)
    (stream : Nat → BitVec 8) :
    (∀ position before, Called command memory stream position before →
      KeepsLine before fun i => stream (position + i)) ↔
    ∀ position before, Called command memory stream position before →
      Fits before fun i => stream (position + i) := by
  constructor
  · intro kept position before called
    exact (keeps_line_iff before _).mp (kept position before called)
  · intro fits position before called
    exact (keeps_line_iff before _).mpr (fits position before called)

private def clearedMemory : Memory := fun _ => 0

/-- `abc` and a carriage return, then `x` and control-D. -/
private def leftoverStream (n : Nat) : BitVec 8 :=
  [0x61, 0x62, 0x63, carriageReturn, 0x78].getD n controlD

/-- Of the first line a `c` is left behind the second one. -/
theorem leftover_behind_control_d :
    ∃ before, Called (fun _ memory => memory) clearedMemory leftoverStream 4 before ∧
      ¬KeepsLine before (fun i => leftoverStream (4 + i)) ∧
      ucmdString (getsRun before (fun i => leftoverStream (4 + i)) 2).memory =
        some [0x78, controlD, 0x63] := by
  have first : Returns clearedMemory (fun i => leftoverStream (0 + i)) 4 := by
    refine ⟨by decide, ?_⟩
    intro m inside
    interval_cases m
    all_goals rfl
  refine ⟨_, .again .first first (by decide), ?_, by decide⟩
  intro keeps
  have second := keeps.line 2 ⟨by decide, by
    intro m inside
    interval_cases m
    all_goals rfl⟩
  exact absurd second (by decide)

end MinionSubsystem.MonitorLine
