import MinionSubsystem.ClockedRun

/-!
# Modifier keys and characters of the keyboard

`ps2.v` with `ascii_code.v`, wired as in `minion_soc.sv`: the acknowledgement of a
character is the ready line of that character itself. Which keys are held and what has
been typed is described by the codes that were delivered.
-/

namespace MinionSubsystem.KeyboardModifiers

open MinionSubsystem.ClockedRun

set_option autoImplicit false

def shiftedCodes : List (BitVec 7) :=
  [0x00, 0x1B, 0x21, 0x22, 0x23, 0x24, 0x25, 0x5E, 0x26, 0x2A, 0x28, 0x29, 0x5F, 0x2B, 0x08, 0x09,
   0x51, 0x57, 0x45, 0x52, 0x54, 0x59, 0x55, 0x49, 0x4F, 0x50, 0x7B, 0x7D, 0x0D, 0x00, 0x41, 0x53,
   0x44, 0x46, 0x47, 0x48, 0x4A, 0x4B, 0x4C, 0x3A, 0x40, 0x60, 0x00, 0x7C, 0x5A, 0x58, 0x43, 0x56,
   0x42, 0x4E, 0x4D, 0x3C, 0x3E, 0x3F, 0x00, 0x2A, 0x00, 0x20, 0x00, 0x00, 0x00, 0x00, 0x00, 0x00,
   0x00, 0x00, 0x00, 0x00, 0x00, 0x00, 0x00, 0x00, 0x00, 0x00, 0x5F, 0x00, 0x00, 0x00, 0x2B, 0x00]

def plainCodes : List (BitVec 7) :=
  [0x00, 0x1B, 0x31, 0x32, 0x33, 0x34, 0x35, 0x36, 0x37, 0x38, 0x39, 0x30, 0x2D, 0x3D, 0x08, 0x09,
   0x71, 0x77, 0x65, 0x72, 0x74, 0x79, 0x75, 0x69, 0x6F, 0x70, 0x5B, 0x5D, 0x0D, 0x00, 0x61, 0x73,
   0x64, 0x66, 0x67, 0x68, 0x6A, 0x6B, 0x6C, 0x3B, 0x27, 0x60, 0x00, 0x5C, 0x7A, 0x78, 0x63, 0x76,
   0x62, 0x6E, 0x6D, 0x2C, 0x2E, 0x2F, 0x00, 0x2A, 0x00, 0x20, 0x00, 0x00, 0x00, 0x00, 0x00, 0x00,
   0x00, 0x00, 0x00, 0x00, 0x00, 0x00, 0x00, 0x00, 0x00, 0x00, 0x2D, 0x00, 0x00, 0x00, 0x2B, 0x00]

/-- `ASCII_code`; the entries behind the lists are zero. -/
def asciiCode (scancode : BitVec 7) (shift : Bool) : BitVec 7 :=
  (if shift then shiftedCodes else plainCodes).getD scancode.toNat 0

structure Keyboard where
  shift : Bool
  ctrl : Bool
  asciiDataReady : Bool
  asciiCode : BitVec 7
  dataReadyDly : Bool
  deriving DecidableEq, Repr

structure Lines where
  rst : Bool
  rxAsciiRead : Bool
  rxTranslatedScanCode : BitVec 8
  rxTranslatedDataReady : Bool
  deriving DecidableEq, Repr

def reset : Keyboard :=
  { shift := false, ctrl := false, asciiDataReady := false, asciiCode := 0, dataReadyDly := false }

def keyOf (code : BitVec 8) : BitVec 7 := code.setWidth 7

def released (code : BitVec 8) : Bool := code.getLsbD 7

def leftShift : BitVec 7 := 0x2A

def rightShift : BitVec 7 := 0x36

def control : BitVec 7 := 0x1D

/-- The lines behind the `case`, for the value it leaves in `kcode`. -/
def emit (code kcode : BitVec 8) (k : Keyboard) : Keyboard :=
  if kcode ≠ 0 && !released code then
    let kcode :=
      if k.ctrl && decide (0x41 ≤ kcode) && decide (kcode ≤ 0x5D) then kcode &&& ~~~0x40
      else kcode
    { k with asciiCode := kcode.setWidth 7, asciiDataReady := true }
  else k

/-- What an edge of `rx_translated_data_ready` does. -/
def scanned (code : BitVec 8) (k : Keyboard) : Keyboard :=
  if keyOf code = leftShift ∨ keyOf code = rightShift then
    emit code 0 { k with shift := !released code }
  else if keyOf code = control then emit code 0 { k with ctrl := !released code }
  else emit code ((asciiCode (keyOf code) (k.shift || k.ctrl)).setWidth 8) k

def clock (lines : Lines) (k : Keyboard) : Keyboard :=
  if lines.rst then reset
  else
    let edge := lines.rxTranslatedDataReady && !k.dataReadyDly
    let k := { k with dataReadyDly := lines.rxTranslatedDataReady }
    let k := if lines.rxAsciiRead then { k with asciiDataReady := false } else k
    if edge then scanned lines.rxTranslatedScanCode k else k

structure Wave where
  code : Nat → BitVec 8
  ready : Nat → Bool

/-- The circuit out of reset with its acknowledgement wired. -/
def socClock (input : BitVec 8 × Bool) (k : Keyboard) : Keyboard :=
  clock { rst := false, rxAsciiRead := k.asciiDataReady, rxTranslatedScanCode := input.1,
          rxTranslatedDataReady := input.2 } k

def stateAt (wave : Wave) : Nat → Keyboard :=
  run socClock reset fun n => (wave.code n, wave.ready n)

def output (k : Keyboard) : Option (BitVec 7) :=
  if k.asciiDataReady then some k.asciiCode else none

/-- The code that a rising edge of the ready line delivers at clock `n`. -/
def event (wave : Wave) : Nat → Option (BitVec 8)
  | 0 => if wave.ready 0 then some (wave.code 0) else none
  | n + 1 => if wave.ready (n + 1) && !wave.ready n then some (wave.code (n + 1)) else none

def delivered (wave : Wave) (n : Nat) : List (BitVec 8) := (List.range n).filterMap (event wave)

def held (key : BitVec 7) (codes : List (BitVec 8)) : Bool :=
  match (codes.filter fun code => keyOf code = key).getLast? with
  | some code => !released code
  | none => false

def shiftHeld (codes : List (BitVec 8)) : Bool := held leftShift codes || held rightShift codes

def character (shift ctrl : Bool) (code : BitVec 8) : Option (BitVec 7) :=
  if released code then none
  else if keyOf code = leftShift ∨ keyOf code = rightShift ∨ keyOf code = control then none
  else
    let entry := asciiCode (keyOf code) (shift || ctrl)
    if entry = 0 then none
    else if ctrl && decide (0x41 ≤ entry) && decide (entry ≤ 0x5D) then some (entry &&& ~~~0x40)
    else some entry

def typedChar (codes : List (BitVec 8)) (code : BitVec 8) : Option (BitVec 7) :=
  character (shiftHeld codes) (held control codes) code

def typedText (codes : List (BitVec 8)) : List (BitVec 7) :=
  (List.range codes.length).filterMap fun i => typedChar (codes.take i) (codes.getD i 0)

/-- The modifiers follow the keys, and the text is what is written to the queue. -/
structure Tracks (wave : Wave) (n : Nat) : Prop where
  shift : (stateAt wave n).shift = shiftHeld (delivered wave n)
  ctrl : (stateAt wave n).ctrl = held control (delivered wave n)
  text : transferred output (stateAt wave) 1 n = typedText (delivered wave n)

/-- One shift key is released while the other one is held. -/
def LeavesOneShift (codes : List (BitVec 8)) (code : BitVec 8) : Prop :=
  released code = true ∧
    (keyOf code = leftShift ∧ held rightShift codes = true ∨
      keyOf code = rightShift ∧ held leftShift codes = true)

section History

variable (codes : List (BitVec 8)) (code : BitVec 8)

theorem held_append (key : BitVec 7) :
    held key (codes ++ [code]) = if keyOf code = key then !released code else held key codes := by
  rw [held, List.filter_append]
  by_cases same : keyOf code = key
  · rw [List.filter_cons_of_pos (by simpa using same), List.filter_nil, List.getLast?_concat,
      if_pos same]
  · rw [List.filter_cons_of_neg (by simpa using same), List.filter_nil, List.append_nil,
      if_neg same, held]

/-- The keys together follow the last of their codes, except where one is released under the
other. -/
theorem shift_held_append :
    (shiftHeld (codes ++ [code]) =
      if keyOf code = leftShift ∨ keyOf code = rightShift then !released code
      else shiftHeld codes) ↔ ¬LeavesOneShift codes code := by
  have apart : leftShift ≠ rightShift := by decide
  rw [shiftHeld, held_append, held_append, LeavesOneShift, shiftHeld]
  by_cases left : keyOf code = leftShift
  · simp only [left, apart, if_true, if_false, true_and, false_and, or_false]
    cases released code <;> cases held rightShift codes <;> decide
  · by_cases right : keyOf code = rightShift
    · simp only [right, apart.symm, if_true, if_false, or_true, true_and, false_and, false_or]
      cases released code <;> cases held leftShift codes <;> decide
    · simp only [left, right, if_false, or_self, false_and, and_false, not_false_eq_true]

theorem typed_text_append :
    typedText (codes ++ [code]) = typedText codes ++ (typedChar codes code).toList := by
  have last : (codes ++ [code]).getD codes.length 0 = code := by
    simp [List.getD_eq_getElem?_getD]
  have before : (List.range codes.length).filterMap (fun i =>
      typedChar ((codes ++ [code]).take i) ((codes ++ [code]).getD i 0)) = typedText codes := by
    apply List.filterMap_congr
    intro i member
    have inside := List.mem_range.mp member
    rw [List.take_append_of_le_length (Nat.le_of_lt inside), List.getD_eq_getElem?_getD,
      List.getElem?_append_left inside, ← List.getD_eq_getElem?_getD]
  rw [typedText, List.length_append, List.length_singleton, List.range_succ,
    List.filterMap_append, before, List.filterMap_cons, List.filterMap_nil, List.take_left, last]
  cases typedChar codes code <;> rfl

end History

section Clock

variable (code : BitVec 8) (k : Keyboard)

theorem emit_modifiers (kcode : BitVec 8) :
    (emit code kcode k).shift = k.shift ∧ (emit code kcode k).ctrl = k.ctrl ∧
      (emit code kcode k).dataReadyDly = k.dataReadyDly := by
  unfold emit
  split_ifs <;> exact ⟨rfl, rfl, rfl⟩

theorem scanned_shift :
    (scanned code k).shift =
      if keyOf code = leftShift ∨ keyOf code = rightShift then !released code else k.shift := by
  unfold scanned
  split_ifs <;> exact (emit_modifiers code _ _).1

theorem scanned_ctrl :
    (scanned code k).ctrl = if keyOf code = control then !released code else k.ctrl := by
  unfold scanned
  split_ifs with shift both control
  · rw [both] at shift
    exact absurd shift (by decide)
  all_goals exact (emit_modifiers code _ _).2.1

theorem scanned_dly : (scanned code k).dataReadyDly = k.dataReadyDly := by
  unfold scanned
  split_ifs <;> exact (emit_modifiers code _ _).2.2

/-- The 8-bit register holds entries of the table, so it is masked as they are. -/
theorem kcode_entry (entry : BitVec 7) :
    (entry.setWidth 8 ≠ 0 ↔ entry ≠ 0) ∧
    (0x41 ≤ entry.setWidth 8 ↔ 0x41 ≤ entry) ∧ (entry.setWidth 8 ≤ 0x5D ↔ entry ≤ 0x5D) ∧
    (entry.setWidth 8 &&& ~~~0x40).setWidth 7 = entry &&& ~~~0x40 ∧
    (entry.setWidth 8).setWidth 7 = entry := by
  revert entry
  decide

theorem emit_output (quiet : k.asciiDataReady = false) (entry : BitVec 7) :
    output (emit code (entry.setWidth 8) k) =
      if released code then none
      else if entry = 0 then none
      else if k.ctrl && decide (0x41 ≤ entry) && decide (entry ≤ 0x5D) then
        some (entry &&& ~~~0x40)
      else some entry := by
  obtain ⟨zero, least, most, masked, plain⟩ := kcode_entry entry
  have silent : output k = none := by
    rw [output, quiet]
    rfl
  unfold emit
  simp only [zero, least, most]
  cases break_code : released code with
  | true =>
      rw [if_neg (by simp), silent]
      rfl
  | false =>
      by_cases none : entry = 0
      · rw [if_neg (by simp [none]), silent, if_neg Bool.false_ne_true, if_pos none]
      · rw [if_pos (by simpa using none), if_neg Bool.false_ne_true, if_neg none]
        split_ifs
        · rw [output, if_pos rfl, masked]
        · rw [output, if_pos rfl, plain]

theorem character_modifier (shift ctrl : Bool)
    (modifier : keyOf code = leftShift ∨ keyOf code = rightShift ∨ keyOf code = control) :
    character shift ctrl code = none := by
  rw [character, if_pos modifier, ite_self]

theorem scanned_output (quiet : k.asciiDataReady = false) :
    output (scanned code k) = character k.shift k.ctrl code := by
  have nothing : ∀ other : Keyboard, other.asciiDataReady = false →
      output (emit code 0 other) = none := by
    intro other still
    have emitted := emit_output code other still 0
    rw [if_pos rfl, ite_self] at emitted
    exact emitted
  unfold scanned
  by_cases shift : keyOf code = leftShift ∨ keyOf code = rightShift
  · rw [if_pos shift, nothing { k with shift := !released code } quiet,
      character_modifier code _ _ (by tauto)]
  · rw [if_neg shift]
    by_cases ctrl : keyOf code = control
    · rw [if_pos ctrl, nothing { k with ctrl := !released code } quiet,
        character_modifier code _ _ (by tauto)]
    · have plain : ¬(keyOf code = leftShift ∨ keyOf code = rightShift ∨ keyOf code = control) := by
        tauto
      rw [if_neg ctrl, emit_output code k quiet, character, if_neg plain]

end Clock

section Wired

variable (wave : Wave)

theorem state_at_succ (n : Nat) :
    stateAt wave (n + 1) = socClock (wave.code n, wave.ready n) (stateAt wave n) := rfl

/-- A character is acknowledged in the clock after the one that brings it. -/
theorem soc_clock_cases (input : BitVec 8 × Bool) (k : Keyboard) :
    socClock input k =
      if input.2 && !k.dataReadyDly then
        scanned input.1 { k with dataReadyDly := input.2, asciiDataReady := false }
      else { k with dataReadyDly := input.2, asciiDataReady := false } := by
  obtain ⟨shift, ctrl, ready, char, dly⟩ := k
  cases ready <;> rfl

theorem soc_clock_dly (input : BitVec 8 × Bool) (k : Keyboard) :
    (socClock input k).dataReadyDly = input.2 := by
  rw [soc_clock_cases]
  split_ifs
  · exact scanned_dly input.1 _
  · rfl

/-- The delayed line makes an event of every rising edge. -/
theorem event_edge (n : Nat) :
    event wave n =
      if wave.ready n && !(stateAt wave n).dataReadyDly then some (wave.code n) else none := by
  cases n with
  | zero =>
      rw [event]
      cases wave.ready 0 <;> rfl
  | succ n =>
      have delayed : (stateAt wave (n + 1)).dataReadyDly = wave.ready n := soc_clock_dly _ _
      rw [event, delayed]

theorem delivered_succ (n : Nat) :
    delivered wave (n + 1) = delivered wave n ++ (event wave n).toList := by
  rw [delivered, List.range_succ, List.filterMap_append, delivered]
  cases brought : event wave n <;> simp [brought]

theorem step_quiet (n : Nat) (quiet : event wave n = none) :
    (stateAt wave (n + 1)).shift = (stateAt wave n).shift ∧
      (stateAt wave (n + 1)).ctrl = (stateAt wave n).ctrl ∧
      output (stateAt wave (n + 1)) = none ∧ delivered wave (n + 1) = delivered wave n := by
  have edge := event_edge wave n
  rw [quiet] at edge
  split_ifs at edge with rising
  have kept : delivered wave (n + 1) = delivered wave n := by
    rw [delivered_succ, quiet, Option.toList_none, List.append_nil]
  rw [state_at_succ, soc_clock_cases, if_neg rising]
  exact ⟨rfl, rfl, rfl, kept⟩

theorem step_event (n : Nat) (code : BitVec 8) (brought : event wave n = some code) :
    (stateAt wave (n + 1)).shift =
        (if keyOf code = leftShift ∨ keyOf code = rightShift then !released code
          else (stateAt wave n).shift) ∧
      (stateAt wave (n + 1)).ctrl =
        (if keyOf code = control then !released code else (stateAt wave n).ctrl) ∧
      output (stateAt wave (n + 1)) =
        character (stateAt wave n).shift (stateAt wave n).ctrl code ∧
      delivered wave (n + 1) = delivered wave n ++ [code] := by
  have edge := event_edge wave n
  rw [brought] at edge
  split_ifs at edge with rising
  have same := Option.some.inj edge
  have longer : delivered wave (n + 1) = delivered wave n ++ [code] := by
    rw [delivered_succ, brought, Option.toList_some]
  rw [state_at_succ, soc_clock_cases, if_pos rising, ← same]
  refine ⟨scanned_shift code _, scanned_ctrl code _, scanned_output code _ rfl, longer⟩

/-- While no shift key is released under the other one, one clock keeps the modifiers right. -/
theorem tracks_step (n : Nat)
    (apart : ∀ code, event wave n = some code → ¬LeavesOneShift (delivered wave n) code)
    (tracks : Tracks wave n) : Tracks wave (n + 1) := by
  have written : transferred output (stateAt wave) 1 (n + 1) =
      transferred output (stateAt wave) 1 n ++ (output (stateAt wave (n + 1))).toList := by
    rw [transferred_succ, Nat.add_comm 1 n]
  cases brought : event wave n with
  | none =>
      obtain ⟨shift, ctrl, char, codes⟩ := step_quiet wave n brought
      constructor
      · rw [shift, codes, tracks.shift]
      · rw [ctrl, codes, tracks.ctrl]
      · rw [written, char, codes, tracks.text, Option.toList_none, List.append_nil]
  | some code =>
      obtain ⟨shift, ctrl, char, codes⟩ := step_event wave n code brought
      constructor
      · rw [shift, codes, (shift_held_append _ code).mpr (apart code brought), tracks.shift]
      · rw [ctrl, codes, held_append, tracks.ctrl]
      · rw [written, char, codes, typed_text_append, tracks.text, tracks.shift, tracks.ctrl,
          typedChar]

end Wired

/-- Modifiers and text follow the keys exactly in the histories in which no shift key is
released while the other one is held. -/
theorem keyboard_tracks_iff (wave : Wave) :
    (∀ n, Tracks wave n) ↔
      ∀ n code, event wave n = some code → ¬LeavesOneShift (delivered wave n) code := by
  constructor
  · intro tracks n code brought leaves
    obtain ⟨register, _, _, codes⟩ := step_event wave n code brought
    refine (shift_held_append (delivered wave n) code).mp ?_ leaves
    rw [← codes, ← (tracks (n + 1)).shift, register, (tracks n).shift]
  · intro apart n
    induction n with
    | zero => exact ⟨rfl, rfl, rfl⟩
    | succ n ih => exact tracks_step wave n (apart n) ih

/-- Both shift keys are pressed and the right one is released. -/
def overlapping : Wave where
  code n := if n = 0 then 0x2A else if n = 2 then 0x36 else 0xB6
  ready n := n % 2 = 0

theorem overlapping_shift_lost : ¬∀ n, Tracks overlapping n := by
  intro tracks
  exact absurd (tracks 5).shift (by decide)

end MinionSubsystem.KeyboardModifiers
