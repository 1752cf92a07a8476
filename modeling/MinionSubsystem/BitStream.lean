import Mathlib.Data.List.GetD
import Mathlib.Data.List.Induction
import Mathlib.Tactic.Common

/-!
# Bits on a wire and words in registers

Serial interfaces send a word most significant bit first and rebuild it either
by shifting every bit in at the bottom of a register or by writing every bit
into its own place. Both are related here to the list of bits on the wire.
-/

namespace MinionSubsystem.BitStream

set_option autoImplicit false

variable {width : Nat}

def wireBits (word : BitVec width) : List Bool :=
  (List.range width).map word.getMsbD

@[simp] theorem wire_bits_length (word : BitVec width) :
    (wireBits word).length = width := by
  simp [wireBits]

theorem wire_bits_getD (word : BitVec width) (index : Nat) (bound : index < width) :
    (wireBits word).getD index false = word.getMsbD index := by
  simp [wireBits, bound]

/-- A concatenation of registers is sent part by part. -/
theorem wire_bits_append {other : Nat} (left : BitVec width) (right : BitVec other) :
    wireBits (left ++ right) = wireBits left ++ wireBits right := by
  rw [wireBits, List.range_add, List.map_append, List.map_map]
  congr 1
  · apply List.map_congr_left
    intro index member
    rw [BitVec.getMsbD_append, if_neg (Nat.not_le.mpr (List.mem_range.mp member))]
  · apply List.map_congr_left
    intro index _
    rw [Function.comp_apply, BitVec.getMsbD_append, if_pos (Nat.le_add_right width index),
      Nat.add_sub_cancel_left]

/-- A window of a stream that carries a list of bits is a slice of the list. -/
theorem window_of_list (stream : Nat → Bool) (bits : List Bool)
    (sent : ∀ index, index < bits.length → stream index = bits.getD index false)
    (first count : Nat) (bound : first + count ≤ bits.length) :
    (List.range' first count).map stream = (bits.drop first).take count := by
  apply List.ext_getElem
  · simp
    omega
  intro index left right
  have inside : index < count := by simpa using left
  rw [List.getElem_map, List.getElem_range', List.getElem_take, List.getElem_drop,
    Nat.one_mul, sent _ (by omega), List.getD_eq_getElem]

def shiftInAll (register : BitVec width) (bits : List Bool) : BitVec width :=
  bits.foldl BitVec.shiftConcat register

theorem shift_in_all_concat (register : BitVec width) (bits : List Bool) (bit : Bool) :
    shiftInAll register (bits ++ [bit]) = (shiftInAll register bits).shiftConcat bit := by
  simp [shiftInAll]

/-- After shifting in, the last bits received are the low bits and the old
contents have moved up. -/
theorem shift_in_all_getLsbD (register : BitVec width) (bits : List Bool) (index : Nat) :
    (shiftInAll register bits).getLsbD index =
      (decide (index < width) &&
        if index < bits.length then bits.getD (bits.length - 1 - index) false
        else register.getLsbD (index - bits.length)) := by
  induction bits using List.reverseRecOn generalizing index with
  | nil =>
      by_cases inside : index < width
      · simp [shiftInAll, inside]
      · simp [shiftInAll, inside, BitVec.getLsbD_of_ge register index (by omega)]
  | append_singleton bits bit ih =>
      rw [shift_in_all_concat, BitVec.getLsbD_shiftConcat]
      by_cases inside : index < width
      · cases index with
        | zero => simp [inside]
        | succ index =>
            have below : index < width := by omega
            simp only [ih, List.length_append, List.length_singleton, below, inside,
              decide_true, Bool.true_and, Nat.add_one_ne_zero, if_false,
              Nat.add_sub_cancel, Nat.add_lt_add_iff_right, Nat.add_sub_add_right]
            by_cases recent : index < bits.length
            · have position : bits.length - (index + 1) < bits.length := by omega
              simp only [recent, if_true]
              rw [List.getD_append _ _ _ _ position]
              congr 1
              omega
            · simp [recent]
      · simp [inside]

/-- Shifting in at least a whole word forgets what the register held. -/
theorem shift_in_wire_bits (register word : BitVec width) :
    shiftInAll register (wireBits word) = word := by
  apply BitVec.eq_of_getLsbD_eq
  intro index bound
  have position : width - 1 - index < width := by omega
  rw [shift_in_all_getLsbD]
  simp only [bound, decide_true, Bool.true_and, wire_bits_length, if_true]
  rw [List.getD_eq_getElem _ _ (by simpa using position)]
  simp only [wireBits, List.getElem_map, List.getElem_range, BitVec.getMsbD]
  simp only [position, decide_true, Bool.true_and]
  congr 1
  omega

/-- The concatenation `{bit, bit, ...}`, most significant bit first. -/
def concatBits (width : Nat) (bits : List Bool) : BitVec width :=
  shiftInAll 0 bits

theorem concat_bits_getLsbD (bits : List Bool) (index : Nat) (bound : index < bits.length)
    (inside : index < width) :
    (concatBits width bits).getLsbD index = bits.getD (bits.length - 1 - index) false := by
  rw [concatBits, shift_in_all_getLsbD]
  simp [bound, inside]

theorem concat_wire_bits (word : BitVec width) : concatBits width (wireBits word) = word :=
  shift_in_wire_bits 0 word

theorem wire_concat_bits (bits : List Bool) (length : bits.length = width) :
    wireBits (concatBits width bits) = bits := by
  apply List.ext_getElem
  · rw [wire_bits_length, length]
  intro index inside bound
  have position : width - 1 - index < width := by omega
  have place : index < width := by omega
  have mirrored : bits.length - 1 - (width - 1 - index) = index := by omega
  simp only [wireBits, List.getElem_map, List.getElem_range]
  rw [BitVec.getMsbD_eq_getLsbD, concat_bits_getLsbD _ _ (by omega) position, mirrored,
    List.getD_eq_getElem _ _ bound]
  simp only [place, decide_true, Bool.true_and]

/-- Bits shifted in behind a word move it up by their number. -/
theorem shift_in_field {size : Nat} (register : BitVec width) (front back : List Bool)
    (word : BitVec size) (room : size + back.length ≤ width) :
    (shiftInAll register (front ++ wireBits word ++ back)).extractLsb' back.length size =
      word := by
  apply BitVec.eq_of_getLsbD_eq
  intro index bound
  have inside : back.length + index < width := by omega
  have recent : back.length + index < (front ++ wireBits word ++ back).length := by
    simp only [List.length_append, wire_bits_length]
    omega
  rw [BitVec.getLsbD_extractLsb', shift_in_all_getLsbD]
  simp only [bound, inside, recent, decide_true, Bool.true_and, if_true]
  have place : (front ++ wireBits word ++ back).length - 1 - (back.length + index) =
      front.length + (size - 1 - index) := by
    simp only [List.length_append, wire_bits_length]
    omega
  rw [place, List.append_assoc, List.getD_append_right _ _ _ _ (Nat.le_add_right _ _),
    Nat.add_sub_cancel_left,
    List.getD_append _ _ _ _ (by rw [wire_bits_length]; omega),
    wire_bits_getD _ _ (by omega), BitVec.getMsbD_eq_getLsbD]
  have mirrored : size - 1 - (size - 1 - index) = index := by omega
  have position : size - 1 - index < size := by omega
  simp only [position, decide_true, Bool.true_and, mirrored]

def setBit (register : BitVec width) (place : Nat) (bit : Bool) : BitVec width :=
  (register &&& ~~~((1 : BitVec width) <<< place)) ||| ((BitVec.ofBool bit).setWidth width <<< place)

theorem set_bit_getLsbD (register : BitVec width) (place : Nat) (bit : Bool) (index : Nat) :
    (setBit register place bit).getLsbD index =
      if index = place ∧ place < width then bit else register.getLsbD index := by
  by_cases inside : index < width
  · simp only [setBit, BitVec.getLsbD_or, BitVec.getLsbD_and, BitVec.getLsbD_not,
      BitVec.getLsbD_shiftLeft, BitVec.getLsbD_setWidth, BitVec.getLsbD_ofBool,
      inside, decide_true, Bool.true_and]
    by_cases same : index = place
    · subst same
      have positive : 0 < width := by omega
      simp [inside, positive]
    · by_cases before : index < place
      · simp [same, before]
      · have later : index - place ≠ 0 := by omega
        simp [same, before, later]
  · rw [BitVec.getLsbD_of_ge _ _ (by omega), BitVec.getLsbD_of_ge _ _ (by omega)]
    rw [if_neg (by omega)]

/-- Bit `index` of a stream is written at place `width - 1 - index % width`, so
after `count` bits the register holds the last `width` of them. -/
def Gathers (stream : Nat → Bool) (count : Nat) (register : BitVec width) : Prop :=
  ∀ index, index < count → count ≤ index + width →
    register.getLsbD (width - 1 - index % width) = stream index

theorem gathers_zero (stream : Nat → Bool) (register : BitVec width) :
    Gathers stream 0 register := by
  intro index before
  omega

theorem gathers_set_bit (stream : Nat → Bool) (count : Nat) (register : BitVec width)
    (positive : 0 < width) (gathers : Gathers stream count register) :
    Gathers stream (count + 1)
      (setBit register (width - 1 - count % width) (stream count)) := by
  intro index before recent
  rw [set_bit_getLsbD]
  have indexPlace : index % width < width := Nat.mod_lt _ positive
  have countPlace : count % width < width := Nat.mod_lt _ positive
  by_cases last : index = count
  · subst last
    rw [if_pos ⟨rfl, by omega⟩]
  · have apart : index % width ≠ count % width := by
      intro same
      have multiple : width ∣ count - index :=
        Nat.dvd_of_mod_eq_zero (Nat.sub_mod_eq_zero_of_mod_eq same.symm)
      have large : width ≤ count - index := Nat.le_of_dvd (by omega) multiple
      omega
    rw [if_neg (by omega)]
    exact gathers index (by omega) (by omega)

def streamWord (width : Nat) (stream : Nat → Bool) (group : Nat) : BitVec width :=
  concatBits width ((List.range width).map fun place => stream (width * group + place))

theorem stream_word_getLsbD (stream : Nat → Bool) (group place : Nat)
    (bound : place < width) :
    (streamWord width stream group).getLsbD (width - 1 - place) =
      stream (width * group + place) := by
  rw [streamWord, concat_bits_getLsbD _ _ (by simp; omega) (by omega)]
  have index : width - 1 - (width - 1 - place) = place := by omega
  simp [index, bound]

/-- A register that has gathered a whole number of words holds the last one. -/
theorem gathers_word (stream : Nat → Bool) (group : Nat) (register : BitVec width)
    (gathers : Gathers stream (width * (group + 1)) register) :
    register = streamWord width stream group := by
  apply BitVec.eq_of_getLsbD_eq
  intro index bound
  have mirrored : width - 1 - (width - 1 - index) = index := by omega
  have written := gathers (width * group + (width - 1 - index))
    (by rw [Nat.mul_add]; omega) (by rw [Nat.mul_add]; omega)
  rw [Nat.mul_add_mod, Nat.mod_eq_of_lt (by omega), mirrored] at written
  have word : (streamWord width stream group).getLsbD _ = _ :=
    stream_word_getLsbD stream group (width - 1 - index) (by omega)
  rw [mirrored] at word
  rw [written, word]

/-- A stream that sends a word first, most significant bit first. -/
theorem stream_word_of_wire (word : BitVec width) (stream : Nat → Bool)
    (sent : ∀ place, place < width → stream place = word.getMsbD place) :
    streamWord width stream 0 = word := by
  rw [← concat_wire_bits word, streamWord, wireBits]
  apply congrArg
  apply List.map_congr_left
  intro place member
  rw [Nat.mul_zero, Nat.zero_add]
  exact sent place (List.mem_range.mp member)

end MinionSubsystem.BitStream
