import MinionSubsystem.ByteMemory
import Mathlib.Logic.Function.Basic

/-!
# Tables of packed entries

A table of 12-, 16- or 28-bit entries at some address of a byte memory. Three bytes hold
two entries of twelve bits; an entry of 28 bits leaves the rest of its word alone.
-/

namespace MinionSubsystem.PackedTable

open MinionSubsystem.ByteMemory

set_option autoImplicit false

inductive EntryWidth where
  | twelve
  | sixteen
  | twentyEight
  deriving DecidableEq, Repr

def EntryWidth.bits : EntryWidth → Nat
  | .twelve => 12
  | .sixteen => 16
  | .twentyEight => 28

def offset : EntryWidth → Nat → Nat
  | .twelve, index => index + index / 2
  | .sixteen, index => 2 * index
  | .twentyEight, index => 4 * index

def EntryWidth.span : EntryWidth → Nat
  | .twelve => 2
  | .sixteen => 2
  | .twentyEight => 4

def halfWord (memory : Memory) (place : Nat) : BitVec 16 := memory (place + 1) ++ memory place

def nibbles (index : Nat) (word : BitVec 16) : BitVec 16 :=
  if index % 2 = 1 then word >>> 4 else word &&& 0xFFF

def entry (width : EntryWidth) (memory : Memory) (base index : Nat) : Nat :=
  let place := base + offset width index
  match width with
  | .twelve => (nibbles index (halfWord memory place)).toNat
  | .sixteen => (halfWord memory place).toNat
  | .twentyEight => (loadWord memory place &&& 0x0FFFFFFF).toNat

def firstByte (index : Nat) (old : BitVec 8) (value : BitVec 32) : BitVec 8 :=
  if index % 2 = 1 then old &&& 0x0F ||| value.setWidth 8 <<< 4 else value.setWidth 8

def secondByte (index : Nat) (old : BitVec 8) (value : BitVec 32) : BitVec 8 :=
  if index % 2 = 1 then (value >>> 4).setWidth 8
  else old &&& 0xF0 ||| (value >>> 8).setWidth 8 &&& 0x0F

def setFirst (memory : Memory) (base index : Nat) (value : BitVec 32) : Memory :=
  let place := base + offset .twelve index
  Function.update memory place (firstByte index (memory place) value)

def setSecond (memory : Memory) (base index : Nat) (value : BitVec 32) : Memory :=
  let place := base + offset .twelve index + 1
  Function.update memory place (secondByte index (memory place) value)

def storeHalfWord (memory : Memory) (place : Nat) (value : BitVec 32) : Memory :=
  Function.update (Function.update memory place (value.setWidth 8)) (place + 1)
    ((value >>> 8).setWidth 8)

def setEntry (width : EntryWidth) (memory : Memory) (base index : Nat) (value : BitVec 32) :
    Memory :=
  let place := base + offset width index
  match width with
  | .twelve => setSecond (setFirst memory base index value) base index value
  | .sixteen => storeHalfWord memory place value
  | .twentyEight => storeWord memory place (value ||| loadWord memory place &&& 0xF0000000)

section Bits

variable (index : Nat) (low high : BitVec 8) (value : BitVec 32)

theorem nibbles_set :
    nibbles index (secondByte index high value ++ firstByte index low value) =
      value.setWidth 16 &&& 0xFFF := by
  unfold nibbles firstByte secondByte
  split_ifs <;>
  · apply BitVec.eq_of_getLsbD_eq
    intro bit inside
    simp only [BitVec.getLsbD_and, BitVec.getLsbD_ushiftRight, BitVec.getLsbD_append,
      BitVec.getLsbD_or, BitVec.getLsbD_setWidth, BitVec.getLsbD_shiftLeft]
    interval_cases bit <;> simp

/-- The nibble that two entries do not share stays. -/
theorem first_byte_even (odd : index % 2 = 1) :
    firstByte index low value &&& 0x0F = low &&& 0x0F := by
  rw [firstByte, if_pos odd]
  apply BitVec.eq_of_getLsbD_eq
  intro bit inside
  interval_cases bit <;> simp

theorem second_byte_odd (even : index % 2 ≠ 1) :
    secondByte index high value &&& 0xF0 = high &&& 0xF0 := by
  rw [secondByte, if_neg even]
  apply BitVec.eq_of_getLsbD_eq
  intro bit inside
  interval_cases bit <;> simp

/-- An even entry has the lower nibble of its second byte. -/
theorem nibbles_even (even : index % 2 ≠ 1) (other : BitVec 8)
    (same : high &&& 0x0F = other &&& 0x0F) :
    nibbles index (high ++ low) = nibbles index (other ++ low) := by
  have bits : ∀ place, (high &&& 0x0F).getLsbD place = (other &&& 0x0F).getLsbD place := by
    intro place
    rw [same]
  rw [nibbles, nibbles, if_neg even, if_neg even]
  apply BitVec.eq_of_getLsbD_eq
  intro bit inside
  simp only [BitVec.getLsbD_and, BitVec.getLsbD_append] at bits ⊢
  by_cases lower : bit < 8
  · rw [if_pos lower, if_pos lower]
  · have upper := bits (bit - 8)
    interval_cases bit <;> simp_all

/-- An odd entry has the upper nibble of its first byte. -/
theorem nibbles_odd (odd : index % 2 = 1) (other : BitVec 8)
    (same : low &&& 0xF0 = other &&& 0xF0) :
    nibbles index (high ++ low) = nibbles index (high ++ other) := by
  have bits : ∀ place, (low &&& 0xF0).getLsbD place = (other &&& 0xF0).getLsbD place := by
    intro place
    rw [same]
  rw [nibbles, nibbles, if_pos odd, if_pos odd]
  apply BitVec.eq_of_getLsbD_eq
  intro bit inside
  simp only [BitVec.getLsbD_and, BitVec.getLsbD_ushiftRight, BitVec.getLsbD_append] at bits ⊢
  by_cases lower : 4 + bit < 8
  · have upper := bits (4 + bit)
    interval_cases bit <;> simp_all
  · rw [if_neg lower, if_neg lower]

end Bits

section Entries

variable (width : EntryWidth) (memory : Memory) (base index : Nat) (value : BitVec 32)

theorem entry_congr (other : Memory)
    (same : ∀ place, place < width.span →
      memory (base + offset width index + place) = other (base + offset width index + place)) :
    entry width memory base index = entry width other base index := by
  have half : 2 ≤ width.span → halfWord memory (base + offset width index) =
      halfWord other (base + offset width index) := by
    intro long
    have first := same 0 (by omega)
    rw [Nat.add_zero] at first
    rw [halfWord, halfWord, same 1 (by omega), first]
  cases width with
  | twelve => exact congrArg (fun word => (nibbles index word).toNat) (half (by decide))
  | sixteen => exact congrArg BitVec.toNat (half (by decide))
  | twentyEight =>
      exact congrArg (fun word : BitVec 32 => (word &&& 0x0FFFFFFF).toNat)
        (load_word_congr _ _ _ same)

theorem entry_lt : entry width memory base index < 2 ^ width.bits := by
  have masked : ∀ word : BitVec 32, (word &&& 0x0FFFFFFF).toNat < 2 ^ 28 := by
    intro word
    exact Nat.and_lt_two_pow _ (by decide)
  have cut : ∀ word : BitVec 16, (nibbles index word).toNat < 2 ^ 12 := by
    intro word
    unfold nibbles
    split_ifs
    · rw [BitVec.toNat_ushiftRight, Nat.shiftRight_eq_div_pow]
      have small := word.isLt
      omega
    · exact Nat.and_lt_two_pow _ (by decide)
  cases width with
  | twelve => exact cut _
  | sixteen => exact (halfWord memory _).isLt
  | twentyEight => exact masked _

/-- What twelve bits are written to is two bytes of the table. -/
theorem set_first_frame (place : Nat) (outside : place ≠ base + offset .twelve index) :
    setFirst memory base index value place = memory place :=
  Function.update_of_ne outside _ _

theorem set_second_frame (place : Nat) (outside : place ≠ base + offset .twelve index + 1) :
    setSecond memory base index value place = memory place :=
  Function.update_of_ne outside _ _

/-- The second write looks at the byte it changes only. -/
theorem set_second_congr (other : Memory) (place : Nat) (same : memory place = other place) :
    setSecond memory base index value place = setSecond other base index value place := by
  by_cases here : place = base + offset .twelve index + 1
  · subst here
    simp only [setSecond, Function.update_self, same]
  · rw [set_second_frame memory base index value place here,
      set_second_frame other base index value place here, same]

theorem store_half_word_frame (start place : Nat)
    (outside : place ≠ start ∧ place ≠ start + 1) :
    storeHalfWord memory start value place = memory place := by
  rw [storeHalfWord, Function.update_of_ne outside.2, Function.update_of_ne outside.1]

theorem set_frame (place : Nat)
    (outside : place < base + offset width index ∨
      base + offset width index + width.span ≤ place) :
    setEntry width memory base index value place = memory place := by
  cases width with
  | twelve =>
      have long : EntryWidth.twelve.span = 2 := rfl
      have kept := set_second_frame (setFirst memory base index value) base index value place
        (by omega)
      exact kept.trans (set_first_frame memory base index value place (by omega))
  | sixteen =>
      have long : EntryWidth.sixteen.span = 2 := rfl
      exact store_half_word_frame memory value _ place (by omega)
  | twentyEight => exact store_word_frame memory _ _ place outside

theorem half_word_twelve :
    halfWord (setEntry .twelve memory base index value) (base + offset .twelve index) =
      secondByte index (memory (base + offset .twelve index + 1)) value ++
        firstByte index (memory (base + offset .twelve index)) value := by
  have apart : base + offset .twelve index + 1 ≠ base + offset .twelve index := by omega
  simp only [halfWord, setEntry, setSecond, setFirst, Function.update_self,
    Function.update_of_ne apart, Function.update_of_ne apart.symm]

theorem half_word_sixteen (start : Nat) :
    halfWord (storeHalfWord memory start value) start = value.setWidth 16 := by
  have apart : start + 1 ≠ start := by omega
  simp only [halfWord, storeHalfWord, Function.update_self, Function.update_of_ne apart.symm]
  apply BitVec.eq_of_getLsbD_eq
  intro bit inside
  simp only [BitVec.getLsbD_append, BitVec.getLsbD_setWidth, BitVec.getLsbD_ushiftRight]
  interval_cases bit <;> simp

theorem entry_set_same :
    entry width (setEntry width memory base index value) base index =
      value.toNat % 2 ^ width.bits := by
  cases width with
  | twelve =>
      have read : entry .twelve (setEntry .twelve memory base index value) base index =
          (nibbles index (halfWord (setEntry .twelve memory base index value)
            (base + offset .twelve index))).toNat := rfl
      rw [read, half_word_twelve, nibbles_set, BitVec.toNat_and, BitVec.toNat_setWidth]
      have mask : (0xFFF : BitVec 16).toNat = 2 ^ 12 - 1 := rfl
      rw [mask, Nat.and_two_pow_sub_one_eq_mod, EntryWidth.bits]
      omega
  | sixteen =>
      have read : entry .sixteen (setEntry .sixteen memory base index value) base index =
          (halfWord (storeHalfWord memory (base + offset .sixteen index) value)
            (base + offset .sixteen index)).toNat := rfl
      rw [read, half_word_sixteen, BitVec.toNat_setWidth, EntryWidth.bits]
  | twentyEight =>
      have read : entry .twentyEight (setEntry .twentyEight memory base index value) base index =
          (loadWord (storeWord memory (base + offset .twentyEight index)
            (value ||| loadWord memory (base + offset .twentyEight index) &&& 0xF0000000))
            (base + offset .twentyEight index) &&& 0x0FFFFFFF).toNat := rfl
      have dropped : ∀ word : BitVec 32,
          (value ||| word &&& 0xF0000000) &&& 0x0FFFFFFF = value &&& 0x0FFFFFFF := by
        intro word
        apply BitVec.eq_of_getLsbD_eq
        intro bit inside
        simp only [BitVec.getLsbD_and, BitVec.getLsbD_or]
        interval_cases bit <;> simp
      rw [read, load_store_word, dropped, BitVec.toNat_and]
      have mask : (0x0FFFFFFF : BitVec 32).toNat = 2 ^ 28 - 1 := rfl
      rw [mask, Nat.and_two_pow_sub_one_eq_mod, EntryWidth.bits]

/-- Two neighbours of twelve bits have one byte in common, of which each keeps its part. -/
theorem entry_set_first_other (other : Nat) (apart : other ≠ index) :
    entry .twelve (setFirst memory base index value) base other =
      entry .twelve memory base other := by
  by_cases shared : index % 2 = 1 ∧ other + 1 = index
  · obtain ⟨odd, next⟩ := shared
    have even : other % 2 ≠ 1 := by omega
    have place : base + offset .twelve other + 1 = base + offset .twelve index := by
      rw [offset, offset]
      omega
    have below : base + offset .twelve other ≠ base + offset .twelve index := by omega
    have high : setFirst memory base index value (base + offset .twelve other + 1) =
        firstByte index (memory (base + offset .twelve other + 1)) value := by
      rw [place]
      exact Function.update_self _ _ _
    have low : setFirst memory base index value (base + offset .twelve other) =
        memory (base + offset .twelve other) :=
      set_first_frame memory base index value _ below
    have words := nibbles_even other (memory (base + offset .twelve other)) _ even
      (memory (base + offset .twelve other + 1))
      (first_byte_even index (memory (base + offset .twelve other + 1)) value odd)
    simp only [entry, halfWord, high, low]
    exact congrArg BitVec.toNat words
  · apply entry_congr
    intro place inside
    have long : EntryWidth.twelve.span = 2 := rfl
    apply set_first_frame
    rw [offset, offset]
    omega

theorem entry_set_second_other (other : Nat) (apart : other ≠ index) :
    entry .twelve (setSecond memory base index value) base other =
      entry .twelve memory base other := by
  by_cases shared : index % 2 ≠ 1 ∧ other = index + 1
  · obtain ⟨even, next⟩ := shared
    have odd : other % 2 = 1 := by omega
    have place : base + offset .twelve other = base + offset .twelve index + 1 := by
      rw [offset, offset]
      omega
    have above : base + offset .twelve other + 1 ≠ base + offset .twelve index + 1 := by omega
    have low : setSecond memory base index value (base + offset .twelve other) =
        secondByte index (memory (base + offset .twelve other)) value := by
      rw [place]
      exact Function.update_self _ _ _
    have high : setSecond memory base index value (base + offset .twelve other + 1) =
        memory (base + offset .twelve other + 1) :=
      set_second_frame memory base index value _ above
    have words := nibbles_odd other _ (memory (base + offset .twelve other + 1)) odd
      (memory (base + offset .twelve other))
      (second_byte_odd index (memory (base + offset .twelve other)) value even)
    simp only [entry, halfWord, high, low]
    exact congrArg BitVec.toNat words
  · apply entry_congr
    intro place inside
    have long : EntryWidth.twelve.span = 2 := rfl
    apply set_second_frame
    rw [offset, offset]
    omega

theorem entry_set_other (other : Nat) (apart : other ≠ index) :
    entry width (setEntry width memory base index value) base other =
      entry width memory base other := by
  cases width with
  | twelve =>
      have second := entry_set_second_other (setFirst memory base index value) base index value
        other apart
      exact second.trans (entry_set_first_other memory base index value other apart)
  | sixteen =>
      apply entry_congr
      intro place inside
      have long : EntryWidth.sixteen.span = 2 := rfl
      apply set_frame
      rw [offset, offset]
      omega
  | twentyEight =>
      apply entry_congr
      intro place inside
      have long : EntryWidth.twentyEight.span = 4 := rfl
      apply set_frame
      rw [offset, offset]
      omega

end Entries

end MinionSubsystem.PackedTable
