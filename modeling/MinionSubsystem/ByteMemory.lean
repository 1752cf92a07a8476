import Mathlib.Tactic.IntervalCases

/-!
# Little-endian words in a byte memory

A memory is a function from addresses to bytes. A word occupies four bytes, its
least significant byte first.
-/

namespace MinionSubsystem.ByteMemory

set_option autoImplicit false

abbrev Memory := Nat → BitVec 8

def wordByte (word : BitVec 32) (place : Nat) : BitVec 8 := word.extractLsb' (8 * place) 8

def loadWord (memory : Memory) (address : Nat) : BitVec 32 :=
  memory (address + 3) ++ memory (address + 2) ++ memory (address + 1) ++ memory address

def storeWord (memory : Memory) (address : Nat) (word : BitVec 32) : Memory := fun place =>
  if address ≤ place ∧ place < address + 4 then wordByte word (place - address)
  else memory place

def storeWords (base : Nat) (words : Nat → BitVec 32) : Nat → Memory → Memory
  | 0, memory => memory
  | count + 1, memory =>
      storeWord (storeWords base words count memory) (base + 4 * count) (words count)

def storeBytes (address count : Nat) (bytes : Nat → BitVec 8) (memory : Memory) : Memory :=
  fun place => if address ≤ place ∧ place < address + count then bytes (place - address)
    else memory place

abbrev AddressSpace := BitVec 64 → BitVec 8

/-- `count` bytes from `address` on, by their distance; addresses wrap around. -/
def storeRange (address : BitVec 64) (count : Nat) (bytes : BitVec 64 → BitVec 8)
    (memory : AddressSpace) : AddressSpace := fun place =>
  if (place - address).toNat < count then bytes (place - address) else memory place

variable (memory : Memory)

/-- Only the bytes that are stored matter. -/
theorem store_bytes_congr (address count : Nat) (left right : Nat → BitVec 8)
    (same : ∀ offset, offset < count → left offset = right offset) :
    storeBytes address count left memory = storeBytes address count right memory := by
  funext place
  rw [storeBytes, storeBytes]
  split_ifs with inside
  · exact same _ (by omega)
  · rfl

theorem store_bytes_byte (address count : Nat) (bytes : Nat → BitVec 8) (offset : Nat)
    (inside : offset < count) :
    storeBytes address count bytes memory (address + offset) = bytes offset := by
  rw [storeBytes, if_pos (by omega), Nat.add_sub_cancel_left]

theorem store_bytes_frame (address count : Nat) (bytes : Nat → BitVec 8) (place : Nat)
    (outside : place < address ∨ address + count ≤ place) :
    storeBytes address count bytes memory place = memory place :=
  if_neg (by omega)

theorem store_word_byte (address : Nat) (word : BitVec 32) (place : Nat) (bound : place < 4) :
    storeWord memory address word (address + place) = wordByte word place := by
  have inside : address ≤ address + place ∧ address + place < address + 4 := by omega
  simp only [storeWord, inside, and_self, if_true, Nat.add_sub_cancel_left]

theorem store_word_frame (address : Nat) (word : BitVec 32) (place : Nat)
    (outside : place < address ∨ address + 4 ≤ place) :
    storeWord memory address word place = memory place :=
  if_neg (by omega)

theorem word_of_bytes (word : BitVec 32) :
    wordByte word 3 ++ wordByte word 2 ++ wordByte word 1 ++ wordByte word 0 = word := by
  apply BitVec.eq_of_getLsbD_eq
  intro index inside
  simp only [wordByte, BitVec.getLsbD_append, BitVec.getLsbD_extractLsb']
  interval_cases index <;> rfl

theorem load_store_word (address : Nat) (word : BitVec 32) :
    loadWord (storeWord memory address word) address = word := by
  have first : storeWord memory address word address = wordByte word 0 :=
    store_word_byte memory address word 0 (by decide)
  rw [loadWord, store_word_byte memory address word 3 (by decide),
    store_word_byte memory address word 2 (by decide),
    store_word_byte memory address word 1 (by decide), first]
  exact word_of_bytes word

theorem load_word_congr (left right : Memory) (address : Nat)
    (same : ∀ place, place < 4 → left (address + place) = right (address + place)) :
    loadWord left address = loadWord right address := by
  have first : left address = right address := same 0 (by decide)
  rw [loadWord, loadWord, same 3 (by decide), same 2 (by decide), same 1 (by decide), first]

theorem load_store_frame (address other : Nat) (word : BitVec 32)
    (apart : other + 4 ≤ address ∨ address + 4 ≤ other) :
    loadWord (storeWord memory address word) other = loadWord memory other := by
  apply load_word_congr
  intro place bound
  exact store_word_frame memory address word (other + place) (by omega)

theorem store_words_frame (base : Nat) (words : Nat → BitVec 32) (count place : Nat)
    (outside : place < base ∨ base + 4 * count ≤ place) :
    storeWords base words count memory place = memory place := by
  induction count with
  | zero => rfl
  | succ count ih =>
      have kept := store_word_frame (storeWords base words count memory) (base + 4 * count)
        (words count) place (by omega)
      exact kept.trans (ih (by omega))

theorem store_words_byte (base : Nat) (words : Nat → BitVec 32) (count offset : Nat)
    (inside : offset < 4 * count) :
    storeWords base words count memory (base + offset) =
      wordByte (words (offset / 4)) (offset % 4) := by
  induction count with
  | zero => omega
  | succ count ih =>
      by_cases last : offset / 4 = count
      · have place : base + offset = base + 4 * count + offset % 4 := by omega
        rw [storeWords, place, store_word_byte _ _ _ _ (Nat.mod_lt offset (by decide)), last]
      · have before : offset < 4 * count := by omega
        have kept := store_word_frame (storeWords base words count memory) (base + 4 * count)
          (words count) (base + offset) (by omega)
        exact kept.trans (ih before)

end MinionSubsystem.ByteMemory
