import Mathlib.Algebra.CharP.Two
import Mathlib.Algebra.Field.ZMod
import Mathlib.Algebra.Polynomial.Div
import Mathlib.Tactic.LinearCombination
import Mathlib.Tactic.Ring
import MinionSubsystem.BitStream

/-!
# Cyclic redundancy codes

`residue` divides a message by a generator polynomial over the two-element
field, one bit per step, in a shift register. `residue_is_remainder` states
what the register holds: the remainder of the message times `X ^ width`. The
generator is written without its leading term, as the taps of the register.
-/

namespace MinionSubsystem.CyclicCode

open MinionSubsystem.BitStream
open Polynomial

set_option autoImplicit false

variable {width : Nat}

/-- One step of the division register: the bit that leaves it, combined with
the message bit, decides whether the taps are added. -/
def feed (taps register : BitVec width) (bit : Bool) : BitVec width :=
  (register <<< 1) ^^^ (if register.msb ^^ bit then taps else 0)

def residue (taps : BitVec width) (message : List Bool) : BitVec width :=
  message.foldl (feed taps) 0

@[simp] theorem residue_nil (taps : BitVec width) : residue taps [] = 0 := rfl

theorem residue_concat (taps : BitVec width) (message : List Bool) (bit : Bool) :
    residue taps (message ++ [bit]) = feed taps (residue taps message) bit := by
  simp [residue]

theorem residue_append (taps : BitVec width) (front back : List Bool) :
    residue taps (front ++ back) = back.foldl (feed taps) (residue taps front) :=
  List.foldl_append

/-- Leading zeros leave the register at 0. -/
theorem residue_leading_zero (taps : BitVec width) (message : List Bool) :
    residue taps (false :: message) = residue taps message := by
  have still : feed taps 0 false = 0 := by simp [feed]
  rw [residue, List.foldl_cons, still]
  rfl

/-- Feeding the bit that is about to leave only shifts. -/
theorem feed_leaving_bit (taps register : BitVec width) :
    feed taps register register.msb = register <<< 1 := by
  simp [feed]

/-- A message followed by the first bits of its own check word leaves the rest
of the check word, shifted to the top. -/
theorem residue_own_bits (taps : BitVec width) (message : List Bool) (count : Nat) :
    residue taps (message ++ (List.range count).map (residue taps message).getMsbD) =
      residue taps message <<< count := by
  induction count with
  | zero => simp
  | succ count ih =>
      have leaving : (residue taps message).getMsbD count =
          (residue taps message <<< count).msb := by
        simp [BitVec.msb_eq_getMsbD_zero]
      rw [List.range_succ, List.map_append, ← List.append_assoc]
      simp only [List.map_cons, List.map_nil]
      rw [residue_concat, ih, leaving, feed_leaving_bit, BitVec.shiftLeft_add]

/-- With an odd generator a few more bits clear the register only if they are
the bits that leave it and nothing remains behind them. -/
theorem feed_clears_iff (taps register : BitVec width) (odd : taps.getLsbD 0 = true)
    (bits : List Bool) (short : bits.length ≤ width) :
    bits.foldl (feed taps) register = 0 ↔
      ∀ place, place < width → register.getMsbD place = bits.getD place false := by
  induction bits generalizing register with
  | nil =>
      constructor
      · intro clear place _
        have zero : register = 0 := clear
        simp [zero]
      · intro clear
        apply BitVec.eq_of_getMsbD_eq
        intro place bound
        simpa using clear place bound
  | cons bit bits ih =>
      rw [List.length_cons] at short
      rw [List.foldl_cons, ih _ (by omega)]
      by_cases leaving : register.msb = bit
      · have shifted : feed taps register bit = register <<< 1 := by
          rw [← leaving, feed_leaving_bit]
        rw [shifted]
        constructor
        · intro behind place bound
          cases place with
          | zero => rw [← BitVec.msb_eq_getMsbD_zero, leaving, List.getD_cons_zero]
          | succ place =>
              have next := behind place (by omega)
              rw [BitVec.getMsbD_shiftLeft] at next
              rw [List.getD_cons_succ, ← next]
        · intro all place bound
          rw [BitVec.getMsbD_shiftLeft]
          by_cases last : place + 1 < width
          · rw [all (place + 1) last, List.getD_cons_succ]
          · rw [BitVec.getMsbD_of_ge _ _ (by omega), List.getD_eq_default _ _ (by omega)]
      · -- the taps are added, so the lowest bit is set and too few bits follow to move it out
        constructor
        · intro behind
          have lowest := behind (width - 1) (by omega)
          have added : (register.msb ^^ bit) = true := by
            cases top : register.msb <;> cases bit <;> simp [top] at leaving ⊢
          have place : width - 1 - (width - 1) = 0 := by omega
          rw [List.getD_eq_default _ _ (by omega), feed, added, if_pos rfl,
            BitVec.getMsbD_eq_getLsbD, BitVec.getLsbD_xor, place, odd] at lowest
          simp at lowest
          omega
        · intro all
          have top := all 0 (by omega)
          rw [← BitVec.msb_eq_getMsbD_zero, List.getD_cons_zero] at top
          exact absurd top leaving

/-- A message with a check word behind it is divisible only if the word is its own. -/
theorem residue_check (taps : BitVec width) (odd : taps.getLsbD 0 = true)
    (message : List Bool) (check : BitVec width) :
    residue taps (message ++ wireBits check) = 0 ↔ check = residue taps message := by
  rw [residue_append, feed_clears_iff _ _ odd _ (by simp)]
  constructor
  · intro same
    apply BitVec.eq_of_getMsbD_eq
    intro place bound
    rw [same place bound, wire_bits_getD _ _ bound]
  · intro same place bound
    rw [wire_bits_getD _ _ bound, same]

def corrupt (sent error : List Bool) : List Bool := List.zipWith xor sent error

/-- A nonzero error pattern on `sent` within `size` consecutive positions. -/
structure Burst (size : Nat) (sent error : List Bool) : Prop where
  length : error.length = sent.length
  nonzero : true ∈ error
  window : ∃ first, ∀ place, error.getD place false = true → first ≤ place ∧ place < first + size

/-- Behind its end a pattern has no nonzero bits. -/
theorem window_of_pattern {first size : Nat} {error : List Bool}
    (inside : ∀ place, place < error.length → error.getD place false = true →
      first ≤ place ∧ place < first + size)
    (place : Nat) (high : error.getD place false = true) :
    first ≤ place ∧ place < first + size := by
  apply inside place _ high
  by_contra outside
  rw [List.getD_eq_default _ _ (by omega)] at high
  exact Bool.noConfusion high

theorem feed_xor (taps left right : BitVec width) (one other : Bool) :
    feed taps (left ^^^ right) (one ^^ other) = feed taps left one ^^^ feed taps right other := by
  apply BitVec.eq_of_getLsbD_eq
  intro index inside
  simp only [feed, BitVec.getLsbD_xor, BitVec.shiftLeft_xor_distrib, BitVec.msb_xor]
  cases left.msb <;> cases right.msb <;> cases one <;> cases other <;> simp <;>
    cases taps.getLsbD index <;> simp

/-- The division is linear. -/
theorem residue_corrupt (taps : BitVec width) (sent error : List Bool)
    (length : error.length = sent.length) :
    residue taps (corrupt sent error) = residue taps sent ^^^ residue taps error := by
  induction sent using List.reverseRecOn generalizing error with
  | nil =>
      have none : error = [] := List.eq_nil_of_length_eq_zero length
      simp [none, corrupt]
  | append_singleton sent bit ih =>
      cases error using List.reverseRecOn with
      | nil => simp at length
      | append_singleton error flip =>
          have shorter : error.length = sent.length := by simpa using length
          have split : corrupt (sent ++ [bit]) (error ++ [flip]) =
              corrupt sent error ++ [bit ^^ flip] :=
            List.zipWith_append shorter.symm
          rw [split, residue_concat, residue_concat, residue_concat, ih error shorter, feed_xor]

theorem residue_leading_zeros (taps : BitVec width) (front back : List Bool)
    (zeros : ∀ bit ∈ front, bit = false) :
    residue taps (front ++ back) = residue taps back := by
  induction front with
  | nil => rfl
  | cons bit front ih =>
      have first : bit = false := zeros bit List.mem_cons_self
      have rest : ∀ later ∈ front, later = false :=
        fun later member => zeros later (List.mem_cons_of_mem bit member)
      rw [first, List.cons_append, residue_leading_zero, ih rest]

/-- With an odd generator zeros behind a message do not clear the register. -/
theorem feed_zeros_nonzero (taps register : BitVec width) (odd : taps.getLsbD 0 = true)
    (positive : 0 < width) (zeros : List Bool) (all : ∀ bit ∈ zeros, bit = false)
    (nonzero : register ≠ 0) : zeros.foldl (feed taps) register ≠ 0 := by
  induction zeros generalizing register with
  | nil => exact nonzero
  | cons bit zeros ih =>
      have first : bit = false := all bit List.mem_cons_self
      have rest : ∀ later ∈ zeros, later = false :=
        fun later member => all later (List.mem_cons_of_mem bit member)
      rw [List.foldl_cons, first]
      apply ih _ rest
      intro cleared
      have clears := feed_clears_iff taps register odd [false] positive
      apply nonzero
      apply BitVec.eq_of_getMsbD_eq
      intro place inside
      rw [clears.mp cleared place inside]
      cases place <;> simp

/-- No pattern that fits into the register is divisible. -/
theorem residue_short_nonzero (taps : BitVec width) (odd : taps.getLsbD 0 = true)
    (pattern : List Bool) (short : pattern.length ≤ width) (nonzero : true ∈ pattern) :
    residue taps pattern ≠ 0 := by
  intro cleared
  obtain ⟨place, inside, high⟩ := List.getElem_of_mem nonzero
  have leaves := (feed_clears_iff taps 0 odd pattern short).mp cleared place (by omega)
  rw [List.getD_eq_getElem _ _ inside, high] at leaves
  simp at leaves

theorem residue_burst (taps : BitVec width) (odd : taps.getLsbD 0 = true)
    (sent error : List Bool) (burst : Burst width sent error) : residue taps error ≠ 0 := by
  obtain ⟨first, window⟩ := burst.window
  have bit_at : ∀ place (inside : place < error.length), error.get ⟨place, inside⟩ = true →
      first ≤ place ∧ place < first + width := by
    intro place inside high
    apply window place
    rw [List.getD_eq_getElem _ _ inside]
    exact high
  have front : ∀ bit ∈ error.take first, bit = false := by
    intro bit member
    obtain ⟨place, inside, value⟩ := List.getElem_of_mem member
    rw [List.length_take] at inside
    rw [List.getElem_take] at value
    cases bit with
    | false => rfl
    | true => exact absurd (bit_at place (by omega) value).1 (by omega)
  have back : ∀ bit ∈ (error.drop first).drop width, bit = false := by
    intro bit member
    obtain ⟨place, inside, value⟩ := List.getElem_of_mem member
    rw [List.length_drop, List.length_drop] at inside
    rw [List.getElem_drop, List.getElem_drop] at value
    cases bit with
    | false => rfl
    | true => exact absurd (bit_at (first + (width + place)) (by omega) value).2 (by omega)
  have split : error =
      error.take first ++ ((error.drop first).take width ++ (error.drop first).drop width) := by
    rw [List.take_append_drop, List.take_append_drop]
  have within : true ∈ (error.drop first).take width := by
    have somewhere := burst.nonzero
    rw [split, List.mem_append, List.mem_append] at somewhere
    rcases somewhere with early | inside | late
    · exact absurd (front true early) (by decide)
    · exact inside
    · exact absurd (back true late) (by decide)
  have short : ((error.drop first).take width).length ≤ width := by
    rw [List.length_take]
    exact Nat.min_le_left _ _
  have positive : 0 < width := by
    have some_bit := List.length_pos_of_mem within
    omega
  rw [split, residue_leading_zeros _ _ _ front, residue_append]
  exact feed_zeros_nonzero taps _ odd positive _ back
    (residue_short_nonzero taps odd _ short within)

/-- A burst no longer than the check word never leaves a valid message. -/
theorem burst_detected (taps : BitVec width) (odd : taps.getLsbD 0 = true)
    (message error : List Bool)
    (burst : Burst width (message ++ wireBits (residue taps message)) error) :
    residue taps ((corrupt (message ++ wireBits (residue taps message)) error).take
        message.length) ≠
      concatBits width ((corrupt (message ++ wireBits (residue taps message)) error).drop
        message.length) := by
  have length := burst.length
  rw [List.length_append, wire_bits_length] at length
  have size : ((corrupt (message ++ wireBits (residue taps message)) error).drop
      message.length).length = width := by
    simp only [corrupt, List.length_drop, List.length_zipWith, List.length_append,
      wire_bits_length]
    omega
  intro same
  have divisible := (residue_check taps odd _ _).mpr same.symm
  rw [wire_concat_bits _ size, List.take_append_drop, residue_corrupt _ _ _ burst.length,
    (residue_check taps odd message _).mpr rfl] at divisible
  have pattern : residue taps error = 0 := by simpa using divisible
  exact residue_burst taps odd _ error burst pattern

/-- A register as a polynomial, bit `i` being the coefficient of `X ^ i`. -/
noncomputable def registerPoly (register : BitVec width) : (ZMod 2)[X] :=
  ∑ index ∈ Finset.range width, if register.getLsbD index then X ^ index else 0

/-- A message as a polynomial, its first bit being the leading coefficient. -/
noncomputable def messagePoly (message : List Bool) : (ZMod 2)[X] :=
  message.foldl (fun poly bit => poly * X + if bit then 1 else 0) 0

noncomputable def generator (taps : BitVec width) : (ZMod 2)[X] :=
  X ^ width + registerPoly taps

theorem register_poly_coeff (register : BitVec width) (index : Nat) :
    (registerPoly register).coeff index = if register.getLsbD index then 1 else 0 := by
  simp only [registerPoly, finsetSum_coeff]
  by_cases inside : index < width
  · rw [Finset.sum_eq_single_of_mem index (Finset.mem_range.mpr inside)]
    · split_ifs <;> simp
    · intro other _ different
      split_ifs
      · simp [coeff_X_pow, Ne.symm different]
      · simp
  · have outside : register.getLsbD index = false :=
      BitVec.getLsbD_of_ge register index (by omega)
    rw [outside]
    apply Finset.sum_eq_zero
    intro other member
    have different : index ≠ other := by
      have bound := Finset.mem_range.mp member
      omega
    split_ifs
    · simp [coeff_X_pow, different]
    · simp

theorem register_poly_degree (register : BitVec width) :
    (registerPoly register).degree < width := by
  rw [degree_lt_iff_coeff_zero]
  intro index bound
  rw [register_poly_coeff, BitVec.getLsbD_of_ge register index bound]
  simp

theorem register_poly_injective (left right : BitVec width)
    (same : registerPoly left = registerPoly right) : left = right := by
  apply BitVec.eq_of_getLsbD_eq
  intro index _
  have coefficient := congrArg (fun poly => poly.coeff index) same
  simp only [register_poly_coeff] at coefficient
  cases leftBit : left.getLsbD index <;> cases rightBit : right.getLsbD index <;>
    simp [leftBit, rightBit] at coefficient ⊢

theorem generator_monic (taps : BitVec width) : (generator taps).Monic :=
  monic_X_pow_add (register_poly_degree taps)

theorem generator_degree (taps : BitVec width) : (generator taps).degree = width :=
  (degree_add_eq_left_of_degree_lt
    ((register_poly_degree taps).trans_eq (degree_X_pow width).symm)).trans
    (degree_X_pow width)

/-- One step multiplies by `X`, adds the message bit at `X ^ width` and
subtracts the generator when a bit leaves the register. -/
theorem register_poly_feed (positive : 0 < width) (taps register : BitVec width)
    (bit : Bool) :
    registerPoly (feed taps register bit) =
      registerPoly register * X + (if bit then 1 else 0) * X ^ width +
        (if register.msb ^^ bit then 1 else 0) * generator taps := by
  have two : (1 : ZMod 2) + 1 = 0 := CharTwo.add_self_eq_zero 1
  ext index
  have taken : ((if register.msb ^^ bit then taps else 0).getLsbD index) =
      ((register.msb ^^ bit) && taps.getLsbD index) := by
    cases register.msb ^^ bit <;> simp
  have scaled : ∀ (flag : Bool) (poly : (ZMod 2)[X]),
      ((if flag then 1 else 0) * poly).coeff index =
        (if flag then poly.coeff index else 0) := by
    intro flag poly
    cases flag <;> simp
  rw [register_poly_coeff, feed, BitVec.getLsbD_xor, BitVec.getLsbD_shiftLeft, taken]
  simp only [coeff_add, scaled, generator, register_poly_coeff, coeff_X_pow]
  cases index with
  | zero =>
      have notTop : (0 : Nat) ≠ width := by omega
      cases register.msb ^^ bit <;> cases taps.getLsbD 0 <;> simp [notTop]
  | succ index =>
      rw [coeff_mul_X, register_poly_coeff, Nat.add_sub_cancel]
      rcases Nat.lt_trichotomy (index + 1) width with below | top | above
      · have notTop : index + 1 ≠ width := by omega
        cases register.msb ^^ bit <;> cases taps.getLsbD (index + 1) <;>
          cases register.getLsbD index <;> simp [notTop, below, two]
      · have leaving : register.msb = register.getLsbD index := by
          rw [BitVec.msb_eq_getLsbD_last]
          congr 1
          omega
        have outside : taps.getLsbD (index + 1) = false :=
          BitVec.getLsbD_of_ge taps (index + 1) (by omega)
        rw [leaving, outside]
        cases register.getLsbD index <;> cases bit <;> simp [top, two]
      · have notTop : index + 1 ≠ width := by omega
        have notBelow : ¬index + 1 < width := by omega
        rw [BitVec.getLsbD_of_ge taps (index + 1) (by omega),
          BitVec.getLsbD_of_ge register index (by omega)]
        simp [notTop, notBelow]

/-- The register is congruent to the shifted message modulo the generator. -/
theorem residue_congruent (positive : 0 < width) (taps : BitVec width)
    (message : List Bool) :
    generator taps ∣ messagePoly message * X ^ width - registerPoly (residue taps message) := by
  induction message using List.reverseRecOn with
  | nil => simp [messagePoly, residue, registerPoly]
  | append_singleton message bit ih =>
      obtain ⟨quotient, division⟩ := ih
      have extended : messagePoly (message ++ [bit]) =
          messagePoly message * X + if bit then 1 else 0 := by
        simp [messagePoly]
      rw [residue_concat, register_poly_feed positive, extended]
      refine ⟨quotient * X - if (residue taps message).msb ^^ bit then 1 else 0, ?_⟩
      linear_combination X * division

/-- The check word is the remainder of the message times `X ^ width` by the
generator polynomial. -/
theorem residue_is_remainder (positive : 0 < width) (taps : BitVec width)
    (message : List Bool) :
    registerPoly (residue taps message) =
      (messagePoly message * X ^ width) %ₘ generator taps := by
  have small : (registerPoly (residue taps message)).degree < (generator taps).degree := by
    rw [generator_degree]
    exact register_poly_degree _
  obtain ⟨quotient, division⟩ := residue_congruent positive taps message
  have split : registerPoly (residue taps message) + generator taps * quotient =
      messagePoly message * X ^ width := by
    rw [← division]
    ring
  exact ((div_modByMonic_unique quotient _ (generator_monic taps) ⟨split, small⟩).2).symm

end MinionSubsystem.CyclicCode
