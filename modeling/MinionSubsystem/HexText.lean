import Mathlib.Data.List.GetD
import Mathlib.Data.List.Induction
import Mathlib.Tactic.Common
import Mathlib.Tactic.IntervalCases

/-!
# Numbers as hexadecimal text

Digits are written in upper case and read in either case. A field has a fixed
number of digits, the most significant first.
-/

namespace MinionSubsystem.HexText

set_option autoImplicit false

def hexDigit (number : Nat) : Char := "0123456789ABCDEF".toList.getD number '0'

def digitValue (c : Char) : Option Nat :=
  if 48 ≤ c.toNat ∧ c.toNat ≤ 57 then some (c.toNat - 48)
  else if 65 ≤ c.toNat ∧ c.toNat ≤ 70 then some (c.toNat - 55)
  else if 97 ≤ c.toNat ∧ c.toNat ≤ 102 then some (c.toNat - 87)
  else none

def hexField : Nat → Nat → List Char
  | 0, _ => []
  | width + 1, value => hexField width (value / 16) ++ [hexDigit (value % 16)]

/-- The digits of a number without leading zeros, `0` for zero. -/
def hexDigits (value : Nat) : List Char := (Nat.toDigits 16 value).map Char.toUpper

/-- The conversion `%X` with a width and a precision. -/
def formatX (width precision value : Nat) : List Char :=
  let digits := hexDigits value
  let number := List.replicate (precision - digits.length) '0' ++ digits
  List.replicate (width - number.length) ' ' ++ number

theorem digit_value_hex_digit (number : Nat) (small : number < 16) :
    digitValue (hexDigit number) = some number := by
  interval_cases number <;> rfl

theorem digit_value_bound (c : Char) (number : Nat) (digit : digitValue c = some number) :
    number < 16 := by
  unfold digitValue at digit
  split_ifs at digit with decimal upper lower
  all_goals
    have value := Option.some.inj digit
    omega

@[simp] theorem hex_field_length (width value : Nat) : (hexField width value).length = width := by
  induction width generalizing value with
  | zero => rfl
  | succ width ih => rw [hexField, List.length_append, ih, List.length_singleton]

theorem hex_field_zeros (width : Nat) : hexField width 0 = List.replicate width '0' := by
  induction width with
  | zero => rfl
  | succ width ih =>
      rw [hexField, Nat.zero_div, ih, List.replicate_succ']
      rfl

/-- A field is its leading digits and a field of the rest. -/
theorem hex_field_append (front back value : Nat) :
    hexField (front + back) value = hexField front (value / 16 ^ back) ++ hexField back value := by
  induction back generalizing value with
  | zero => simp [hexField]
  | succ back ih =>
      have power : value / 16 / 16 ^ back = value / 16 ^ (back + 1) := by
        rw [Nat.div_div_eq_div_mul, Nat.pow_succ, Nat.mul_comm]
      rw [← Nat.add_assoc, hexField, hexField, ih, power, List.append_assoc]

theorem hex_digits_small (value : Nat) (small : value < 16) :
    hexDigits value = [hexDigit value] := by
  interval_cases value <;> rfl

theorem hex_digits_split (value : Nat) (large : 16 ≤ value) :
    hexDigits value = hexDigits (value / 16) ++ [hexDigit (value % 16)] := by
  have small : value % 16 < 16 := Nat.mod_lt value (by decide)
  rw [← hex_digits_small _ small, hexDigits, hexDigits, hexDigits, ← List.map_append,
    Nat.toDigits_of_base_le (by decide) large, Nat.toDigits_of_lt_base small]

/-- Padded with zeros the digits of a number that fits are a field. -/
theorem padded_hex_digits (width value : Nat) (fits : value < 16 ^ (width + 1)) :
    List.replicate (width + 1 - (hexDigits value).length) '0' ++ hexDigits value =
      hexField (width + 1) value := by
  induction width generalizing value with
  | zero =>
      have small : value < 16 := by simpa using fits
      rw [hex_digits_small value small, hexField, Nat.mod_eq_of_lt small]
      rfl
  | succ width ih =>
      rw [hexField]
      by_cases small : value < 16
      · rw [hex_digits_small value small, Nat.div_eq_of_lt small, hex_field_zeros,
          Nat.mod_eq_of_lt small]
        rfl
      · have quotient : value / 16 < 16 ^ (width + 1) := by
          rw [Nat.pow_succ] at fits
          omega
        rw [← ih _ quotient, hex_digits_split value (by omega), List.length_append,
          List.length_singleton, List.append_assoc, Nat.add_sub_add_right]

/-- A number that fits is printed as a field. -/
theorem format_x_field (width precision value : Nat) (narrow : width ≤ precision + 1)
    (fits : value < 16 ^ (precision + 1)) :
    formatX width (precision + 1) value = hexField (precision + 1) value := by
  have padded := padded_hex_digits precision value fits
  have none : width - (hexField (precision + 1) value).length = 0 := by
    rw [hex_field_length]
    omega
  simp only [formatX, padded, none, List.replicate_zero, List.nil_append]

def hexValue (text : List Char) : Nat :=
  text.foldl (fun value c => 16 * value + (digitValue c).getD 0) 0

theorem hex_value_concat (text : List Char) (c : Char) :
    hexValue (text ++ [c]) = 16 * hexValue text + (digitValue c).getD 0 := by
  simp [hexValue]

theorem hex_value_field (width value : Nat) (fits : value < 16 ^ width) :
    hexValue (hexField width value) = value := by
  induction width generalizing value with
  | zero =>
      have zero : value = 0 := by simpa using fits
      rw [zero]
      rfl
  | succ width ih =>
      have quotient : value / 16 < 16 ^ width := by
        rw [Nat.pow_succ] at fits
        omega
      rw [hexField, hex_value_concat, ih _ quotient,
        digit_value_hex_digit _ (Nat.mod_lt value (by decide)), Option.getD_some]
      omega

theorem digit_lt (c : Char) : (digitValue c).getD 0 < 16 := by
  cases digit : digitValue c with
  | none => decide
  | some number => exact digit_value_bound c number digit

/-- Bit `n` of a number is in the digit that has `n / 4` digits behind it. -/
theorem hex_value_bit (text : List Char) (n : Nat) (inside : n / 4 < text.length) :
    (hexValue text).testBit n =
      ((digitValue (text.getD (text.length - 1 - n / 4) '0')).getD 0).testBit (n % 4) := by
  induction text using List.reverseRecOn generalizing n with
  | nil => exact absurd inside (Nat.not_lt_zero _)
  | append_singleton text c ih =>
      rw [List.length_append, List.length_singleton] at inside ⊢
      rw [hex_value_concat, show 16 = 2 ^ 4 by decide,
        Nat.testBit_two_pow_mul_add _ (digit_lt c)]
      by_cases last : n < 4
      · have place : text.length + 1 - 1 - n / 4 = text.length := by omega
        rw [if_pos last, place, List.getD_append_right _ _ _ _ (Nat.le_refl _), Nat.sub_self,
          Nat.mod_eq_of_lt last]
        rfl
      · have place : text.length + 1 - 1 - n / 4 = text.length - 1 - (n - 4) / 4 := by omega
        rw [if_neg last, ih (n - 4) (by omega), place,
          List.getD_append _ _ _ _ (by omega), show (n - 4) % 4 = n % 4 by omega]

end MinionSubsystem.HexText
