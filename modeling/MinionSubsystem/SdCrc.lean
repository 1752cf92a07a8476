import Mathlib.Tactic.IntervalCases
import MinionSubsystem.BitStream
import MinionSubsystem.CyclicCode

/-!
# The CRC generators `sd_crc_16` and `sd_crc_7`

`sdCrc16Edge` and `sdCrc7Edge` are the registers of the two modules after one
rising edge of `BITSTRB`, assignment by assignment. They are one division step
of the cyclic codes `x^16 + x^12 + x^5 + 1` and `x^7 + x^3 + 1`.
-/

namespace MinionSubsystem.SdCrc

open MinionSubsystem.BitStream
open MinionSubsystem.CyclicCode
open Polynomial

set_option autoImplicit false

/-- `sd_crc_16`: the list gives `CRC[15]` down to `CRC[0]`. -/
def sdCrc16Edge (bitval enable clear : Bool) (crc : BitVec 16) : BitVec 16 :=
  let inv := bitval ^^ crc.getLsbD 15
  if clear then 0
  else if enable then
    concatBits 16
      [crc.getLsbD 14, crc.getLsbD 13, crc.getLsbD 12, crc.getLsbD 11 ^^ inv,
        crc.getLsbD 10, crc.getLsbD 9, crc.getLsbD 8, crc.getLsbD 7,
        crc.getLsbD 6, crc.getLsbD 5, crc.getLsbD 4 ^^ inv, crc.getLsbD 3,
        crc.getLsbD 2, crc.getLsbD 1, crc.getLsbD 0, inv]
  else crc

/-- `sd_crc_7`: the list gives `CRC[6]` down to `CRC[0]`. -/
def sdCrc7Edge (bitval enable clear : Bool) (crc : BitVec 7) : BitVec 7 :=
  let inv := bitval ^^ crc.getLsbD 6
  if clear then 0
  else if enable then
    concatBits 7
      [crc.getLsbD 5, crc.getLsbD 4, crc.getLsbD 3, crc.getLsbD 2 ^^ inv,
        crc.getLsbD 1, crc.getLsbD 0, inv]
  else crc

def taps16 : BitVec 16 := 0x1021#16

def taps7 : BitVec 7 := 0x09#7

def crc16 (message : List Bool) : BitVec 16 := residue taps16 message

def crc7 (message : List Bool) : BitVec 7 := residue taps7 message

@[simp] theorem sd_crc_16_clear (bitval enable : Bool) (crc : BitVec 16) :
    sdCrc16Edge bitval enable true crc = 0 := rfl

@[simp] theorem sd_crc_16_hold (bitval : Bool) (crc : BitVec 16) :
    sdCrc16Edge bitval false false crc = crc := rfl

@[simp] theorem sd_crc_7_clear (bitval enable : Bool) (crc : BitVec 7) :
    sdCrc7Edge bitval enable true crc = 0 := rfl

@[simp] theorem sd_crc_7_hold (bitval : Bool) (crc : BitVec 7) :
    sdCrc7Edge bitval false false crc = crc := rfl

theorem sd_crc_16_shift (bitval : Bool) (crc : BitVec 16) :
    sdCrc16Edge bitval true false crc = feed taps16 crc bitval := by
  have top : crc.msb = crc.getLsbD 15 := BitVec.msb_eq_getLsbD_last crc
  apply BitVec.eq_of_getLsbD_eq
  intro index bound
  simp only [sdCrc16Edge, feed, taps16, top, Bool.xor_comm (crc.getLsbD 15) bitval,
    Bool.false_eq_true, if_true, if_false]
  rw [concat_bits_getLsbD _ _ (by simpa using bound) bound]
  cases bitval ^^ crc.getLsbD 15 <;> interval_cases index <;> simp

theorem sd_crc_7_shift (bitval : Bool) (crc : BitVec 7) :
    sdCrc7Edge bitval true false crc = feed taps7 crc bitval := by
  have top : crc.msb = crc.getLsbD 6 := BitVec.msb_eq_getLsbD_last crc
  apply BitVec.eq_of_getLsbD_eq
  intro index bound
  simp only [sdCrc7Edge, feed, taps7, top, Bool.xor_comm (crc.getLsbD 6) bitval,
    Bool.false_eq_true, if_true, if_false]
  rw [concat_bits_getLsbD _ _ (by simpa using bound) bound]
  cases bitval ^^ crc.getLsbD 6 <;> interval_cases index <;> simp

/-- An enabled `sd_crc_16` extends the message it has divided by one bit. -/
theorem sd_crc_16_extends (message : List Bool) (bitval : Bool) :
    sdCrc16Edge bitval true false (crc16 message) = crc16 (message ++ [bitval]) := by
  rw [sd_crc_16_shift, crc16, crc16, residue_concat]

theorem sd_crc_7_extends (message : List Bool) (bitval : Bool) :
    sdCrc7Edge bitval true false (crc7 message) = crc7 (message ++ [bitval]) := by
  rw [sd_crc_7_shift, crc7, crc7, residue_concat]

theorem generator_taps16 : generator taps16 = X ^ 16 + X ^ 12 + X ^ 5 + 1 := by
  have taps : registerPoly taps16 = X ^ 12 + X ^ 5 + 1 := by
    simp [registerPoly, taps16, Finset.sum_range_succ]
    ring
  rw [generator, taps]
  ring

theorem generator_taps7 : generator taps7 = X ^ 7 + X ^ 3 + 1 := by
  have taps : registerPoly taps7 = X ^ 3 + 1 := by
    simp [registerPoly, taps7, Finset.sum_range_succ]
    ring
  rw [generator, taps]
  ring

/-- The only 16-bit check word of a message: the remainder of its polynomial
times `x^16` by the CRC-16 generator. -/
theorem crc_16_iff_remainder (message : List Bool) (check : BitVec 16) :
    check = crc16 message ↔
      registerPoly check =
        (messagePoly message * X ^ 16) %ₘ (X ^ 16 + X ^ 12 + X ^ 5 + 1) := by
  rw [← generator_taps16, ← residue_is_remainder (by decide) taps16 message]
  exact ⟨congrArg registerPoly, register_poly_injective _ _⟩

theorem crc_7_iff_remainder (message : List Bool) (check : BitVec 7) :
    check = crc7 message ↔
      registerPoly check =
        (messagePoly message * X ^ 7) %ₘ (X ^ 7 + X ^ 3 + 1) := by
  rw [← generator_taps7, ← residue_is_remainder (by decide) taps7 message]
  exact ⟨congrArg registerPoly, register_poly_injective _ _⟩

/-- CRC-16 of the digits `123456789` as ASCII, the published check value. -/
example : crc16 ((List.range 9).flatMap fun digit =>
    (List.range 8).map (BitVec.ofNat 8 (0x31 + digit)).getMsbD) = 0x31C3#16 := by
  decide +kernel

end MinionSubsystem.SdCrc
