import MinionSubsystem.ClockedRun
import MinionSubsystem.DriverHandshake

/-!
# The card clock

`sd_clock_divider` counts cycles of `msoc_clk` and toggles its output when the count
equals `DIVIDER`. The comparison is for equality with a register that the software
may rewrite in any cycle, so a count that is already past the new value goes on to
255 and around. The software computes the value from a rate, with a 32-bit division
whose result is cut to the 8 bits of the register.
-/

namespace MinionSubsystem.CardClock

open MinionSubsystem.ClockedRun
open MinionSubsystem.DriverHandshake
open MinionSubsystem.MinionDriver
open MinionSubsystem.SdController

set_option autoImplicit false

structure Divider where
  clockDiv : BitVec 8
  sdClkO : Bool
  deriving DecidableEq

structure Inputs where
  rst : Bool
  divider : BitVec 8

def reset : Divider where
  clockDiv := 0
  sdClkO := false

def step (i : Inputs) (s : Divider) : Divider :=
  if i.rst then reset
  else if s.clockDiv = i.divider then { clockDiv := 0, sdClkO := !s.sdClkO }
  else { clockDiv := s.clockDiv + 1, sdClkO := s.sdClkO }

variable {i : Inputs} {s : Divider}

theorem step_toggles_iff (released : i.rst = false) :
    (step i s).sdClkO ≠ s.sdClkO ↔ s.clockDiv = i.divider := by
  rw [step, released, if_neg (by decide)]
  by_cases reached : s.clockDiv = i.divider
  · rw [if_pos reached]
    exact iff_of_true (Bool.not_ne_self s.sdClkO) reached
  · rw [if_neg reached]
    exact iff_of_false (fun changed => changed rfl) reached

theorem step_counts (released : i.rst = false) (steady : (step i s).sdClkO = s.sdClkO) :
    s.clockDiv ≠ i.divider ∧ (step i s).clockDiv = s.clockDiv + 1 := by
  have apart : s.clockDiv ≠ i.divider := fun reached =>
    (step_toggles_iff released).mpr reached steady
  rw [step, released, if_neg (by decide), if_neg apart]
  exact ⟨apart, rfl⟩

theorem step_restarts (opens : i.rst = true ∨ (step i s).sdClkO ≠ s.sdClkO) :
    (step i s).clockDiv = 0 := by
  by_cases asserted : i.rst = true
  · rw [step, if_pos asserted]
    rfl
  · have released : i.rst = false := Bool.eq_false_iff.mpr asserted
    have reached := (step_toggles_iff released).mp (opens.resolve_left asserted)
    rw [step, if_neg asserted, if_pos reached]

/-- A completed half-period of `SD_CLK`: it begins behind a reset or a change of the
clock, the clock is steady from `first` to `last`, and the edge of `last` changes it. -/
structure HalfPeriod (inputs : Nat → Inputs) (first last : Nat) : Prop where
  opened : ∀ earlier, first = earlier + 1 → (inputs earlier).rst = true ∨
    (run step reset inputs first).sdClkO ≠ (run step reset inputs earlier).sdClkO
  ordered : first ≤ last
  released : ∀ cycle, first ≤ cycle → cycle ≤ last → (inputs cycle).rst = false
  steady : ∀ cycle, first ≤ cycle → cycle < last →
    (run step reset inputs (cycle + 1)).sdClkO = (run step reset inputs cycle).sdClkO
  closed : (run step reset inputs (last + 1)).sdClkO ≠ (run step reset inputs last).sdClkO

section HalfPeriods

variable {inputs : Nat → Inputs} {first last : Nat}

theorem half_period_starts (half : HalfPeriod inputs first last) :
    (run step reset inputs first).clockDiv = 0 := by
  cases first with
  | zero => rfl
  | succ earlier => exact step_restarts (half.opened earlier rfl)

/-- Within a half-period `clockDiv` is its age, as far as 8 bits go. -/
theorem half_period_count (half : HalfPeriod inputs first last) (age : Nat)
    (inside : first + age ≤ last) :
    (run step reset inputs (first + age)).clockDiv = BitVec.ofNat 8 age := by
  induction age with
  | zero => exact half_period_starts half
  | succ age ih =>
      have steady := half.steady (first + age) (by omega) (by omega)
      have released := half.released (first + age) (by omega) (by omega)
      have counted := (step_counts released steady).2
      rw [ih (by omega)] at counted
      rw [BitVec.ofNat_add]
      exact counted

theorem half_period_ends (half : HalfPeriod inputs first last) :
    (inputs last).divider = BitVec.ofNat 8 (last - first) := by
  have count := half_period_count half (last - first) (by have := half.ordered; omega)
  rw [Nat.add_sub_cancel' half.ordered] at count
  have released := half.released last half.ordered (Nat.le_refl _)
  rw [← count]
  exact ((step_toggles_iff released).mp half.closed).symm

end HalfPeriods

/-- A half-period lasts one cycle more than `DIVIDER` in its last cycle. -/
def FollowsDivider (inputs : Nat → Inputs) (first last : Nat) : Prop :=
  last + 1 - first = (inputs last).divider.toNat + 1

/-- `DIVIDER` is once the number of cycles since `first`. -/
def DividerMet (inputs : Nat → Inputs) (first : Nat) : Prop :=
  ∃ age, (inputs (first + age)).divider.toNat = age

/-- Whatever is written to the divider register and whenever: a completed half-period has
the length the register asks for if and only if the register once holds its age. -/
theorem follows_divider_iff (inputs : Nat → Inputs) (first last : Nat)
    (half : HalfPeriod inputs first last) :
    FollowsDivider inputs first last ↔ DividerMet inputs first := by
  have ordered := half.ordered
  have size : (inputs last).divider.toNat = (last - first) % 256 := by
    rw [half_period_ends half, BitVec.toNat_ofNat]
  rw [FollowsDivider]
  constructor
  · intro follows
    refine ⟨last - first, ?_⟩
    rw [Nat.add_sub_cancel' ordered]
    omega
  · rintro ⟨age, met⟩
    have small := (inputs (first + age)).divider.isLt
    rcases Nat.lt_trichotomy (first + age) last with before | here | behind
    · -- the clock would have changed there
      have count := half_period_count half age (by omega)
      have released := half.released (first + age) (by omega) (by omega)
      have steady := half.steady (first + age) (by omega) before
      have value : BitVec.ofNat 8 age = (inputs (first + age)).divider := by
        apply BitVec.eq_of_toNat_eq
        rw [BitVec.toNat_ofNat, met]
        exact Nat.mod_eq_of_lt (by omega)
      exact absurd (count.trans value) (step_counts released steady).1
    · rw [here] at met
      omega
    · omega

private def loweredInputs (cycle : Nat) : Inputs where
  rst := false
  divider := if cycle < 150 then 200 else 144

private theorem lowered_half : HalfPeriod loweredInputs 0 400 where
  opened := fun earlier first => absurd first (Nat.succ_ne_zero earlier).symm
  ordered := by decide
  released := fun _ _ _ => rfl
  steady := by
    have steady : ∀ cycle, cycle < 400 →
        (run step reset loweredInputs (cycle + 1)).sdClkO =
          (run step reset loweredInputs cycle).sdClkO := by decide +kernel
    exact fun cycle _ before => steady cycle before
  closed := by decide +kernel

/-- The half-period takes 401 cycles instead of 145. -/
theorem lowered_divider_overruns :
    HalfPeriod loweredInputs 0 400 ∧ ¬FollowsDivider loweredInputs 0 400 :=
  ⟨lowered_half, by
    rw [FollowsDivider]
    decide⟩

private def steadyInputs (_ : Nat) : Inputs where
  rst := false
  divider := 2

theorem follows_divider_iff_steady :
    FollowsDivider steadyInputs 3 5 ↔ DividerMet steadyInputs 3 :=
  follows_divider_iff steadyInputs 3 5
    { opened := by
        intro earlier first
        obtain rfl : earlier = 2 := by omega
        exact Or.inr (by decide)
      ordered := by decide
      released := fun _ _ _ => rfl
      steady := by
        intro cycle after before
        have here : cycle = 3 ∨ cycle = 4 := by omega
        rcases here with rfl | rfl <;> rfl
      closed := by decide }

def msocClk : Nat := 40000000

def requestedRate (val : BitVec 32) : Nat := (val >>> uartDividerShift).toNat

/-- `clock_divider_sd_clk` behind `minion_uart_write(val, CLOCK_CONTROL)`. -/
def heldDivider (v : Statics) (regs : Registers) (val : BitVec 32) : BitVec 8 :=
  (regsAfter (minionUartWrite v val .clockControl) regs).clockDividerSdClk

/-- A clock whose half-periods last `divider + 1` cycles is not faster than `rate`. -/
def KeepsRate (divider : BitVec 8) (rate : Nat) : Prop :=
  msocClk ≤ 2 * (divider.toNat + 1) * rate

theorem held_divider_value (v : Statics) (regs : Registers) (val : BitVec 32)
    (some : requestedRate val ≠ 0) :
    (heldDivider v regs val).toNat = 40000000 / requestedRate val % 256 := by
  have rated : val >>> uartDividerShift ≠ 0 := by
    intro none
    rw [requestedRate, none] at some
    exact some rfl
  have stored : heldDivider v regs val =
      (40000000 / (val >>> uartDividerShift)).extractLsb' 0 8 := by
    simp only [heldDivider, minionUartWrite, rated, if_false]
    rfl
  rw [stored, BitVec.extractLsb'_toNat, BitVec.toNat_udiv]
  rfl

/-- The bounds are where the quotient drops below 256 and where it is 511. -/
theorem divided_rate_iff (rate : Nat) (some : rate ≠ 0) :
    40000000 ≤ 2 * (40000000 / rate % 256 + 1) * rate ↔
      156250 < rate ∨ 78125 < rate ∧ rate < 78278 := by
  have positive : 0 < rate := Nat.pos_of_ne_zero some
  have below : 40000000 / rate * rate ≤ 40000000 := Nat.div_mul_le_self _ _
  have above : 40000000 < 40000000 / rate * rate + rate := Nat.lt_div_mul_add positive
  generalize 40000000 / rate = quotient at below above ⊢
  by_cases fits : quotient < 256
  · have fast : 156250 < rate := by
      by_contra slow
      have most : quotient * rate ≤ 255 * 156250 := Nat.mul_le_mul (by omega) (by omega)
      omega
    rw [Nat.mod_eq_of_lt fits, show 2 * (quotient + 1) * rate =
      2 * (quotient * rate) + 2 * rate by ring]
    exact iff_of_true (by omega) (Or.inl fast)
  by_cases cut : quotient < 512
  · have rest : quotient % 256 = quotient - 256 := by omega
    have slow : rate ≤ 156250 := by
      by_contra fast
      have least : 256 * 156251 ≤ quotient * rate := Nat.mul_le_mul (by omega) (by omega)
      omega
    by_cases last : quotient = 511
    · rw [last] at below above ⊢
      exact iff_of_true (by omega) (Or.inr (by omega))
    · have less : 2 * (quotient % 256 + 1) * rate < 40000000 := by
        by_cases next : quotient = 510
        · rw [next] at below ⊢
          omega
        · have most : 2 * (quotient % 256 + 1) * rate ≤ (quotient - 1) * rate :=
            Nat.mul_le_mul_right rate (by omega)
          rw [Nat.sub_mul] at most
          omega
      have apart : ¬(156250 < rate ∨ 78125 < rate ∧ rate < 78278) := by
        rintro (fast | ⟨least, most⟩)
        · omega
        · have high : quotient * rate ≤ 510 * rate := Nat.mul_le_mul_right rate (by omega)
          omega
      exact iff_of_false (by omega) apart
  · have slow : rate ≤ 78125 := by
      by_contra fast
      have least : 512 * 78126 ≤ quotient * rate := Nat.mul_le_mul (by omega) (by omega)
      omega
    refine iff_of_false ?_ (by omega)
    by_cases exactly : rate = 78125
    · rw [exactly] at below above ⊢
      have quotientIs : quotient = 512 := by omega
      rw [quotientIs]
      decide
    · have most : 2 * (quotient % 256 + 1) * rate ≤ 512 * rate :=
        Nat.mul_le_mul_right rate (by omega)
      omega

/-- The card clock keeps the requested rate if and only if the quotient fits the register,
or happens to be cut to 255. -/
theorem keeps_rate_iff (v : Statics) (regs : Registers) (val : BitVec 32)
    (some : requestedRate val ≠ 0) :
    KeepsRate (heldDivider v regs val) (requestedRate val) ↔
      156250 < requestedRate val ∨ 78125 < requestedRate val ∧ requestedRate val < 78278 := by
  rw [KeepsRate, held_divider_value v regs val some]
  exact divided_rate_iff (requestedRate val) some

theorem keeps_rate_iff_fast :
    KeepsRate
        (heldDivider { minionUartHostControl := 0, minionUartTransferMode := 0 } powerUp.regs
          0x0C350006)
        (requestedRate 0x0C350006) ↔
      156250 < requestedRate 0x0C350006 ∨
        78125 < requestedRate 0x0C350006 ∧ requestedRate 0x0C350006 < 78278 :=
  keeps_rate_iff _ _ _ (by decide)

/-- The 100 kHz of the driver's own start-up become 137.9 kHz. -/
theorem start_up_rate_exceeded :
    requestedRate 0x0186A001 = 100000 ∧
      ¬KeepsRate
        (heldDivider { minionUartHostControl := 0, minionUartTransferMode := 0 } powerUp.regs
          0x0186A001)
        (requestedRate 0x0186A001) := by
  refine ⟨by decide, ?_⟩
  rw [KeepsRate]
  decide

end MinionSubsystem.CardClock
