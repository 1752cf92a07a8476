import MinionSubsystem.ClockedRun

/-!
# The text screen

The counters of `fstore2.v`. A line has 2101 clocks, a frame 789 lines. The colours and
the memories behind the address are left out.
-/

namespace MinionSubsystem.TextScreen

open MinionSubsystem.ClockedRun

set_option autoImplicit false

structure Screen where
  hreg : BitVec 12
  vreg : BitVec 12
  hstart : Bool
  hsyn : Bool
  hstop : Bool
  vstart : Bool
  vstop : Bool
  vblank : Bool
  blank : Bool
  bitmappedPixel : Bool
  offhreg : BitVec 7
  scrollh : BitVec 7
  offpixel : BitVec 3
  offvreg : BitVec 7
  scrollv : BitVec 7
  vrow : BitVec 4
  scroll : BitVec 5
  deriving DecidableEq, Repr

structure Buttons where
  irst : Bool
  north : Bool
  south : Bool
  east : Bool
  west : Bool
  center : Bool
  deriving DecidableEq, Repr

def reset : Screen :=
  { hreg := 0, vreg := 0, hstart := false, hsyn := false, hstop := false, vstart := false,
    vstop := false, vblank := false, blank := false, bitmappedPixel := false, offhreg := 0,
    scrollh := 0, offpixel := 0, offvreg := 0, scrollv := 0, vrow := 0, scroll := 0 }

/-- The assignments are nonblocking: they read `old` and write `s`. -/
def horizontal (old s : Screen) : Screen :=
  { s with
    hreg := if old.hstop then 0 else old.hreg + 1
    hstart := decide (old.hreg = 2048)
    hsyn := if old.hstart then true else if old.hreg = 2048 + 20 then false else old.hsyn
    hstop := decide (old.hreg = 2100 - 1) }

/-- The offsets at the end of a frame. Of two assignments to one register the later one counts. -/
def scrolled (buttons : Buttons) (old s : Screen) : Screen :=
  { s with
    scroll := BitVec.ofBool buttons.north ++ BitVec.ofBool buttons.south ++
      BitVec.ofBool buttons.east ++ BitVec.ofBool buttons.west ++ BitVec.ofBool buttons.center
    scrollv :=
      if buttons.center && !old.scroll.getLsbD 0 then 0
      else if decide (old.scrollv < 32) && buttons.south && !old.scroll.getLsbD 3 then
        old.scrollv + 4
      else if decide (0 < old.scrollv) && buttons.north && !old.scroll.getLsbD 4 then
        old.scrollv - 4
      else old.scrollv
    scrollh :=
      if buttons.center && !old.scroll.getLsbD 0 then 0
      else if decide (0 < old.scrollh) && buttons.west && !old.scroll.getLsbD 1 then
        old.scrollh - 4
      else if decide (old.scrollh < 96) && buttons.east && !old.scroll.getLsbD 2 then
        old.scrollh + 4
      else old.scrollh }

def vertical (buttons : Buttons) (old s : Screen) : Screen :=
  if old.hstop then
    let s :=
      if old.vstop then scrolled buttons old { s with vreg := 0 }
      else { s with vreg := old.vreg + 1 }
    { s with
      vstart := decide (old.vreg = 768)
      vstop := decide (old.vreg = 768 + 19) }
  else s

def inRows (old : Screen) : Bool := decide (32 ≤ old.vreg) && decide (old.vreg < 32 + 768)

def inColumns (old : Screen) : Bool :=
  decide (128 * 3 ≤ old.hreg) && decide (old.hreg < 128 * 3 + 256 * 6)

def offsets (old s : Screen) : Screen :=
  if inRows old then
    if inColumns old then
      let s :=
        if old.hreg.getLsbD 0 && old.hreg.getLsbD 1 then
          if old.offpixel = 5 then { s with offpixel := 0, offhreg := old.offhreg + 1 }
          else { s with offpixel := old.offpixel + 1 }
        else s
      { s with bitmappedPixel := true }
    else
      let s := { s with offpixel := 0, offhreg := old.scrollh }
      let s :=
        if old.hstop && old.vreg.getLsbD 0 then
          if old.vrow = 11 then { s with vrow := 0, offvreg := old.offvreg + 1 }
          else { s with vrow := old.vrow + 1 }
        else s
      { s with bitmappedPixel := false }
  else { s with vrow := 0, offvreg := old.scrollv, bitmappedPixel := false }

def clock (buttons : Buttons) (old : Screen) : Screen :=
  if buttons.irst then reset
  else
    let s := vertical buttons old (horizontal old old)
    let s := { s with vblank := decide (old.vreg < 10) || decide (768 + 10 ≤ old.vreg) }
    let s := offsets old s
    { s with blank := old.hsyn || old.vstart || old.vblank }

/-- `{offvreg[10:5], offhreg[12:6]}`, the lowest bit of `offvreg` being its bit 5. -/
def addra (s : Screen) : BitVec 13 := s.offvreg.extractLsb' 0 6 ++ s.offhreg

def stateAt (buttons : Nat → Buttons) : Nat → Screen := run clock reset buttons

section Clock

variable (buttons : Buttons) (s : Screen)

theorem vertical_kept (old : Screen) :
    (vertical buttons old s).hreg = s.hreg ∧ (vertical buttons old s).hstop = s.hstop ∧
      (vertical buttons old s).offhreg = s.offhreg ∧
      (vertical buttons old s).offpixel = s.offpixel ∧
      (vertical buttons old s).offvreg = s.offvreg ∧ (vertical buttons old s).vrow = s.vrow := by
  unfold vertical
  split_ifs <;> exact ⟨rfl, rfl, rfl, rfl, rfl, rfl⟩

theorem offsets_kept (old : Screen) :
    (offsets old s).hreg = s.hreg ∧ (offsets old s).hstop = s.hstop ∧
      (offsets old s).vreg = s.vreg ∧ (offsets old s).vstop = s.vstop ∧
      (offsets old s).scrollh = s.scrollh ∧ (offsets old s).scrollv = s.scrollv ∧
      (offsets old s).scroll = s.scroll := by
  unfold offsets
  split_ifs <;> exact ⟨rfl, rfl, rfl, rfl, rfl, rfl, rfl⟩

variable (running : buttons.irst = false)

include running

theorem clock_horizontal :
    (clock buttons s).hreg = (if s.hstop then 0 else s.hreg + 1) ∧
      (clock buttons s).hstop = decide (s.hreg = 2099) := by
  obtain ⟨hreg, hstop, _⟩ := vertical_kept buttons (horizontal s s) s
  rw [clock, if_neg (by rw [running]; exact Bool.false_ne_true)]
  dsimp only
  rw [(offsets_kept _ s).1, (offsets_kept _ s).2.1]
  exact ⟨hreg, hstop⟩

theorem clock_vertical :
    (clock buttons s).vreg =
        (if s.hstop then (if s.vstop then 0 else s.vreg + 1) else s.vreg) ∧
      (clock buttons s).vstop = if s.hstop then decide (s.vreg = 787) else s.vstop := by
  rw [clock, if_neg (by rw [running]; exact Bool.false_ne_true)]
  dsimp only
  rw [(offsets_kept _ s).2.2.1, (offsets_kept _ s).2.2.2.1]
  unfold vertical
  split_ifs <;> exact ⟨rfl, rfl⟩

/-- The window moves at the end of a frame only. -/
theorem clock_scroll (inside : ¬(s.hstop = true ∧ s.vstop = true)) :
    (clock buttons s).scrollh = s.scrollh ∧ (clock buttons s).scrollv = s.scrollv ∧
      (clock buttons s).scroll = s.scroll := by
  obtain ⟨_, _, _, _, scrollh, scrollv, scroll⟩ := offsets_kept
    { vertical buttons s (horizontal s s) with
      vblank := decide (s.vreg < 10) || decide (768 + 10 ≤ s.vreg) } s
  rw [clock, if_neg (by rw [running]; exact Bool.false_ne_true)]
  dsimp only
  rw [scrollh, scrollv, scroll]
  unfold vertical
  split_ifs with line frame
  · exact absurd ⟨line, frame⟩ inside
  · exact ⟨rfl, rfl, rfl⟩
  · exact ⟨rfl, rfl, rfl⟩

theorem clock_scrolled (line : s.hstop = true) (frame : s.vstop = true) :
    (clock buttons s).scrollh = (scrolled buttons s s).scrollh ∧
      (clock buttons s).scrollv = (scrolled buttons s s).scrollv := by
  obtain ⟨_, _, _, _, scrollh, scrollv, _⟩ := offsets_kept
    { vertical buttons s (horizontal s s) with
      vblank := decide (s.vreg < 10) || decide (768 + 10 ≤ s.vreg) } s
  rw [clock, if_neg (by rw [running]; exact Bool.false_ne_true)]
  dsimp only
  rw [scrollh, scrollv, vertical, if_pos line, if_pos frame]
  exact ⟨rfl, rfl⟩

theorem clock_offsets :
    (clock buttons s).offhreg = (offsets s s).offhreg ∧
      (clock buttons s).offpixel = (offsets s s).offpixel ∧
      (clock buttons s).offvreg = (offsets s s).offvreg ∧
      (clock buttons s).vrow = (offsets s s).vrow := by
  obtain ⟨_, _, offhreg, offpixel, offvreg, vrow⟩ := vertical_kept buttons (horizontal s s) s
  rw [clock, if_neg (by rw [running]; exact Bool.false_ne_true)]
  unfold offsets
  split_ifs <;> exact ⟨by first | rfl | exact offhreg, by first | rfl | exact offpixel,
    by first | rfl | exact offvreg, by first | rfl | exact vrow⟩

end Clock

structure Counting (s : Screen) : Prop where
  hreg : s.hreg.toNat ≤ 2100
  hstop : s.hstop = decide (s.hreg.toNat = 2100)
  vreg : s.vreg.toNat ≤ 788
  vstop : s.vstop = decide (s.vreg.toNat = 788)

theorem counting_reset : Counting reset := ⟨by decide, by decide, by decide, by decide⟩

/-- What a clock does to the counters. -/
theorem counting_next (buttons : Buttons) (s : Screen) (running : buttons.irst = false)
    (counting : Counting s) :
    (clock buttons s).hreg.toNat = (if s.hreg.toNat = 2100 then 0 else s.hreg.toNat + 1) ∧
      (clock buttons s).vreg.toNat =
        if s.hreg.toNat = 2100 then (if s.vreg.toNat = 788 then 0 else s.vreg.toNat + 1)
        else s.vreg.toNat := by
  have line := counting.hreg
  have frame := counting.vreg
  obtain ⟨hreg, _⟩ := clock_horizontal buttons s running
  obtain ⟨vreg, _⟩ := clock_vertical buttons s running
  rw [hreg, vreg, counting.hstop, counting.vstop]
  simp only [decide_eq_true_eq]
  constructor
  · split_ifs with last
    · rfl
    · bv_omega
  · split_ifs with last bottom
    · rfl
    · bv_omega
    · rfl

theorem counting_step (buttons : Buttons) (s : Screen) (counting : Counting s) :
    Counting (clock buttons s) := by
  cases running : buttons.irst with
  | true =>
      rw [clock, if_pos running]
      exact counting_reset
  | false =>
      obtain ⟨hreg, vreg⟩ := counting_next buttons s running counting
      obtain ⟨_, hstop⟩ := clock_horizontal buttons s running
      obtain ⟨_, vstop⟩ := clock_vertical buttons s running
      have line := counting.hreg
      have frame := counting.vreg
      constructor
      · rw [hreg]
        split_ifs <;> omega
      · have value : s.hreg = 2099 ↔ s.hreg.toNat = 2099 := BitVec.toNat_inj.symm
        rw [hstop, hreg, decide_eq_decide, value]
        by_cases last : s.hreg.toNat = 2100
        · rw [if_pos last]
          omega
        · rw [if_neg last]
          omega
      · rw [vreg]
        split_ifs <;> omega
      · have value : s.vreg = 787 ↔ s.vreg.toNat = 787 := BitVec.toNat_inj.symm
        rw [vstop, vreg, counting.hstop, counting.vstop]
        simp only [decide_eq_true_eq]
        by_cases last : s.hreg.toNat = 2100
        · rw [if_pos last, if_pos last, decide_eq_decide, value]
          by_cases bottom : s.vreg.toNat = 788
          · rw [if_pos bottom]
            omega
          · rw [if_neg bottom]
            omega
        · rw [if_neg last, if_neg last]

/-- After some ticks an offset has counted the cells and a second counter the parts of one. -/
def Counted (base offset : BitVec 7) (part size ticks : Nat) : Prop :=
  offset = base + BitVec.ofNat 7 (ticks / size) ∧ part = ticks % size

theorem counted_tick {base offset : BitVec 7} {part size ticks : Nat}
    (counted : Counted base offset part size ticks) (more : part + 1 < size) :
    Counted base offset (part + 1) size (ticks + 1) := by
  obtain ⟨cells, parts⟩ := counted
  have split : ticks + 1 = size * (ticks / size) + (part + 1) := by
    rw [parts, ← Nat.add_assoc, Nat.div_add_mod]
  have positive : 0 < size := by omega
  rw [Counted, cells, split, Nat.mul_add_div positive, Nat.div_eq_of_lt more, Nat.add_zero,
    Nat.mul_add_mod, Nat.mod_eq_of_lt more]
  exact ⟨rfl, rfl⟩

theorem counted_wrap {base offset : BitVec 7} {part size ticks : Nat}
    (counted : Counted base offset part size ticks) (last : part + 1 = size) :
    Counted base (offset + 1) 0 size (ticks + 1) := by
  obtain ⟨cells, parts⟩ := counted
  have split : ticks + 1 = size * (ticks / size + 1) := by
    rw [Nat.mul_add, Nat.mul_one]
    conv_rhs => rw [← last, ← Nat.add_assoc, last, parts, Nat.div_add_mod]
  have positive : 0 < size := by omega
  rw [Counted, cells, split, Nat.mul_div_cancel_left _ positive, Nat.mul_mod_right,
    BitVec.ofNat_add, ← BitVec.add_assoc]
  exact ⟨rfl, rfl⟩

/-- The column counters of the window at a distance from its left edge: six pixels of four clocks
are a cell. -/
def AtColumn (s : Screen) (distance : Nat) : Prop :=
  Counted s.scrollh s.offhreg s.offpixel.toNat 6 (distance / 4)

/-- The row counters of the window at a distance from its upper edge: twelve rows of two lines
are a cell. -/
def AtRow (s : Screen) (distance : Nat) : Prop :=
  Counted s.scrollv s.offvreg s.vrow.toNat 12 (distance / 2)

structure Addressing (s : Screen) : Prop where
  columns : 32 ≤ s.vreg.toNat → 384 ≤ s.hreg.toNat → s.hreg.toNat ≤ 1920 →
    AtColumn s (s.hreg.toNat - 384)
  rows : 32 ≤ s.vreg.toNat → AtRow s (s.vreg.toNat - 32)

theorem addressing_reset : Addressing reset :=
  ⟨fun low => absurd low (by decide), fun low => absurd low (by decide)⟩

section Offsets

variable (s : Screen)

theorem in_rows_iff (frame : s.vreg.toNat ≤ 788) : inRows s = true ↔ 32 ≤ s.vreg.toNat := by
  have upper : s.vreg < 32 + 768 := by
    change s.vreg.toNat < 800
    omega
  rw [inRows, Bool.and_eq_true, decide_eq_true_eq, decide_eq_true_eq, and_iff_left upper]
  rfl

theorem in_columns_iff : inColumns s = true ↔ 384 ≤ s.hreg.toNat ∧ s.hreg.toNat < 1920 := by
  rw [inColumns, Bool.and_eq_true, decide_eq_true_eq, decide_eq_true_eq]
  rfl

/-- Every fourth clock in the window is the last one of a pixel. -/
theorem pixel_end :
    (s.hreg.getLsbD 0 && s.hreg.getLsbD 1) = true ↔ s.hreg.toNat % 4 = 3 := by
  rw [Bool.and_eq_true, BitVec.getLsbD, BitVec.getLsbD, Nat.testBit_eq_decide_div_mod_eq,
    Nat.testBit_eq_decide_div_mod_eq, decide_eq_true_eq, decide_eq_true_eq]
  omega

theorem odd_line : s.vreg.getLsbD 0 = true ↔ s.vreg.toNat % 2 = 1 := by
  rw [BitVec.getLsbD, Nat.testBit_eq_decide_div_mod_eq, decide_eq_true_eq]
  omega

/-- A clock in the window counts the pixels. -/
theorem offsets_column (rows : inRows s = true) (columns : inColumns s = true) (distance : Nat)
    (place : s.hreg.toNat = 384 + distance) (before : AtColumn s distance) :
    Counted s.scrollh (offsets s s).offhreg (offsets s s).offpixel.toNat 6
      ((distance + 1) / 4) := by
  have five : s.offpixel = 5 ↔ s.offpixel.toNat = 5 := BitVec.toNat_inj.symm
  have ends := pixel_end s
  have bound : s.offpixel.toNat < 6 := by
    rw [before.2]
    exact Nat.mod_lt _ (by decide)
  unfold offsets
  rw [if_pos rows, if_pos columns]
  split_ifs with pixel cell
  · have last := five.mp cell
    have fourth := ends.mp pixel
    have next : (distance + 1) / 4 = distance / 4 + 1 := by omega
    rw [next]
    exact counted_wrap before (by omega)
  · have fourth := ends.mp pixel
    have early : s.offpixel.toNat ≠ 5 := fun last => cell (five.mpr last)
    have next : (distance + 1) / 4 = distance / 4 + 1 := by omega
    have counted : (s.offpixel + 1).toNat = s.offpixel.toNat + 1 := by bv_omega
    rw [next]
    dsimp only
    rw [counted]
    exact counted_tick before (by omega)
  · have inside : ¬s.hreg.toNat % 4 = 3 := fun fourth => pixel (ends.mpr fourth)
    have same : (distance + 1) / 4 = distance / 4 := by omega
    rw [same]
    exact before

/-- In front of the window the columns are set back. -/
theorem offsets_margin (rows : inRows s = true) (margin : ¬inColumns s = true) :
    (offsets s s).offhreg = s.scrollh ∧ (offsets s s).offpixel = 0 := by
  unfold offsets
  rw [if_pos rows, if_neg margin]
  split_ifs <;> exact ⟨rfl, rfl⟩

/-- The rows are counted at the end of odd lines. -/
theorem offsets_row (rows : inRows s = true) (margin : ¬inColumns s = true) (distance : Nat)
    (place : s.vreg.toNat = 32 + distance) (line : s.hstop = true) (before : AtRow s distance) :
    Counted s.scrollv (offsets s s).offvreg (offsets s s).vrow.toNat 12 ((distance + 1) / 2) := by
  have eleven : s.vrow = 11 ↔ s.vrow.toNat = 11 := BitVec.toNat_inj.symm
  have ends := odd_line s
  have bound : s.vrow.toNat < 12 := by
    rw [before.2]
    exact Nat.mod_lt _ (by decide)
  unfold offsets
  rw [if_pos rows, if_neg margin, line, Bool.true_and]
  split_ifs with odd cell
  · have last := eleven.mp cell
    have second := ends.mp odd
    have next : (distance + 1) / 2 = distance / 2 + 1 := by omega
    rw [next]
    exact counted_wrap before (by omega)
  · have second := ends.mp odd
    have early : s.vrow.toNat ≠ 11 := fun last => cell (eleven.mpr last)
    have next : (distance + 1) / 2 = distance / 2 + 1 := by omega
    have counted : (s.vrow + 1).toNat = s.vrow.toNat + 1 := by bv_omega
    rw [next]
    dsimp only
    rw [counted]
    exact counted_tick before (by omega)
  · have even : ¬s.vreg.toNat % 2 = 1 := fun second => odd (ends.mpr second)
    have same : (distance + 1) / 2 = distance / 2 := by omega
    rw [same]
    exact before

theorem offsets_same_row (rows : inRows s = true) (line : s.hstop = false) :
    (offsets s s).offvreg = s.offvreg ∧ (offsets s s).vrow = s.vrow := by
  have inside : ¬(s.hstop && s.vreg.getLsbD 0) = true := by
    rw [line]
    exact Bool.false_ne_true
  unfold offsets
  rw [if_pos rows]
  dsimp only
  rw [if_neg inside]
  split_ifs <;> exact ⟨rfl, rfl⟩

theorem offsets_first_row (rows : ¬inRows s = true) :
    (offsets s s).offvreg = s.scrollv ∧ (offsets s s).vrow = 0 := by
  unfold offsets
  rw [if_neg rows]
  exact ⟨rfl, rfl⟩

end Offsets

theorem addressing_step (buttons : Buttons) (s : Screen) (counting : Counting s)
    (addressing : Addressing s) : Addressing (clock buttons s) := by
  cases running : buttons.irst with
  | true =>
      rw [clock, if_pos running]
      exact addressing_reset
  | false =>
      obtain ⟨hreg, vreg⟩ := counting_next buttons s running counting
      obtain ⟨offhreg, offpixel, offvreg, vrow⟩ := clock_offsets buttons s running
      have rows := in_rows_iff s counting.vreg
      have columns := in_columns_iff s
      by_cases last : s.hreg.toNat = 2100
      · rw [if_pos last] at hreg vreg
        have line : s.hstop = true := by rw [counting.hstop, decide_eq_true last]
        constructor
        · intro _ left
          omega
        · intro low
          have frame : s.vreg.toNat ≠ 788 := by
            intro bottom
            rw [if_pos bottom] at vreg
            omega
          rw [if_neg frame] at vreg
          have inside : ¬(s.hstop = true ∧ s.vstop = true) := by
            rw [counting.vstop, decide_eq_true_eq]
            exact fun both => frame both.2
          obtain ⟨_, scrollv, _⟩ := clock_scroll buttons s running inside
          have margin : ¬inColumns s = true := by
            rw [columns]
            omega
          rw [AtRow, offvreg, vrow, scrollv, vreg]
          by_cases upper : 32 ≤ s.vreg.toNat
          · have counted := offsets_row s (rows.mpr upper) margin (s.vreg.toNat - 32) (by omega)
              line (addressing.rows upper)
            rwa [← Nat.sub_add_comm upper] at counted
          · obtain ⟨first, zero⟩ := offsets_first_row s (fun inside => upper (rows.mp inside))
            have place : s.vreg.toNat + 1 - 32 = 0 := by omega
            rw [first, zero, place]
            exact ⟨(BitVec.add_zero _).symm, rfl⟩
      · rw [if_neg last] at hreg vreg
        have line : s.hstop = false := by rw [counting.hstop, decide_eq_false last]
        obtain ⟨scrollh, scrollv, _⟩ := clock_scroll buttons s running
          (by rw [line]; exact fun both => Bool.false_ne_true both.1)
        constructor
        · intro low left right
          rw [vreg] at low
          rw [hreg] at left right
          rw [AtColumn, offhreg, offpixel, scrollh, hreg]
          by_cases window : 384 ≤ s.hreg.toNat
          · have counted := offsets_column s (rows.mpr low) (columns.mpr ⟨window, by omega⟩)
              (s.hreg.toNat - 384) (by omega) (addressing.columns low window (by omega))
            rwa [← Nat.sub_add_comm window] at counted
          · obtain ⟨first, zero⟩ := offsets_margin s (rows.mpr low)
              (fun inside => window (columns.mp inside).1)
            have place : s.hreg.toNat + 1 - 384 = 0 := by omega
            rw [first, zero, place]
            exact ⟨(BitVec.add_zero _).symm, rfl⟩
        · intro low
          rw [vreg] at low
          obtain ⟨same, kept⟩ := offsets_same_row s (rows.mpr low) line
          rw [AtRow, offvreg, vrow, scrollv, vreg, same, kept]
          exact addressing.rows low

section Run

variable (buttons : Nat → Buttons)

theorem counting_run (n : Nat) : Counting (stateAt buttons n) := by
  induction n with
  | zero => exact counting_reset
  | succ n ih => exact counting_step (buttons n) _ ih

theorem addressing_run (n : Nat) : Addressing (stateAt buttons n) := by
  induction n with
  | zero => exact addressing_reset
  | succ n ih => exact addressing_step (buttons n) _ (counting_run buttons n) ih

/-- Without a reset the counters tell the clocks. -/
theorem counters_run (running : ∀ n, (buttons n).irst = false) (n : Nat) :
    (stateAt buttons n).hreg.toNat = n % 2101 ∧
      (stateAt buttons n).vreg.toNat = n / 2101 % 789 := by
  induction n with
  | zero => exact ⟨rfl, rfl⟩
  | succ n ih =>
      obtain ⟨hreg, vreg⟩ :=
        counting_next (buttons n) (stateAt buttons n) (running n) (counting_run buttons n)
      change (clock (buttons n) (stateAt buttons n)).hreg.toNat = _ ∧
        (clock (buttons n) (stateAt buttons n)).vreg.toNat = _
      rw [hreg, vreg, ih.1, ih.2]
      constructor
      · split_ifs <;> omega
      · have line : n % 2101 = 2100 → (n + 1) / 2101 = n / 2101 + 1 := by omega
        have inside : n % 2101 ≠ 2100 → (n + 1) / 2101 = n / 2101 := by omega
        split_ifs with last bottom
        · rw [line last]
          omega
        · rw [line last]
          omega
        · rw [inside last]

/-- During a frame the window stays where it is. -/
theorem scroll_kept (running : ∀ n, (buttons n).irst = false) (frame n : Nat)
    (bound : n ≤ 1657688) :
    (stateAt buttons (1657689 * frame + n)).scrollh =
        (stateAt buttons (1657689 * frame)).scrollh ∧
      (stateAt buttons (1657689 * frame + n)).scrollv =
        (stateAt buttons (1657689 * frame)).scrollv ∧
      (stateAt buttons (1657689 * frame + n)).scroll =
        (stateAt buttons (1657689 * frame)).scroll := by
  induction n with
  | zero => exact ⟨rfl, rfl, rfl⟩
  | succ n ih =>
      obtain ⟨scrollh, scrollv, scroll⟩ := ih (by omega)
      have counting := counting_run buttons (1657689 * frame + n)
      obtain ⟨hreg, vreg⟩ := counters_run buttons running (1657689 * frame + n)
      have inside : ¬((stateAt buttons (1657689 * frame + n)).hstop = true ∧
          (stateAt buttons (1657689 * frame + n)).vstop = true) := by
        rw [counting.hstop, counting.vstop, decide_eq_true_eq, decide_eq_true_eq, hreg, vreg]
        omega
      obtain ⟨sameh, samev, same⟩ := clock_scroll (buttons (1657689 * frame + n)) _
        (running (1657689 * frame + n)) inside
      exact ⟨sameh.trans scrollh, samev.trans scrollv, same.trans scroll⟩

/-- The buttons move the window between two frames. -/
theorem scroll_next (running : ∀ n, (buttons n).irst = false) (frame : Nat) :
    ∃ last : Screen, last.scrollh = (stateAt buttons (1657689 * frame)).scrollh ∧
      last.scrollv = (stateAt buttons (1657689 * frame)).scrollv ∧
      last.scroll = (stateAt buttons (1657689 * frame)).scroll ∧
      (stateAt buttons (1657689 * (frame + 1))).scrollh =
        (scrolled (buttons (1657689 * frame + 1657688)) last last).scrollh ∧
      (stateAt buttons (1657689 * (frame + 1))).scrollv =
        (scrolled (buttons (1657689 * frame + 1657688)) last last).scrollv := by
  obtain ⟨scrollh, scrollv, scroll⟩ :=
    scroll_kept buttons running frame 1657688 (Nat.le_refl _)
  have counting := counting_run buttons (1657689 * frame + 1657688)
  obtain ⟨hreg, vreg⟩ := counters_run buttons running (1657689 * frame + 1657688)
  have line : (stateAt buttons (1657689 * frame + 1657688)).hstop = true := by
    rw [counting.hstop, decide_eq_true_eq, hreg]
    omega
  have bottom : (stateAt buttons (1657689 * frame + 1657688)).vstop = true := by
    rw [counting.vstop, decide_eq_true_eq, vreg]
    omega
  have next : stateAt buttons (1657689 * (frame + 1)) =
      clock (buttons (1657689 * frame + 1657688))
        (stateAt buttons (1657689 * frame + 1657688)) := by
    have place : 1657689 * (frame + 1) = 1657689 * frame + 1657688 + 1 := by omega
    rw [place, stateAt, run_succ]
  rw [next]
  exact ⟨_, scrollh, scrollv, scroll,
    clock_scrolled _ _ (running (1657689 * frame + 1657688)) line bottom⟩

end Run

def cellAddress (scrollh scrollv column row : Nat) : Nat :=
  (scrollv + row) % 64 * 128 + (scrollh + column) % 128

theorem addra_cell (s : Screen) :
    (addra s).toNat = s.offvreg.toNat % 64 * 128 + s.offhreg.toNat := by
  have low := s.offhreg.isLt
  rw [addra, BitVec.toNat_append, ← Nat.shiftLeft_add_eq_or_of_lt low, Nat.shiftLeft_eq,
    BitVec.extractLsb'_toNat, Nat.shiftRight_zero]

/-- In the window the counters address the characters of the cells of 24 by 24 clocks, and their
rows and columns in order. -/
theorem text_screen_addressing (buttons : Nat → Buttons) (n : Nat)
    (upper : 32 ≤ (stateAt buttons n).vreg.toNat) (left : 384 ≤ (stateAt buttons n).hreg.toNat)
    (right : (stateAt buttons n).hreg.toNat ≤ 1920) :
    (stateAt buttons n).offhreg.toNat =
        ((stateAt buttons n).scrollh.toNat + ((stateAt buttons n).hreg.toNat - 384) / 24) % 128 ∧
      (stateAt buttons n).offpixel.toNat = ((stateAt buttons n).hreg.toNat - 384) / 4 % 6 ∧
      (stateAt buttons n).offvreg.toNat =
        ((stateAt buttons n).scrollv.toNat + ((stateAt buttons n).vreg.toNat - 32) / 24) % 128 ∧
      (stateAt buttons n).vrow.toNat = ((stateAt buttons n).vreg.toNat - 32) / 2 % 12 ∧
      (addra (stateAt buttons n)).toNat =
        cellAddress (stateAt buttons n).scrollh.toNat (stateAt buttons n).scrollv.toNat
          (((stateAt buttons n).hreg.toNat - 384) / 24)
          (((stateAt buttons n).vreg.toNat - 32) / 24) := by
  obtain ⟨offhreg, offpixel⟩ := (addressing_run buttons n).columns upper left right
  obtain ⟨offvreg, vrow⟩ := (addressing_run buttons n).rows upper
  have column : (stateAt buttons n).offhreg.toNat =
      ((stateAt buttons n).scrollh.toNat + ((stateAt buttons n).hreg.toNat - 384) / 24) % 128 := by
    rw [offhreg, BitVec.toNat_add, BitVec.toNat_ofNat, Nat.add_mod_mod, Nat.div_div_eq_div_mul]
  have row : (stateAt buttons n).offvreg.toNat =
      ((stateAt buttons n).scrollv.toNat + ((stateAt buttons n).vreg.toNat - 32) / 24) % 128 := by
    rw [offvreg, BitVec.toNat_add, BitVec.toNat_ofNat, Nat.add_mod_mod, Nat.div_div_eq_div_mul]
  refine ⟨column, offpixel, row, vrow, ?_⟩
  rw [addra_cell, column, row, cellAddress]
  omega

def held (_ : Nat) : Buttons :=
  { irst := false, north := false, south := true, east := true, west := false, center := false }

/-- The first frame moves the window by four lines and columns. -/
theorem held_scroll (n : Nat) (bound : n ≤ 1657688) :
    (stateAt held (1657689 * 1 + n)).scrollh = 4 ∧
      (stateAt held (1657689 * 1 + n)).scrollv = 4 := by
  have running : ∀ n, (held n).irst = false := fun _ => rfl
  obtain ⟨laterh, laterv, _⟩ := scroll_kept held running 1 n bound
  obtain ⟨last, scrollh, scrollv, scroll, nexth, nextv⟩ := scroll_next held running 0
  rw [Nat.zero_add] at nexth nextv
  rw [Nat.mul_zero] at scrollh scrollv scroll
  rw [laterh, laterv]
  refine ⟨nexth.trans ?_, nextv.trans ?_⟩
  · rw [scrolled]
    dsimp only
    rw [scrollh, scroll]
    decide
  · rw [scrolled]
    dsimp only
    rw [scrollv, scroll]
    decide

/-- In line 28 of the window, 96 clocks from its left edge. -/
theorem text_screen_addressing_inside :
    (stateAt held 1784229).offhreg.toNat = 8 ∧ (stateAt held 1784229).offpixel.toNat = 0 ∧
      (stateAt held 1784229).offvreg.toNat = 5 ∧ (stateAt held 1784229).vrow.toNat = 2 ∧
      (addra (stateAt held 1784229)).toNat = 5 * 128 + 8 := by
  have counters := counters_run held (fun _ => rfl) 1784229
  have column : (stateAt held 1784229).hreg.toNat = 480 := counters.1
  have row : (stateAt held 1784229).vreg.toNat = 60 := counters.2
  have place : 1657689 * 1 + 126540 = 1784229 := rfl
  obtain ⟨scrollh, scrollv⟩ := held_scroll 126540 (by decide)
  rw [place] at scrollh scrollv
  obtain ⟨offhreg, offpixel, offvreg, vrow, address⟩ := text_screen_addressing held 1784229
    (by rw [row]; decide) (by rw [column]; decide) (by rw [column]; decide)
  rw [column, scrollh] at offhreg
  rw [row, scrollv] at offvreg
  rw [column] at offpixel
  rw [row] at vrow
  rw [column, row, scrollh, scrollv] at address
  exact ⟨offhreg, offpixel, offvreg, vrow, address⟩

end MinionSubsystem.TextScreen
