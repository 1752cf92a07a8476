import MinionSubsystem.HexText

/-!
# The block RAMs that `romgen` writes

An image is cut into banks of 16384 words, and every bit of a bank goes to a block
RAM of its own. The contents of a block RAM are 64 literals of 64 hex digits. The
first digit of a literal holds its highest cells.
-/

namespace MinionSubsystem.RomGenerator

open MinionSubsystem.HexText

set_option autoImplicit false

def rwidth : Nat := 14

def chunk : Nat := 1 <<< rwidth

/-- `cnt`, the number of the last bank. The environment's `BIGMEMCNT` may give the banks. -/
def lastBank (bigmemcnt : Option Int) (bigbuf : List Nat) : Int :=
  match bigmemcnt with
  | some banks => banks - 1
  | none => ((bigbuf.length - 1) / chunk : Nat)

def log2 (n : Nat) : Nat := if n < 1 then 0 else 1 + log2 (n >>> 1)
  termination_by n
  decreasing_by
    rw [Nat.shiftRight_eq_div_pow]
    omega

/-- The highest address bit. Below 1 `log2` is 0. -/
def topa (cnt : Int) : Nat := rwidth - 1 + log2 cnt.toNat

/-- `m` behind the loop over `l`. -/
def nibble (bigbuf : List Nat) (offset i j k : Nat) : Nat :=
  (List.range 4).foldl
    (fun m l =>
      let adr := (63 - k) * 4 + j * 256 + l + offset * chunk
      let sel := if adr < bigbuf.length then bigbuf.getD adr 0 else 0
      let mask1 := 1 <<< i
      let mask2 := 1 <<< l
      m ||| if sel &&& mask1 ≠ 0 then mask2 else 0)
    0

def initRow (bigbuf : List Nat) (offset i j : Nat) : List Char :=
  (List.range 64).map fun k => hexDigit (nibble bigbuf offset i j k)

def empty (bigbuf : List Nat) (offset i : Nat) : Bool :=
  (List.range 64).all fun j => (List.range 64).all fun k => nibble bigbuf offset i j k = 0

def full (bigbuf : List Nat) (offset i : Nat) : Bool :=
  (List.range 64).all fun j => (List.range 64).all fun k => nibble bigbuf offset i j k = 15

/-- `.INIT_xx(256'h...)`. -/
structure Init where
  label : List Char
  digits : List Char
  deriving DecidableEq, Repr

/-- `RAMB16_S1_S1_inst_width_offset_bit`. Where there are several banks, the outputs and
enables of a bank carry its number. -/
structure BlockRam where
  width : Nat
  offset : Nat
  bit : Nat
  inits : List Init
  bank : Option Nat
  enable : Nat
  deriving DecidableEq, Repr

inductive Item where
  | ramb16 (ram : BlockRam)
  | assign (bank : Option Nat) (bit : Nat) (value : Bool)
  deriving DecidableEq, Repr

def suffix (cnt : Int) (offset : Nat) : Option Nat := if topa cnt ≥ rwidth then some offset else none

def block (width : Nat) (minimize : Bool) (bigbuf : List Nat) (cnt : Int)
    (offset i : Nat) : Item :=
  if (!empty bigbuf offset i && !full bigbuf offset i) || !minimize then
    .ramb16 {
      width := width
      offset := offset
      bit := i
      inits := (List.range 64).map fun j =>
        { label := formatX 0 2 j, digits := initRow bigbuf offset i j }
      bank := suffix cnt offset
      enable := i / 8 }
  else if empty bigbuf offset i then .assign (suffix cnt offset) i false
  else .assign none i true

/-- What `romgen` declares and writes for its memory, and the count it returns. -/
structure Rom where
  topa : Nat
  items : List Item
  ramtot : Nat

def romgen (bigmemcnt : Option Int) (width : Nat) (minimize : Bool) (bigbuf : List Nat) : Rom :=
  let cnt := lastBank bigmemcnt bigbuf
  let items := (List.range (cnt + 1).toNat).flatMap fun offset =>
    (List.range width).map fun i => block width minimize bigbuf cnt offset i
  { topa := topa cnt
    items := items
    ramtot := items.countP fun item => match item with
      | .ramb16 _ => true
      | .assign _ _ _ => false }

/-- The cell at an address: bit `n` of the literal `INIT_jj` is the cell `256 * jj + n`. -/
def BlockRam.cell (ram : BlockRam) (address : Nat) : Bool :=
  match ram.inits.find? fun init => hexValue init.label = address / 256 with
  | some init => (hexValue init.digits).testBit (address % 256)
  | none => false

theorem log2_bound (n : Nat) : n < 2 ^ log2 n := by
  induction n using log2.induct with
  | case1 n small =>
      rw [log2, if_pos small]
      omega
  | case2 n large ih =>
      rw [Nat.shiftRight_eq_div_pow] at ih
      rw [log2, if_neg large, Nat.add_comm, Nat.pow_succ, Nat.shiftRight_eq_div_pow]
      omega

theorem masked_bit (sel i : Nat) : sel &&& 1 <<< i ≠ 0 ↔ sel.testBit i = true := by
  have mask : ∀ j, (sel &&& 1 <<< i).testBit j = (sel.testBit j && decide (i = j)) := by
    intro j
    rw [Nat.testBit_and, Nat.one_shiftLeft, Nat.testBit_two_pow]
  constructor
  · intro some
    obtain ⟨j, bit⟩ := Nat.exists_testBit_of_ne_zero some
    rw [mask, Bool.and_eq_true, decide_eq_true_eq] at bit
    exact bit.2 ▸ bit.1
  · intro bit zero
    have none := mask i
    rw [zero, Nat.zero_testBit, bit, decide_eq_true rfl] at none
    cases none

/-- The bits that a loop sets one by one. -/
theorem gathered_bit (p : Nat → Bool) (count l : Nat) :
    ((List.range count).foldl (fun m l => m ||| if p l then 1 <<< l else 0) 0).testBit l =
      (decide (l < count) && p l) := by
  induction count with
  | zero => rw [List.range_zero, List.foldl_nil, Nat.zero_testBit, decide_eq_false (by omega),
      Bool.false_and]
  | succ count ih =>
      have mask : (if p count then 1 <<< count else 0).testBit l =
          (p count && decide (count = l)) := by
        cases p count with
        | false => exact Nat.zero_testBit l
        | true =>
            rw [if_pos rfl, Nat.one_shiftLeft, Nat.testBit_two_pow]
            rfl
      rw [List.range_succ, List.foldl_append, List.foldl_cons, List.foldl_nil, Nat.testBit_or, ih,
        mask]
      rcases Nat.lt_trichotomy l count with before | here | behind
      · simp [before, Nat.lt_succ_of_lt before, Nat.ne_of_gt before]
      · simp [here]
      · have late : ¬l < count + 1 := by omega
        simp [late, Nat.lt_asymm behind, Nat.ne_of_lt behind]

/-- The selected element, 0 behind the image. -/
theorem select_element (bigbuf : List Nat) (adr : Nat) :
    (if adr < bigbuf.length then bigbuf.getD adr 0 else 0) = bigbuf.getD adr 0 := by
  split_ifs with inside
  · rfl
  · exact (List.getD_eq_default _ _ (by omega)).symm

/-- The bits of a digit are four cells, the lowest first. -/
theorem nibble_bit (bigbuf : List Nat) (offset i j k l : Nat) :
    (nibble bigbuf offset i j k).testBit l = (decide (l < 4) &&
      (bigbuf.getD ((63 - k) * 4 + j * 256 + l + offset * chunk) 0).testBit i) := by
  have spread : nibble bigbuf offset i j k =
      (List.range 4).foldl (fun m l => m ||| if (bigbuf.getD ((63 - k) * 4 + j * 256 + l +
        offset * chunk) 0).testBit i then 1 <<< l else 0) 0 := by
    simp only [nibble, select_element, masked_bit]
  rw [spread, gathered_bit]

theorem nibble_lt (bigbuf : List Nat) (offset i j k : Nat) : nibble bigbuf offset i j k < 16 := by
  have high : ∀ l, 4 ≤ l → (nibble bigbuf offset i j k).testBit l = false := by
    intro l large
    rw [nibble_bit, decide_eq_false (by omega), Bool.false_and]
  have power : 16 = 2 ^ 4 := rfl
  rw [power]
  exact Nat.lt_pow_two_of_testBit _ high

/-- Bit `n` of literal `j` is element `256 * j + n` of the bank. -/
theorem init_row_bit (bigbuf : List Nat) (offset i j n : Nat) (small : n < 256) :
    (hexValue (initRow bigbuf offset i j)).testBit n =
      (bigbuf.getD (16384 * offset + (256 * j + n)) 0).testBit i := by
  have length : (initRow bigbuf offset i j).length = 64 := by simp [initRow]
  have place : 64 - 1 - n / 4 < 64 := by omega
  have digit : (initRow bigbuf offset i j).getD (64 - 1 - n / 4) '0' =
      hexDigit (nibble bigbuf offset i j (64 - 1 - n / 4)) := by
    rw [List.getD_eq_getElem _ _ (length.symm ▸ place)]
    simp only [initRow, List.getElem_map, List.getElem_range]
  have address : (63 - (64 - 1 - n / 4)) * 4 + j * 256 + n % 4 + offset * chunk =
      16384 * offset + (256 * j + n) := by
    have size : chunk = 16384 := rfl
    rw [size]
    omega
  rw [hex_value_bit _ n (by omega), length, digit, digit_value_hex_digit _ (nibble_lt _ _ _ _ _),
    Option.getD_some, nibble_bit, decide_eq_true (Nat.mod_lt n (by decide)), Bool.true_and, address]

/-- The block RAM of a bank and bit, as it is written without `minimize`. -/
def bankRam (width : Nat) (bigbuf : List Nat) (cnt : Int) (offset i : Nat) : BlockRam where
  width := width
  offset := offset
  bit := i
  inits := (List.range 64).map fun j =>
    { label := formatX 0 2 j, digits := initRow bigbuf offset i j }
  bank := suffix cnt offset
  enable := i / 8

theorem block_kept (width : Nat) (bigbuf : List Nat) (cnt : Int) (offset i : Nat) :
    block width false bigbuf cnt offset i = .ramb16 (bankRam width bigbuf cnt offset i) :=
  if_pos (by rw [Bool.not_false, Bool.or_true])

theorem label_value (j : Nat) (small : j < 64) : hexValue (formatX 0 2 j) = j := by
  rw [format_x_field 0 1 j (by omega) (by omega), hex_value_field 2 j (by omega)]

/-- The parameter that holds the cells from `256 * j` on is `INIT_` with `j` in hex. -/
theorem find_init (bigbuf : List Nat) (offset i j : Nat) (small : j < 64) :
    ((List.range 64).map fun j =>
        ({ label := formatX 0 2 j, digits := initRow bigbuf offset i j } : Init)).find?
      (fun init => hexValue init.label = j) =
        some { label := formatX 0 2 j, digits := initRow bigbuf offset i j } := by
  rw [List.find?_map, List.find?_range_eq_some.mpr]
  · rfl
  · refine ⟨?_, List.mem_range.mpr small, fun other before => ?_⟩
    · simp only [Function.comp_apply, label_value j small, decide_true]
    · have apart : hexValue (formatX 0 2 other) ≠ j := by
        rw [label_value other (by omega)]
        omega
      simpa using apart

theorem bank_ram_cell (width : Nat) (bigbuf : List Nat) (cnt : Int) (offset i address : Nat)
    (inside : address < 16384) :
    (bankRam width bigbuf cnt offset i).cell address =
      (bigbuf.getD (16384 * offset + address) 0).testBit i := by
  have found := find_init bigbuf offset i (address / 256) (by omega)
  have place : 256 * (address / 256) + address % 256 = address := Nat.div_add_mod address 256
  rw [BlockRam.cell, bankRam]
  simp only [found]
  rw [init_row_bit _ _ _ _ _ (Nat.mod_lt _ (by decide)), place]

theorem romgen_items (width : Nat) (bigbuf : List Nat) :
    (romgen none width false bigbuf).items =
      (List.range ((bigbuf.length - 1) / 16384 + 1)).flatMap fun offset =>
        (List.range width).map fun i =>
          .ramb16 (bankRam width bigbuf (lastBank none bigbuf) offset i) := by
  have banks : (lastBank none bigbuf + 1).toNat = (bigbuf.length - 1) / 16384 + 1 := by
    have size : chunk = 16384 := rfl
    rw [lastBank, size]
    omega
  simp only [romgen, banks, block_kept]

theorem romgen_item_count (width : Nat) (bigbuf : List Nat) :
    (romgen none width false bigbuf).items.length =
      ((bigbuf.length - 1) / 16384 + 1) * width := by
  rw [romgen_items, List.length_flatMap]
  simp only [List.length_map, List.length_range, List.map_const',
    List.sum_replicate_nat]

/-- The block RAMs written for an image are one for every bank and bit. Each holds its bit of
the bank's elements, 0 behind the image, and `topa` leaves enough address bits above bit 13
for the number of the last bank. -/
theorem rams_hold_image (width : Nat) (bigbuf : List Nat) :
    (∀ offset i, offset ≤ (bigbuf.length - 1) / 16384 → i < width →
      ∃ ram, .ramb16 ram ∈ (romgen none width false bigbuf).items ∧
        ram.offset = offset ∧ ram.bit = i) ∧
      (∀ item ∈ (romgen none width false bigbuf).items, ∃ ram, item = .ramb16 ram ∧
        ram.width = width ∧ ram.offset ≤ (bigbuf.length - 1) / 16384 ∧ ram.bit < width ∧
        ∀ address, address < 16384 →
          ram.cell address = (bigbuf.getD (16384 * ram.offset + address) 0).testBit ram.bit) ∧
      (romgen none width false bigbuf).items.length =
        ((bigbuf.length - 1) / 16384 + 1) * width ∧
      (bigbuf.length - 1) / 16384 < 2 ^ ((romgen none width false bigbuf).topa - 13) := by
  refine ⟨?_, ?_, romgen_item_count width bigbuf, ?_⟩
  · intro offset i bank bit
    refine ⟨bankRam width bigbuf (lastBank none bigbuf) offset i, ?_, rfl, rfl⟩
    rw [romgen_items]
    exact List.mem_flatMap.mpr ⟨offset, List.mem_range.mpr (by omega),
      List.mem_map.mpr ⟨i, List.mem_range.mpr bit, rfl⟩⟩
  · intro item mem
    rw [romgen_items] at mem
    obtain ⟨offset, bank, mem⟩ := List.mem_flatMap.mp mem
    obtain ⟨i, bit, rfl⟩ := List.mem_map.mp mem
    rw [List.mem_range] at bank bit
    have cells := bank_ram_cell width bigbuf (lastBank none bigbuf) offset i
    exact ⟨_, rfl, rfl, Nat.le_of_lt_succ bank, bit, cells⟩
  · have last : (lastBank none bigbuf).toNat = (bigbuf.length - 1) / 16384 := rfl
    have bits : (romgen none width false bigbuf).topa - 13 =
        log2 ((bigbuf.length - 1) / 16384) := by
      have top : (romgen none width false bigbuf).topa =
          13 + log2 (lastBank none bigbuf).toNat := rfl
      rw [top, last, Nat.add_sub_cancel_left]
    rw [bits]
    exact log2_bound _

end MinionSubsystem.RomGenerator
