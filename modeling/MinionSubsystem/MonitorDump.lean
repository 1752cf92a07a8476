import Mathlib.Data.List.Nodup
import MinionSubsystem.SRecordCheck

/-!
# Numbers printed and scanned by the monitor

`myputhex`, chains of `scan` and the command `R` of `simple.c`. What the user has
typed is described by the characters of the line alone.
-/

namespace MinionSubsystem.MonitorDump

open MinionSubsystem.HexText MinionSubsystem.SRecordLoad MinionSubsystem.SRecordCheck

set_option autoImplicit false

def putNibble (n : BitVec 32) : Char :=
  let n := n &&& 15
  if 9 < n then Char.ofNat (n + 65 - 10).toNat else Char.ofNat (n + 48).toNat

def myputhex (n : BitVec 32) : Nat → List Char
  | 0 => [putNibble n]
  | 1 => [putNibble n]
  | width + 2 => myputhex (n >>> 4) (width + 1) ++ [putNibble n]

/-- `count` calls of `scan`, each from where the one before has returned. -/
def scans : Nat → List Char → List (BitVec 32) × List Char
  | 0, start => ([], start)
  | count + 1, start =>
      let (data, nxt) := scan 16 0 start
      let (others, last) := scans count nxt
      (data :: others, last)

def dumpWord (memory : BitVec 32 → BitVec 8) (addr : BitVec 32) : BitVec 32 :=
  (memory addr).setWidth 32 ||| (memory (addr + 1)).setWidth 32 <<< 8 |||
    (memory (addr + 2)).setWidth 32 <<< 16 ||| (memory (addr + 3)).setWidth 32 <<< 24

def dumpLine (memory : BitVec 32 → BitVec 8) (addr : BitVec 32) : List Char :=
  ['\n', 'R', ' '] ++ myputhex addr 8 ++ [':'] ++ myputhex (dumpWord memory addr) 8

/-- `none` where the loop has not ended after `fuel` tests of its condition. -/
def dumpLoop (addr2 : BitVec 32) : Nat → BitVec 32 → Monitor → Option Monitor
  | 0, _, _ => none
  | fuel + 1, addr, m =>
      if addr ≤ addr2 then
        dumpLoop addr2 fuel (addr + 4) { m with printed := m.printed ++ dumpLine m.memory addr }
      else some m

def commandR (ucmd : List Char) (fuel : Nat) (m : Monitor) : Option Monitor :=
  let (addr, nxt) := scan 16 0 (ucmd.drop 1)
  let addr := addr &&& ~~~3
  let (addr2, _) := scan 16 0 nxt
  dumpLoop addr2 fuel addr m

def typedNumber (text : List Char) : BitVec 32 := BitVec.ofNat 32 (looseValue text)

def behindNumber (text : List Char) : List Char :=
  (text.dropWhile fun c => isHexDigit c || c == ' ').tail

def typedStart (ucmd : List Char) : BitVec 32 := typedNumber (ucmd.drop 1)

def typedEnd (ucmd : List Char) : BitVec 32 := typedNumber (behindNumber (ucmd.drop 1))

/-- The word addresses from the one of `start` on, not greater than `stop`. -/
def dumpAddresses (start stop : BitVec 32) : List (BitVec 32) :=
  let first := start.toNat / 4 * 4
  (List.range ((stop.toNat + 4 - first) / 4)).map fun i => BitVec.ofNat 32 (first + 4 * i)

/-- The command ends and has printed the words of the range, and nothing else. -/
def DumpsRange (ucmd : List Char) (m : Monitor) : Prop :=
  ∃ fuel, commandR ucmd fuel m = some { m with
    printed := m.printed ++
      (dumpAddresses (typedStart ucmd) (typedEnd ucmd)).flatMap (dumpLine m.memory) }

theorem put_nibble (n : BitVec 32) : putNibble n = hexDigit (n.toNat % 16) := by
  have masked : n &&& 15 = BitVec.ofNat 32 (n.toNat % 16) := by
    apply BitVec.eq_of_toNat_eq
    have value : (n &&& 15).toNat = n.toNat % 2 ^ 4 := Nat.and_two_pow_sub_one_eq_mod n.toNat 4
    rw [value, BitVec.toNat_ofNat]
    omega
  have small : n.toNat % 16 < 16 := Nat.mod_lt _ (by decide)
  rw [putNibble, masked]
  generalize n.toNat % 16 = number at small
  interval_cases number <;> rfl

theorem myputhex_field (width : Nat) (n : BitVec 32) :
    myputhex n (width + 1) = hexField (width + 1) n.toNat := by
  induction width generalizing n with
  | zero =>
      rw [hexField, myputhex, put_nibble]
      rfl
  | succ width ih =>
      have quotient : (n >>> 4).toNat = n.toNat / 16 := by
        rw [BitVec.toNat_ushiftRight, Nat.shiftRight_eq_div_pow]
      have printed : myputhex n (width + 2) = myputhex (n >>> 4) (width + 1) ++ [putNibble n] := rfl
      rw [printed, ih, quotient, put_nibble]
      rfl

/-- A field shows the number modulo the power of its width. -/
theorem hex_field_mod (width value : Nat) :
    hexField width (value % 16 ^ width) = hexField width value := by
  induction width generalizing value with
  | zero => rfl
  | succ width ih =>
      have quotient : value % 16 ^ (width + 1) / 16 = value / 16 % 16 ^ width := by
        rw [Nat.pow_succ, Nat.mul_comm, Nat.mod_mul_right_div_self]
      have digit : value % 16 ^ (width + 1) % 16 = value % 16 := by
        rw [Nat.pow_succ, Nat.mul_comm, Nat.mod_mul_right_mod]
      rw [hexField, hexField, quotient, ih, digit]

/-- What is scanned of a number printed in a field. -/
theorem scan_printed (n : BitVec 32) (width : Nat) (positive : 1 ≤ width) (rest : List Char) :
    scan 16 0 (myputhex n width ++ rest) =
      scan 16 (BitVec.ofNat 32 (n.toNat % 16 ^ width)) rest := by
  obtain ⟨before, same⟩ := Nat.exists_eq_add_of_le' positive
  subst same
  have fits : n.toNat % 16 ^ (before + 1) < 16 ^ (before + 1) :=
    Nat.mod_lt _ (Nat.pow_pos (by decide))
  rw [myputhex_field, ← hex_field_mod, scan_field _ _ fits]

theorem scan_comma (data : BitVec 32) (rest : List Char) :
    scan 16 data (',' :: rest) = (data, rest) := rfl

/-- The numbers printed in their fields with single commas between them are scanned back, and the
last call stops at the terminator. Fields of more than eight digits are covered as well. -/
theorem printed_numbers_scanned (items : List (BitVec 32 × Nat))
    (widths : ∀ item ∈ items, 1 ≤ item.2) :
    scans items.length (List.intercalate [','] (items.map fun item => myputhex item.1 item.2)) =
      (items.map fun item => BitVec.ofNat 32 (item.1.toNat % 16 ^ item.2), []) := by
  induction items with
  | nil => rfl
  | cons item others ih =>
      have width : 1 ≤ item.2 := widths item List.mem_cons_self
      cases others with
      | nil =>
          have scanned := scan_printed item.1 item.2 width []
          rw [List.append_nil] at scanned
          rw [List.map_singleton, List.intercalate_singleton, List.length_singleton, scans,
            scanned]
          rfl
      | cons next others =>
          have tail := ih fun other member => widths other (List.mem_cons_of_mem item member)
          rw [List.map_cons] at tail
          rw [List.map_cons, List.map_cons, List.intercalate_cons_cons, List.append_assoc,
            List.singleton_append, List.length_cons, scans, scan_printed item.1 item.2 width,
            scan_comma]
          simp only [tail, List.map_cons]

/-- An address in four digits, which loses its upper half, and a byte in eight. -/
theorem printed_numbers_scanned_pair :
    scans 2 "5678,000000AB".toList = ([0x5678, 0xAB], []) :=
  printed_numbers_scanned [(0x12345678, 4), (0xAB, 8)] (by decide)

theorem scan_behind (text : List Char) (data : BitVec 32) :
    (scan 16 data text).2 = behindNumber text := by
  induction text generalizing data with
  | nil => rfl
  | cons c text ih =>
      by_cases hex : isHexDigit c = true
      · rw [scan_step _ c _ (digit_value_digit c hex), ih, behindNumber, behindNumber,
          List.dropWhile_cons_of_pos (by rw [hex]; rfl)]
      · rw [scan_other _ c hex]
        by_cases space : c = ' '
        · rw [if_pos space, ih, behindNumber, behindNumber,
            List.dropWhile_cons_of_pos (by simp [space])]
        · rw [if_neg space, behindNumber, List.dropWhile_cons_of_neg (by simp [space, hex])]
          rfl

theorem scan_typed (text : List Char) :
    scan 16 0 text = (typedNumber text, behindNumber text) :=
  Prod.ext (scan_loose text 0) (scan_behind text 0)

theorem command_r_loop (ucmd : List Char) (fuel : Nat) (m : Monitor) :
    commandR ucmd fuel m = dumpLoop (typedEnd ucmd) fuel (typedStart ucmd &&& ~~~3) m := by
  simp only [commandR, scan_typed, typedStart, typedEnd]

/-- The first address is the one of the word that the start lies in. -/
theorem first_address (start : BitVec 32) : (start &&& ~~~3).toNat = start.toNat / 4 * 4 := by
  have mask : ~~~(3 : BitVec 32) = 0xFFFFFFFC := by decide
  have shifted : start &&& (0xFFFFFFFC : BitVec 32) = (start >>> 2) <<< 2 := by
    apply BitVec.eq_of_getLsbD_eq
    intro index inside
    interval_cases index <;> simp
  have bound := start.isLt
  rw [mask, shifted, BitVec.toNat_shiftLeft, BitVec.toNat_ushiftRight, Nat.shiftRight_eq_div_pow,
    Nat.shiftLeft_eq]
  omega

/-- Aligned addresses do not come behind an end in the last word. -/
theorem loop_never_ends (stop : BitVec 32) (last : 0xFFFFFFFC ≤ stop.toNat) (fuel : Nat)
    (addr : BitVec 32) (aligned : addr.toNat % 4 = 0) (m : Monitor) :
    dumpLoop stop fuel addr m = none := by
  induction fuel generalizing addr m with
  | zero => rfl
  | succ fuel ih =>
      have bound := addr.isLt
      have inside : addr ≤ stop := by
        rw [BitVec.le_def]
        omega
      have next : (addr + 4).toNat % 4 = 0 := by
        rw [BitVec.toNat_add]
        change (addr.toNat + 4) % 2 ^ 32 % 4 = 0
        omega
      rw [dumpLoop, if_pos inside, ih _ next]

/-- In front of the last word the loop prints the words up to the end. -/
theorem loop_prints (stop : BitVec 32) (before : stop.toNat < 0xFFFFFFFC) (count : Nat)
    (addr : BitVec 32) (length : (stop.toNat + 4 - addr.toNat) / 4 = count) (m : Monitor) :
    dumpLoop stop (count + 1) addr m = some { m with
      printed := m.printed ++ ((List.range count).map fun i =>
        BitVec.ofNat 32 (addr.toNat + 4 * i)).flatMap (dumpLine m.memory) } := by
  induction count generalizing addr m with
  | zero =>
      have outside : ¬addr ≤ stop := by
        rw [BitVec.le_def]
        omega
      rw [dumpLoop, if_neg outside, List.range_zero, List.map_nil, List.flatMap_nil,
        List.append_nil]
  | succ count ih =>
      have inside : addr ≤ stop := by
        rw [BitVec.le_def]
        omega
      have next : (addr + 4).toNat = addr.toNat + 4 := by
        rw [BitVec.toNat_add]
        change (addr.toNat + 4) % 2 ^ 32 = addr.toNat + 4
        omega
      have head : BitVec.ofNat 32 (addr.toNat + 4 * 0) = addr := by
        rw [Nat.mul_zero, Nat.add_zero, BitVec.ofNat_toNat, BitVec.setWidth_eq]
      have others : (List.range count).map (fun i => BitVec.ofNat 32 (addr.toNat + 4 * (i + 1))) =
          (List.range count).map fun i => BitVec.ofNat 32 ((addr + 4).toNat + 4 * i) := by
        apply List.map_congr_left
        intro i _
        rw [next]
        congr 1
        omega
      rw [dumpLoop, if_pos inside, ih (addr + 4) (by omega), List.range_succ_eq_map,
        List.map_cons, List.map_map, List.flatMap_cons, head]
      simp only [Function.comp_def, Nat.succ_eq_add_one, others, List.append_assoc]

/-- The dump ends, with the words of its range, unless the end is in the last word. -/
theorem command_r_dumps_iff (ucmd : List Char) (m : Monitor) :
    DumpsRange ucmd m ↔ typedEnd ucmd < 0xFFFFFFFC := by
  have aligned : (typedStart ucmd &&& ~~~3).toNat % 4 = 0 := by
    rw [first_address]
    omega
  have limit : typedEnd ucmd < 0xFFFFFFFC ↔ (typedEnd ucmd).toNat < 0xFFFFFFFC := Iff.rfl
  rw [limit]
  constructor
  · rintro ⟨fuel, ended⟩
    by_contra last
    rw [command_r_loop, loop_never_ends _ (by omega) fuel _ aligned] at ended
    contradiction
  · intro before
    have printed := loop_prints (typedEnd ucmd) before _ (typedStart ucmd &&& ~~~3) rfl m
    rw [first_address] at printed
    exact ⟨_, (command_r_loop ucmd _ m).trans printed⟩

/-- A dump of the whole address space does not end. -/
theorem command_r_whole_memory :
    ¬DumpsRange "R 0,FFFFFFFF".toList { memory := fun _ => 0, printed := [], entered := [] } := by
  rintro ⟨fuel, ended⟩
  have last : 0xFFFFFFFC ≤ (typedEnd "R 0,FFFFFFFF".toList).toNat := by decide
  rw [command_r_loop, loop_never_ends _ last fuel _ (by decide)] at ended
  contradiction

end MinionSubsystem.MonitorDump
