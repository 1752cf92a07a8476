import MinionSubsystem.RomImage

/-!
# The listings of a ROM that `bigromcnv` writes

The words of a ROM come as lines of binary digits. `main` writes them as binary
lines, as hexadecimal lines and as raw bytes. A byte of the last file has only the
low four bits of the byte it stands for.
-/

namespace MinionSubsystem.RomListing

open MinionSubsystem.HexText
open MinionSubsystem.RomImage (Exn lowercase ok_bind)

set_option autoImplicit false

def rbinFrom (value : Nat) : List Char → Except Exn Nat
  | [] => .ok value
  | c :: str =>
      let ch := lowercase c
      if ch = ' ' then rbinFrom value str
      else if ch = '_' then rbinFrom value str
      else if ch = '0' then rbinFrom (value <<< 1) str
      else if ch = '1' then rbinFrom (value <<< 1 + 1) str
      else .error (.failure (c :: str))

def rbin (str : List Char) : Except Exn Nat := rbinFrom 0 str

def extractBigInt (n offset length : Nat) : Nat := (n >>> offset) % 2 ^ length

/-- `wbin` and `whex`: digits of `step` bits each, the last one for the lowest bits. -/
def wdigits (digits : List Char) (step : Nat) (positive : 0 < step) (width n : Nat) : List Char :=
  (if width > step then wdigits digits step positive (width - step) (n >>> step) else []) ++
    [digits.getD (extractBigInt n 0 step) '0']
termination_by width

def wbin (width n : Nat) : List Char := wdigits "01".toList 1 (by decide) width n

def whex (width n : Nat) : List Char := wdigits "0123456789ABCDEF".toList 4 (by decide) width n

def wraw (width n : Nat) : List (BitVec 8) :=
  let lsbyte := extractBigInt n 0 4
  BitVec.ofNat 8 lsbyte :: if width > 8 then wraw (width - 8) (n >>> 8) else []
termination_by width

/-- The files `.log`, `_data2mem.mem` and `_data2mem.bin`. -/
structure Files where
  log : List Char
  hex : List Char
  bin : List (BitVec 8)

def main (lines : List (List Char)) : Except Exn Files := do
  let bigbuf ← lines.mapM rbin
  let width ← match lines.reverse with
    | [] => .error (.failure "hd".toList)
    | last :: _ => .ok last.length
  return {
    log := bigbuf.flatMap fun arg => wbin width arg ++ ['\n']
    hex := bigbuf.flatMap fun arg => whex width arg ++ ['\n']
    bin := bigbuf.flatMap (wraw width) }

def inputLines : List Char → List (List Char)
  | [] => []
  | c :: text =>
      if c = '\n' then [] :: inputLines text
      else
        match inputLines text with
        | [] => [[c]]
        | line :: lines => (c :: line) :: lines

def readNumber (base : Nat) (line : List Char) : Option Nat :=
  line.foldlM (fun value c => do
    let number ← digitValue c
    if number < base then some (base * value + number) else none) 0

def readLines (base : Nat) (text : List Char) : Option (List Nat) :=
  (inputLines text).mapM (readNumber base)

def littleEndian : List (BitVec 8) → Nat
  | [] => 0
  | byte :: bytes => byte.toNat + 256 * littleEndian bytes

/-- Words of `size` bytes; bytes cannot be read as words of no byte. -/
def readWords (size : Nat) (bytes : List (BitVec 8)) : Option (List Nat) :=
  if size = 0 ∨ bytes.length % size ≠ 0 then none
  else some ((List.range (bytes.length / size)).map fun k =>
    littleEndian ((bytes.drop (size * k)).take size))

/-- All three files hold the words that `rbin` has read. -/
structure Agree (width : Nat) (numbers : List Nat) (files : Files) : Prop where
  log : readLines 2 files.log = some numbers
  hex : readLines 16 files.hex = some numbers
  bin : readWords (width / 8) files.bin = some numbers

theorem rbin_from_lt (str : List Char) (value bits number : Nat) (small : value < 2 ^ bits)
    (read : rbinFrom value str = .ok number) : number < 2 ^ (bits + str.length) := by
  induction str generalizing value bits with
  | nil =>
      have same := Except.ok.inj read
      rw [← same]
      exact small
  | cons c str ih =>
      have doubled : value * 2 + 1 < 2 ^ (bits + 1) := by
        rw [Nat.pow_succ]
        omega
      have longer : bits + (c :: str).length = bits + 1 + str.length := by
        rw [List.length_cons]
        omega
      rw [longer]
      rw [rbinFrom] at read
      simp only [Nat.shiftLeft_eq, Nat.pow_one] at read
      split_ifs at read with space underscore zero one
      · exact ih value (bits + 1) (by omega) read
      · exact ih value (bits + 1) (by omega) read
      · exact ih (value * 2) (bits + 1) (by omega) read
      · exact ih (value * 2 + 1) (bits + 1) doubled read

theorem rbin_lt (str : List Char) (number : Nat) (read : rbin str = .ok number) :
    number < 2 ^ str.length := by
  have bound := rbin_from_lt str 0 0 number (by decide) read
  rwa [Nat.zero_add] at bound

section Digits

variable {digits : List Char} {step : Nat} (positive : 0 < step)
  (valued : ∀ number, number < 2 ^ step → digitValue (digits.getD number '0') = some number)

include valued

theorem wdigits_read (width n : Nat) (fits : n < 2 ^ width) :
    readNumber (2 ^ step) (wdigits digits step positive width n) = some n := by
  induction width using Nat.strongRecOn generalizing n with
  | ind width ih =>
      have last : extractBigInt n 0 step = n % 2 ^ step := rfl
      have small : n % 2 ^ step < 2 ^ step := Nat.mod_lt _ (Nat.two_pow_pos step)
      rw [wdigits, last, readNumber, List.foldlM_append]
      by_cases more : width > step
      · have power : 2 ^ width = 2 ^ (width - step) * 2 ^ step := by
          rw [← Nat.pow_add, Nat.sub_add_cancel (Nat.le_of_lt more)]
        have front : n >>> step < 2 ^ (width - step) := by
          rw [Nat.shiftRight_eq_div_pow]
          exact Nat.div_lt_of_lt_mul (by rw [Nat.mul_comm, ← power]; exact fits)
        have read := ih (width - step) (by omega) (n >>> step) front
        rw [readNumber] at read
        rw [if_pos more, read]
        simp only [List.foldlM_cons, List.foldlM_nil, valued _ small, Option.bind_eq_bind,
          Option.bind_some, if_pos small, Nat.shiftRight_eq_div_pow]
        exact congrArg some (Nat.div_add_mod n (2 ^ step))
      · have narrow : 2 ^ width ≤ 2 ^ step := Nat.pow_le_pow_right (by decide) (by omega)
        have whole : n % 2 ^ step = n := Nat.mod_eq_of_lt (by omega)
        rw [if_neg more, whole]
        rw [whole] at small
        simp only [List.foldlM_cons, List.foldlM_nil, valued n small, Option.pure_def,
          Option.bind_eq_bind, Option.bind_some, if_pos small, Nat.mul_zero, Nat.zero_add]

theorem wdigits_line (width n : Nat) : '\n' ∉ wdigits digits step positive width n := by
  induction width using Nat.strongRecOn generalizing n with
  | ind width ih =>
      have small : extractBigInt n 0 step < 2 ^ step := Nat.mod_lt _ (Nat.two_pow_pos step)
      have digit : '\n' ≠ digits.getD (extractBigInt n 0 step) '0' := by
        intro same
        have value := valued _ small
        have none : digitValue '\n' = none := rfl
        rw [← same, none] at value
        contradiction
      rw [wdigits, List.mem_append, List.mem_singleton, not_or]
      refine ⟨?_, digit⟩
      split_ifs with more
      · exact ih (width - step) (by omega) (n >>> step)
      · exact List.not_mem_nil

end Digits

theorem input_lines_line (line text : List Char) (plain : '\n' ∉ line) :
    inputLines (line ++ '\n' :: text) = line :: inputLines text := by
  induction line with
  | nil => rfl
  | cons c line ih =>
      rw [List.mem_cons, not_or] at plain
      rw [List.cons_append, inputLines, if_neg (Ne.symm plain.1), ih plain.2]

theorem read_lines_written (base : Nat) (write : Nat → List Char) (numbers : List Nat)
    (plain : ∀ n ∈ numbers, '\n' ∉ write n)
    (read : ∀ n ∈ numbers, readNumber base (write n) = some n) :
    readLines base (numbers.flatMap fun arg => write arg ++ ['\n']) = some numbers := by
  induction numbers with
  | nil => rfl
  | cons n numbers ih =>
      have rest := ih (fun n member => plain n (List.mem_cons_of_mem _ member))
        fun n member => read n (List.mem_cons_of_mem _ member)
      rw [readLines] at rest
      rw [readLines, List.flatMap_cons, List.append_assoc, List.singleton_append,
        input_lines_line _ _ (plain n List.mem_cons_self), List.mapM_cons,
        read n List.mem_cons_self, rest]
      rfl

theorem bin_digit (number : Nat) (small : number < 2 ^ 1) :
    digitValue ("01".toList.getD number '0') = some number := by
  interval_cases number <;> rfl

theorem log_read (width : Nat) (numbers : List Nat) (fits : ∀ n ∈ numbers, n < 2 ^ width) :
    readLines 2 (numbers.flatMap fun arg => wbin width arg ++ ['\n']) = some numbers :=
  read_lines_written 2 (wbin width) numbers
    (fun n _ => wdigits_line Nat.zero_lt_one bin_digit width n)
    fun n member => wdigits_read Nat.zero_lt_one bin_digit width n (fits n member)

theorem hex_read (width : Nat) (numbers : List Nat) (fits : ∀ n ∈ numbers, n < 2 ^ width) :
    readLines 16 (numbers.flatMap fun arg => whex width arg ++ ['\n']) = some numbers :=
  read_lines_written 16 (whex width) numbers
    (fun n _ => wdigits_line (Nat.succ_pos 3) digit_value_hex_digit width n)
    fun n member => wdigits_read (Nat.succ_pos 3) digit_value_hex_digit width n (fits n member)

theorem wraw_succ (bytes n : Nat) :
    wraw (8 * (bytes + 2)) n = BitVec.ofNat 8 (n % 16) :: wraw (8 * (bytes + 1)) (n / 256) := by
  have less : 8 * (bytes + 2) - 8 = 8 * (bytes + 1) := by omega
  rw [wraw, if_pos (by omega), less, Nat.shiftRight_eq_div_pow]
  rfl

theorem wraw_byte (n : Nat) : wraw (8 * 1) n = [BitVec.ofNat 8 (n % 16)] := by
  rw [wraw]
  rfl

theorem wraw_length (bytes n : Nat) : (wraw (8 * (bytes + 1)) n).length = bytes + 1 := by
  induction bytes generalizing n with
  | zero => rw [wraw_byte]; rfl
  | succ bytes ih => rw [wraw_succ, List.length_cons, ih]

theorem nibble_byte (n : Nat) : (BitVec.ofNat 8 (n % 16)).toNat = n % 16 := by
  rw [BitVec.toNat_ofNat]
  omega

/-- The bytes written stand for the number exactly if each of its bytes has no high bits. -/
theorem wraw_value_iff (bytes n : Nat) (fits : n < 256 ^ (bytes + 1)) :
    littleEndian (wraw (8 * (bytes + 1)) n) = n ↔
      ∀ i, i < bytes + 1 → n / 256 ^ i % 256 < 16 := by
  induction bytes generalizing n with
  | zero =>
      have single : littleEndian [BitVec.ofNat 8 (n % 16)] = n % 16 := nibble_byte n
      rw [wraw_byte, single]
      constructor
      · intro same i inside
        have first : i = 0 := by omega
        rw [first, Nat.pow_zero, Nat.div_one]
        omega
      · intro low
        have first := low 0 (by decide)
        rw [Nat.pow_zero, Nat.div_one] at first
        omega
  | succ bytes ih =>
      have quotient : n / 256 < 256 ^ (bytes + 1) := by
        rw [Nat.pow_succ] at fits
        omega
      have rest := ih (n / 256) quotient
      have shifted : ∀ i, n / 256 ^ (i + 1) = n / 256 / 256 ^ i := by
        intro i
        rw [Nat.pow_succ, Nat.mul_comm, Nat.div_div_eq_div_mul]
      rw [wraw_succ, littleEndian, nibble_byte]
      generalize littleEndian (wraw (8 * (bytes + 1)) (n / 256)) = tail at rest
      constructor
      · intro same i inside
        cases i with
        | zero =>
            rw [Nat.pow_zero, Nat.div_one]
            omega
        | succ i =>
            rw [shifted]
            exact rest.mp (by omega) i (by omega)
      · intro low
        have first := low 0 (by omega)
        rw [Nat.pow_zero, Nat.div_one] at first
        have same := rest.mpr fun i inside => shifted i ▸ low (i + 1) (by omega)
        omega

theorem flat_map_length (size : Nat) (write : Nat → List (BitVec 8))
    (length : ∀ n, (write n).length = size) (numbers : List Nat) :
    (numbers.flatMap write).length = size * numbers.length := by
  induction numbers with
  | nil => rfl
  | cons n numbers ih =>
      rw [List.flatMap_cons, List.length_append, length, ih, List.length_cons, Nat.mul_succ,
        Nat.add_comm]

theorem read_words_written (size : Nat) (positive : 0 < size) (write : Nat → List (BitVec 8))
    (length : ∀ n, (write n).length = size) (numbers : List Nat) :
    readWords size (numbers.flatMap write) =
      some (numbers.map fun n => littleEndian (write n)) := by
  have whole := flat_map_length size write length numbers
  have words : ∀ k, k < numbers.length →
      ((numbers.flatMap write).drop (size * k)).take size = write (numbers.getD k 0) := by
    intro k inside
    induction numbers generalizing k with
    | nil => exact absurd inside (Nat.not_lt_zero k)
    | cons n numbers ih =>
        rw [List.flatMap_cons]
        cases k with
        | zero =>
            rw [Nat.mul_zero, List.drop_zero]
            exact List.take_left' (length n)
        | succ k =>
            have place : size * (k + 1) = (write n).length + size * k := by
              rw [length, Nat.mul_succ, Nat.add_comm]
            rw [place, List.drop_length_add_append]
            exact ih (flat_map_length size write length numbers) k (by simpa using inside)
  have even : ¬(size = 0 ∨ (numbers.flatMap write).length % size ≠ 0) := by
    rw [whole, Nat.mul_mod_right]
    omega
  rw [readWords, if_neg even, whole, Nat.mul_div_cancel_left _ positive]
  apply congrArg some
  apply List.ext_getElem
  · rw [List.length_map, List.length_map, List.length_range]
  · intro k _ inside
    rw [List.length_map] at inside
    rw [List.getElem_map, List.getElem_map, List.getElem_range, words k inside,
      List.getD_eq_getElem _ _ inside]

theorem bin_read_iff (bytes : Nat) (numbers : List Nat)
    (fits : ∀ n ∈ numbers, n < 256 ^ (bytes + 1)) :
    readWords (bytes + 1) (numbers.flatMap (wraw (8 * (bytes + 1)))) = some numbers ↔
      ∀ n ∈ numbers, ∀ i, i < bytes + 1 → n / 256 ^ i % 256 < 16 := by
  have same : numbers.map (fun n => littleEndian (wraw (8 * (bytes + 1)) n)) = numbers ↔
      ∀ n ∈ numbers, littleEndian (wraw (8 * (bytes + 1)) n) = n := by
    conv_lhs => rhs; rw [← List.map_id numbers]
    exact List.map_inj_left
  rw [read_words_written _ (Nat.succ_pos bytes) _ (wraw_length bytes), Option.some_inj, same]
  constructor
  · intro values n member
    exact (wraw_value_iff bytes n (fits n member)).mp (values n member)
  · intro low n member
    exact (wraw_value_iff bytes n (fits n member)).mpr (low n member)

theorem parsed_line (lines : List (List Char)) (numbers : List Nat)
    (parsed : lines.mapM rbin = .ok numbers) :
    ∀ n ∈ numbers, ∃ line ∈ lines, rbin line = .ok n := by
  induction lines generalizing numbers with
  | nil =>
      have none : numbers = [] := (Except.ok.inj parsed).symm
      rw [none]
      exact fun n member => absurd member List.not_mem_nil
  | cons line lines ih =>
      rw [List.mapM_cons] at parsed
      cases first : rbin line with
      | error exn =>
          rw [first] at parsed
          change Except.error exn = _ at parsed
          contradiction
      | ok number =>
          rw [first, ok_bind] at parsed
          cases rest : lines.mapM rbin with
          | error exn =>
              rw [rest] at parsed
              change Except.error exn = _ at parsed
              contradiction
          | ok others =>
              rw [rest, ok_bind] at parsed
              have all : numbers = number :: others := (Except.ok.inj parsed).symm
              rw [all]
              intro n member
              rcases List.mem_cons.mp member with same | other
              · exact ⟨line, List.mem_cons_self, same ▸ first⟩
              · obtain ⟨source, behind, read⟩ := ih others rest n other
                exact ⟨source, List.mem_cons_of_mem _ behind, read⟩

theorem main_files (lines : List (List Char)) (nonempty : lines ≠ []) (width : Nat)
    (equal : ∀ line ∈ lines, line.length = width) (numbers : List Nat)
    (parsed : lines.mapM rbin = .ok numbers) :
    main lines = .ok {
      log := numbers.flatMap fun arg => wbin width arg ++ ['\n']
      hex := numbers.flatMap fun arg => whex width arg ++ ['\n']
      bin := numbers.flatMap (wraw width) } := by
  rw [main, parsed, ok_bind]
  cases reversed : lines.reverse with
  | nil => exact absurd (List.reverse_eq_nil_iff.mp reversed) nonempty
  | cons last before =>
      have member : last ∈ lines := by
        rw [← List.mem_reverse, reversed]
        exact List.mem_cons_self
      rw [← equal last member]
      rfl

/-- The binary and the hexadecimal listing always hold the words; the bytes do if each byte
of each word has its high four bits clear. -/
theorem listings_agree_iff (lines : List (List Char)) (nonempty : lines ≠ []) (width : Nat)
    (equal : ∀ line ∈ lines, line.length = width) (eight : 8 ∣ width) (numbers : List Nat)
    (parsed : lines.mapM rbin = .ok numbers) :
    ∃ files, main lines = .ok files ∧
      (Agree width numbers files ↔
        0 < width ∧ ∀ n ∈ numbers, ∀ i, i < width / 8 → n / 256 ^ i % 256 < 16) := by
  have fits : ∀ n ∈ numbers, n < 2 ^ width := by
    intro n member
    obtain ⟨line, among, read⟩ := parsed_line lines numbers parsed n member
    rw [← equal line among]
    exact rbin_lt line n read
  refine ⟨_, main_files lines nonempty width equal numbers parsed, ?_⟩
  obtain ⟨bytes, rfl⟩ := eight
  have size : 8 * bytes / 8 = bytes := Nat.mul_div_cancel_left bytes (by decide)
  have log := log_read (8 * bytes) numbers fits
  have hex := hex_read (8 * bytes) numbers fits
  rw [size]
  cases bytes with
  | zero =>
      constructor
      · intro agree
        have read := agree.bin
        rw [size, readWords, if_pos (.inl rfl)] at read
        contradiction
      · rintro ⟨positive, _⟩
        exact absurd positive (Nat.lt_irrefl 0)
  | succ bytes =>
      have power : 2 ^ (8 * (bytes + 1)) = 256 ^ (bytes + 1) := Nat.pow_mul 2 8 (bytes + 1)
      have bin := bin_read_iff bytes numbers (by rwa [← power])
      constructor
      · intro agree
        have read := agree.bin
        rw [size] at read
        exact ⟨by omega, bin.mp read⟩
      · rintro ⟨_, low⟩
        refine ⟨log, hex, ?_⟩
        rw [size]
        exact bin.mpr low

private def smallBytes : List (List Char) :=
  ["0000000100001010".toList, "0000011_00000010".toList]

theorem listings_agree_iff_small_bytes :
    ∃ files, main smallBytes = .ok files ∧
      (Agree 16 [266, 770] files ↔
        0 < 16 ∧ ∀ n ∈ [266, 770], ∀ i, i < 16 / 8 → n / 256 ^ i % 256 < 16) :=
  listings_agree_iff smallBytes (by decide) 16 (by decide) (by decide) [266, 770] (by decide)

/-- The word 16 is written as the byte 0. -/
theorem high_bits_lost :
    ∃ files, main ["00010000".toList] = .ok files ∧
      readWords 1 files.bin = some [0] ∧ ¬Agree 8 [16] files := by
  have parsed : ["00010000".toList].mapM rbin = .ok [16] := by decide
  have written := main_files ["00010000".toList] (by decide) 8 (by decide) [16] parsed
  refine ⟨_, written, ?_⟩
  have byte : wraw 8 16 = [0] := wraw_byte 16
  have bin : readWords 1 ([16].flatMap (wraw 8)) = some [0] := by
    rw [List.flatMap_singleton, byte]
    rfl
  refine ⟨bin, ?_⟩
  intro agree
  have read := agree.bin
  rw [bin] at read
  exact absurd read (by decide)

end MinionSubsystem.RomListing
