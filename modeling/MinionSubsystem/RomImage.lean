import MinionSubsystem.HexText
import Mathlib.Data.List.TakeWhile

/-!
# The image that `cnv` builds from a hex file

`cnv` reads bytes into the array `bigbuf` and then packs four of them into a word,
in the same array. Word `i` is written when the bytes from `4 * i` on have been
read, so no byte is lost to an earlier word; a last word of fewer than four bytes
is dropped, and an image that reaches the end of the array leaves it.
-/

namespace MinionSubsystem.RomImage

open MinionSubsystem.HexText

set_option autoImplicit false

inductive Exn where
  | failure (text : List Char)
  | scanFailure
  | endOfFile
  | invalidArgument
  deriving DecidableEq, Repr

/-- `Char.lowercase`, on Latin-1. -/
def lowercase (c : Char) : Char :=
  if 65 ≤ c.toNat ∧ c.toNat ≤ 90 ∨ 192 ≤ c.toNat ∧ c.toNat ≤ 214 ∨
      216 ≤ c.toNat ∧ c.toNat ≤ 222 then
    Char.ofNat (c.toNat + 32)
  else c

def rbinFrom (value : Nat) : List Char → Except Exn Nat
  | [] => .ok value
  | c :: str =>
      let ch := (lowercase c).toNat
      if ch = 32 then rbinFrom value str
      else if ch = 95 then rbinFrom value str
      else if 48 ≤ ch ∧ ch ≤ 57 then rbinFrom (value <<< 4 + (ch - 48)) str
      else if 97 ≤ ch ∧ ch ≤ 102 then rbinFrom (value <<< 4 + (ch - 97 + 10)) str
      else if 65 ≤ ch ∧ ch ≤ 70 then rbinFrom (value <<< 4 + (ch - 65 + 10)) str
      else .error (.failure (c :: str))

def rbin (str : List Char) : Except Exn Nat := rbinFrom 0 str

def blank (c : Char) : Bool := c = ' ' || c = '\r'

/-- The loop over the items of a line; every round takes at least a space off `linbuf`. -/
def lineItems : Nat → List Char → Except Exn (List Nat)
  | 0, _ => .ok []
  | fuel + 1, linbuf =>
      if ' ' ∈ linbuf then do
        let itm ← rbin (linbuf.takeWhile (· ≠ ' '))
        let lst ← lineItems fuel ((linbuf.dropWhile (· ≠ ' ')).dropWhile blank)
        return itm :: lst
      else .ok []

/-- `int_of_string` of the token behind `0x`: 63 bits, with wrap-around. `sscanf` turns its
failure into its own. -/
def intOfHex (token : List Char) : Except Exn Int :=
  let value := hexValue token
  if value < 2 ^ 62 then .ok value
  else if value < 2 ^ 63 then .ok (value - 2 ^ 63)
  else .error .scanFailure

/-- `Scanf.sscanf linbuf "@%X"`. Behind its first digit a number may contain `_`. -/
def scanAddress (linbuf : List Char) : Except Exn Int :=
  match linbuf with
  | [] => .error .endOfFile
  | '@' :: [] => .error .endOfFile
  | '@' :: first :: rest =>
      if (digitValue first).isSome then
        intOfHex (first ::
          (rest.takeWhile fun c => (digitValue c).isSome || c = '_').filter (· ≠ '_'))
      else .error .scanFailure
  | _ => .error .scanFailure

structure Buffer where
  bigbuf : Nat → Nat
  addr : Int

def bufSize : Nat := 1 <<< 16

/-- `bigbuf.(index) <- data`. -/
def setItem (index : Int) (data : Nat) (bigbuf : Nat → Nat) : Except Exn (Nat → Nat) :=
  if 0 ≤ index ∧ index < bufSize then
    .ok fun place => if place = index.toNat then data else bigbuf place
  else .error .invalidArgument

def storeItem (buffer : Buffer) (data : Nat) : Except Exn Buffer := do
  let bigbuf ← setItem buffer.addr data buffer.bigbuf
  return { bigbuf := bigbuf, addr := buffer.addr + 1 }

def storeLine (buffer : Buffer) (line : List Char) : Except Exn Buffer := do
  let linbuf := line ++ [' ']
  let rlst ← lineItems (linbuf.length + 1) linbuf
  rlst.foldlM storeItem buffer

def packWord (addr : Int) (bigbuf : Nat → Nat) (i : Nat) : Nat :=
  if (i * 4 + 3 : Nat) < addr then
    (bigbuf (i * 4 + 3) <<< 24 + bigbuf (i * 4 + 2) <<< 16) +
      (bigbuf (i * 4 + 1) <<< 8 + bigbuf (i * 4 + 0) <<< 0)
  else 0

def packLoop (addr : Int) : Nat → (Nat → Nat) → Except Exn (Nat → Nat)
  | 0, bigbuf => .ok bigbuf
  | i + 1, bigbuf => do
      let bigbuf ← packLoop addr i bigbuf
      setItem i (packWord addr bigbuf i) bigbuf

def cnv (file : List (List Char)) : Except Exn (List Nat) :=
  match file with
  | [] => .error .endOfFile
  | linbuf :: lines => do
      let addr ← scanAddress linbuf
      let buffer ← lines.foldlM storeLine { bigbuf := fun _ => 0, addr := addr }
      let bigbuf ← packLoop buffer.addr (buffer.addr + 1).toNat buffer.bigbuf
      return (List.range (1 <<< 14)).map bigbuf

structure HexByte where
  high : Char
  low : Char
  highDigit : (digitValue high).isSome
  lowDigit : (digitValue low).isSome

def HexByte.value (byte : HexByte) : Nat := hexValue [byte.high, byte.low]

/-- A file with an address in hex and lines of bytes, none of them empty. -/
structure HexFile where
  address : List Char
  addressDigits : ∀ c ∈ address, (digitValue c).isSome
  addressSome : address ≠ []
  lines : List (List HexByte)
  linesSome : ∀ line ∈ lines, line ≠ []

def lineText (line : List HexByte) : List Char :=
  List.intercalate [' '] (line.map fun byte => [byte.high, byte.low])

namespace HexFile

variable (file : HexFile)

def text : List (List Char) := ('@' :: file.address) :: file.lines.map lineText

def start : Nat := hexValue file.address

def bytes : List Nat := file.lines.flatten.map HexByte.value

def stop : Nat := file.start + file.bytes.length

/-- The byte that the file puts at an address, 0 where it puts none. -/
def byteAt (address : Nat) : Nat :=
  if file.start ≤ address then file.bytes.getD (address - file.start) 0 else 0

/-- 16384 words that hold the bytes of the file, four to a word, and nothing else. -/
structure Holds (words : List Nat) : Prop where
  length : words.length = 16384
  bits : ∀ index, index < 16384 → ∀ bit, (words.getD index 0).testBit bit =
    (decide (bit < 32) && (file.byteAt (4 * index + bit / 8)).testBit (bit % 8))

def Converted : Prop := ∃ words, cnv file.text = .ok words ∧ file.Holds words

end HexFile

theorem digit_mem (c : Char) (digit : (digitValue c).isSome) :
    c ∈ "0123456789ABCDEFabcdef".toList := by
  have codes : ∀ number < 128, (digitValue (Char.ofNat number)).isSome →
      Char.ofNat number ∈ "0123456789ABCDEFabcdef".toList := by decide +kernel
  have small : c.toNat < 128 := by
    unfold digitValue at digit
    split_ifs at digit with decimal upper lower
    · omega
    · omega
    · omega
    · cases digit
  have spelled := codes c.toNat small
  rw [Char.ofNat_toNat] at spelled
  exact spelled digit

theorem rbin_from_digit (c : Char) (digit : (digitValue c).isSome) (value : Nat)
    (str : List Char) :
    rbinFrom value (c :: str) = rbinFrom (16 * value + (digitValue c).getD 0) str := by
  have checked : "0123456789ABCDEFabcdef".toList.all (fun c =>
      (48 ≤ (lowercase c).toNat ∧ (lowercase c).toNat ≤ 57 ∧
        digitValue c = some ((lowercase c).toNat - 48)) ∨
      (97 ≤ (lowercase c).toNat ∧ (lowercase c).toNat ≤ 102 ∧
        digitValue c = some ((lowercase c).toNat - 97 + 10))) = true := by decide +kernel
  have codes := of_decide_eq_true (List.all_eq_true.mp checked c (digit_mem c digit))
  have shift : value <<< 4 = 16 * value := by rw [Nat.shiftLeft_eq, Nat.mul_comm]
  rw [rbinFrom]
  rcases codes with ⟨least, most, number⟩ | ⟨least, most, number⟩
  · rw [if_neg (by omega), if_neg (by omega), if_pos ⟨least, most⟩, number, shift]
    rfl
  · rw [if_neg (by omega), if_neg (by omega), if_neg (by omega), if_pos ⟨least, most⟩, number,
      shift]
    rfl

/-- A digit is no space, carriage return or underscore. -/
theorem digit_apart (c : Char) (digit : (digitValue c).isSome) : blank c = false ∧ c ≠ '_' := by
  have checked : "0123456789ABCDEFabcdef".toList.all
      (fun c => blank c = false ∧ c ≠ '_') = true := by decide +kernel
  exact of_decide_eq_true (List.all_eq_true.mp checked c (digit_mem c digit))

theorem not_space (c : Char) (visible : blank c = false) : c ≠ ' ' := by
  rintro rfl
  cases visible

theorem HexByte.rbin_value (byte : HexByte) : rbin [byte.high, byte.low] = .ok byte.value := by
  rw [rbin, rbin_from_digit _ byte.highDigit, rbin_from_digit _ byte.lowDigit, rbinFrom,
    HexByte.value]
  rfl

theorem HexByte.value_lt (byte : HexByte) : byte.value < 256 := by
  obtain ⟨high, highDigit⟩ := Option.isSome_iff_exists.mp byte.highDigit
  obtain ⟨low, lowDigit⟩ := Option.isSome_iff_exists.mp byte.lowDigit
  have highBound := digit_value_bound _ _ highDigit
  have lowBound := digit_value_bound _ _ lowDigit
  have value : byte.value = 16 * high + low := by
    simp [HexByte.value, hexValue, highDigit, lowDigit]
  omega

/-- A line with the space that `cnv` adds: every byte has a space behind it. -/
def spacedText (line : List HexByte) : List Char :=
  line.flatMap fun byte => [byte.high, byte.low, ' ']

theorem line_text_spaced (line : List HexByte) (some : line ≠ []) :
    lineText line ++ [' '] = spacedText line := by
  induction line with
  | nil => exact absurd rfl some
  | cons byte rest ih =>
      cases rest with
      | nil => rfl
      | cons next rest =>
          have tail := ih (List.cons_ne_nil next rest)
          have head : lineText (byte :: next :: rest) =
              byte.high :: byte.low :: ' ' :: lineText (next :: rest) := rfl
          rw [head, List.cons_append, List.cons_append, List.cons_append, tail]
          rfl

theorem spaced_text_visible (line : List HexByte) :
    (spacedText line).dropWhile blank = spacedText line := by
  cases line with
  | nil => rfl
  | cons byte rest =>
      have visible := (digit_apart _ byte.highDigit).1
      exact List.dropWhile_cons_of_neg (by rw [visible]; decide)

theorem line_items_spaced (line : List HexByte) (fuel : Nat) (enough : line.length < fuel) :
    lineItems fuel (spacedText line) = .ok (line.map HexByte.value) := by
  induction line generalizing fuel with
  | nil =>
      cases fuel with
      | zero => omega
      | succ fuel => rfl
  | cons byte rest ih =>
      cases fuel with
      | zero => omega
      | succ fuel =>
          have high := not_space _ (digit_apart _ byte.highDigit).1
          have low := not_space _ (digit_apart _ byte.lowDigit).1
          have text : spacedText (byte :: rest) =
              byte.high :: byte.low :: ' ' :: spacedText rest := rfl
          have space : ' ' ∈ spacedText (byte :: rest) := by simp [text]
          have item : (spacedText (byte :: rest)).takeWhile (· ≠ ' ') =
              [byte.high, byte.low] := by
            simp [text, high, low]
          have left : ((spacedText (byte :: rest)).dropWhile (· ≠ ' ')).dropWhile blank =
              spacedText rest := by
            have skipped : (spacedText (byte :: rest)).dropWhile (· ≠ ' ') =
                ' ' :: spacedText rest := by
              simp [text, high, low]
            rw [skipped, List.dropWhile_cons_of_pos (by decide), spaced_text_visible]
          have items := ih fuel (by rw [List.length_cons] at enough; omega)
          rw [lineItems, if_pos space, item, left, byte.rbin_value, items]
          rfl

theorem store_line_text (buffer : Buffer) (line : List HexByte) (some : line ≠ []) :
    storeLine buffer (lineText line) = (line.map HexByte.value).foldlM storeItem buffer := by
  have long : line.length < (spacedText line).length + 1 := by
    have three : (spacedText line).length = 3 * line.length := by
      simp [spacedText, List.length_flatMap, List.map_const', Nat.mul_comm]
    omega
  simp only [storeLine, line_text_spaced line some, line_items_spaced line _ long]
  rfl

theorem store_lines_text (lines : List (List HexByte)) (some : ∀ line ∈ lines, line ≠ [])
    (buffer : Buffer) :
    (lines.map lineText).foldlM storeLine buffer =
      (lines.flatten.map HexByte.value).foldlM storeItem buffer := by
  induction lines generalizing buffer with
  | nil => rfl
  | cons line rest ih =>
      have first := store_line_text buffer line (some line List.mem_cons_self)
      have others := ih fun line mem => some line (List.mem_cons_of_mem _ mem)
      rw [List.map_cons, List.foldlM_cons, first, List.flatten_cons, List.map_append,
        List.foldlM_append]
      congr 1
      funext stored
      exact others stored

theorem scan_address_digits (address : List Char) (digits : ∀ c ∈ address, (digitValue c).isSome)
    (some : address ≠ []) (small : hexValue address < 2 ^ 62) :
    scanAddress ('@' :: address) = .ok (hexValue address : Int) := by
  cases address with
  | nil => exact absurd rfl some
  | cons first rest =>
      have restDigits : ∀ c ∈ rest, (digitValue c).isSome :=
        fun c mem => digits c (List.mem_cons_of_mem _ mem)
      have whole : (rest.takeWhile fun c => (digitValue c).isSome || c = '_') = rest := by
        rw [List.takeWhile_eq_self_iff]
        intro c mem
        rw [restDigits c mem, Bool.true_or]
      have plain : rest.filter (· ≠ '_') = rest := by
        rw [List.filter_eq_self]
        intro c mem
        exact decide_eq_true (digit_apart c (restDigits c mem)).2
      rw [scanAddress, if_pos (digits first List.mem_cons_self), whole, plain, intOfHex,
        if_pos small]

theorem ok_bind {α β : Type} (value : α) (next : α → Except Exn β) :
    (Except.ok value >>= next) = next value := rfl

theorem set_item_inside (index data : Nat) (inside : index < 65536) (bigbuf : Nat → Nat) :
    setItem index data bigbuf = .ok fun place => if place = index then data else bigbuf place := by
  have size : bufSize = 65536 := rfl
  rw [setItem, if_pos ⟨by omega, by omega⟩, Int.toNat_natCast]

def placed (start : Nat) (items : List Nat) (bigbuf : Nat → Nat) (place : Nat) : Nat :=
  if start ≤ place ∧ place < start + items.length then items.getD (place - start) 0
  else bigbuf place

theorem placed_nil (start : Nat) (bigbuf : Nat → Nat) : placed start [] bigbuf = bigbuf := by
  funext place
  exact if_neg (by rw [List.length_nil]; omega)

theorem placed_cons (start item : Nat) (rest : List Nat) (bigbuf : Nat → Nat) :
    placed start (item :: rest) bigbuf =
      placed (start + 1) rest fun place => if place = start then item else bigbuf place := by
  funext place
  rw [placed, placed, List.length_cons]
  rcases Nat.lt_trichotomy place start with before | here | behind
  · rw [if_neg (by omega), if_neg (by omega), if_neg (by omega)]
  · rw [if_pos (by omega), if_neg (by omega), if_pos here, here, Nat.sub_self]
    rfl
  · have next : place - start = place - (start + 1) + 1 := by omega
    rw [if_neg (by omega : place ≠ start), next, List.getD_cons_succ]
    by_cases inside : place < start + 1 + rest.length
    · rw [if_pos (by omega), if_pos (by omega)]
    · rw [if_neg (by omega), if_neg (by omega)]

/-- The items are stored at `addr` and behind it. -/
theorem store_items (items : List Nat) (start : Nat) (fits : start + items.length ≤ 65536)
    (bigbuf : Nat → Nat) :
    items.foldlM storeItem { bigbuf := bigbuf, addr := start } =
      .ok { bigbuf := placed start items bigbuf, addr := (start + items.length : Nat) } := by
  induction items generalizing start bigbuf with
  | nil =>
      rw [List.foldlM_nil, placed_nil]
      rfl
  | cons item rest ih =>
      rw [List.length_cons] at fits
      have stored : storeItem { bigbuf := bigbuf, addr := start } item = .ok
          { bigbuf := fun place => if place = start then item else bigbuf place
            addr := (start + 1 : Nat) } := by
        rw [storeItem, set_item_inside start item (by omega), ok_bind]
        rfl
      have behind : start + 1 + rest.length = start + (item :: rest).length := by
        rw [List.length_cons, Nat.add_assoc, Nat.add_comm 1]
      rw [List.foldlM_cons, stored, ok_bind, ih (start + 1) (by omega), placed_cons, behind]

/-- Word `i` is packed from bytes at `4 * i` and above, which no word before it has replaced. -/
theorem pack_loop_words (addr : Int) (bigbuf : Nat → Nat) (count : Nat) (fits : count ≤ 65536) :
    packLoop addr count bigbuf = .ok fun place =>
      if place < count then packWord addr bigbuf place else bigbuf place := by
  induction count with
  | zero => rfl
  | succ count ih =>
      have kept : ∀ offset, ¬count * 4 + offset < count := by omega
      have unread : packWord addr
          (fun place => if place < count then packWord addr bigbuf place else bigbuf place) count =
            packWord addr bigbuf count := by
        rw [packWord, if_neg (kept 3), if_neg (kept 2), if_neg (kept 1), if_neg (kept 0)]
        rfl
      rw [packLoop, ih (by omega), ok_bind, unread, set_item_inside count _ (by omega)]
      congr 1
      funext place
      rcases Nat.lt_trichotomy place count with before | here | behind
      · rw [if_neg (by omega), if_pos before, if_pos (by omega)]
      · rw [if_pos here, if_pos (by omega), here]
      · rw [if_neg (by omega), if_neg (by omega), if_neg (by omega)]

/-- The round at the end of the array leaves it. -/
theorem pack_loop_past (addr : Int) (bigbuf : Nat → Nat) :
    packLoop addr 65537 bigbuf = .error .invalidArgument := by
  have outside : ∀ data (words : Nat → Nat),
      setItem (65536 : Nat) data words = .error .invalidArgument := by
    intro data words
    exact if_neg (by decide)
  rw [packLoop, pack_loop_words addr bigbuf 65536 (Nat.le_refl _), ok_bind, outside]

theorem packed_bit (b0 b1 b2 b3 : Nat) (bound0 : b0 < 256) (bound1 : b1 < 256)
    (bound2 : b2 < 256) (bound3 : b3 < 256) (bit : Nat) :
    ((b3 <<< 24 + b2 <<< 16) + (b1 <<< 8 + b0 <<< 0)).testBit bit =
      (decide (bit < 32) &&
        ([b0, b1, b2, b3].getD (bit / 8) 0).testBit (bit % 8)) := by
  have nested : (b3 <<< 24 + b2 <<< 16) + (b1 <<< 8 + b0 <<< 0) =
      2 ^ 8 * (2 ^ 8 * (2 ^ 8 * b3 + b2) + b1) + b0 := by
    simp only [Nat.shiftLeft_eq]
    omega
  rw [nested, Nat.testBit_two_pow_mul_add _ bound0, Nat.testBit_two_pow_mul_add _ bound1,
    Nat.testBit_two_pow_mul_add _ bound2]
  by_cases first : bit < 8
  · rw [if_pos first, decide_eq_true (by omega), Nat.div_eq_of_lt first, Nat.mod_eq_of_lt first]
    rfl
  · by_cases second : bit < 16
    · have part : bit / 8 = 1 := by omega
      rw [if_neg first, if_pos (by omega), decide_eq_true (by omega), part,
        show bit - 8 = bit % 8 by omega]
      rfl
    · by_cases third : bit < 24
      · have part : bit / 8 = 2 := by omega
        rw [if_neg first, if_neg (by omega), if_pos (by omega), decide_eq_true (by omega), part,
          show bit - 8 - 8 = bit % 8 by omega]
        rfl
      · rw [if_neg first, if_neg (by omega), if_neg (by omega)]
        by_cases last : bit < 32
        · have part : bit / 8 = 3 := by omega
          rw [decide_eq_true last, part, show bit - 8 - 8 - 8 = bit % 8 by omega]
          rfl
        · have power : 2 ^ 8 ≤ 2 ^ (bit - 8 - 8 - 8) :=
            Nat.pow_le_pow_right (by decide) (by omega)
          have high : b3 < 2 ^ (bit - 8 - 8 - 8) := Nat.lt_of_lt_of_le bound3 power
          rw [decide_eq_false last, Nat.testBit_lt_two_pow high, Bool.false_and]

namespace HexFile

variable (file : HexFile)

theorem byte_at_lt (address : Nat) : file.byteAt address < 256 := by
  have small : ∀ byte ∈ file.bytes, byte < 256 := by
    intro byte mem
    obtain ⟨written, -, value⟩ := List.mem_map.mp mem
    exact value ▸ written.value_lt
  rw [byteAt]
  split_ifs with behind
  · by_cases inside : address - file.start < file.bytes.length
    · rw [List.getD_eq_getElem _ _ inside]
      exact small _ (List.getElem_mem inside)
    · rw [List.getD_eq_default _ _ (by omega)]
      decide
  · decide

theorem byte_at_behind (address : Nat) (behind : file.stop ≤ address) :
    file.byteAt address = 0 := by
  rw [stop] at behind
  rw [byteAt]
  split_ifs
  · exact List.getD_eq_default _ _ (by omega)
  · rfl

theorem placed_byte_at : placed file.start file.bytes (fun _ => 0) = file.byteAt := by
  funext place
  rw [placed, byteAt]
  by_cases before : file.start ≤ place
  · by_cases inside : place < file.start + file.bytes.length
    · rw [if_pos ⟨before, inside⟩, if_pos before]
    · rw [if_neg (by omega), if_pos before, List.getD_eq_default _ _ (by omega)]
  · rw [if_neg (by omega), if_neg before]

/-- Up to the packing every file is read into the array as it should be. -/
theorem cnv_text (fits : file.stop ≤ 65536) :
    cnv file.text = (packLoop file.stop (file.stop + 1) file.byteAt).map
      (List.range 16384).map := by
  have small : hexValue file.address < 2 ^ 62 := by
    have start : hexValue file.address ≤ file.stop := Nat.le_add_right _ _
    omega
  have read := scan_address_digits file.address file.addressDigits file.addressSome small
  have stored : file.bytes.foldlM storeItem { bigbuf := fun _ => 0, addr := file.start } =
      .ok { bigbuf := placed file.start file.bytes fun _ => 0, addr := file.stop } :=
    store_items file.bytes file.start fits fun _ => 0
  have rounds : ((file.stop : Int) + 1).toNat = file.stop + 1 := by omega
  rw [placed_byte_at] at stored
  rw [text, cnv, read, ok_bind, store_lines_text file.lines file.linesSome]
  refine (congrArg (· >>= _) stored).trans ?_
  rw [ok_bind]
  dsimp only
  rw [rounds]
  cases packLoop file.stop (file.stop + 1) file.byteAt with
  | error exn => rfl
  | ok words => rfl

/-- The word `cnv` makes at an index: four bytes, or 0 where the file ends within them. -/
def word (index : Nat) : Nat := packWord file.stop file.byteAt index

theorem cnv_words (room : file.stop < 65536) :
    cnv file.text = .ok ((List.range 16384).map file.word) := by
  rw [cnv_text file (by omega), pack_loop_words _ _ _ (by omega)]
  refine congrArg Except.ok (List.map_congr_left fun index mem => ?_)
  by_cases early : index < file.stop + 1
  · exact if_pos early
  · have behind : ¬((index * 4 + 3 : Nat) : Int) < file.stop := by omega
    have none : file.word index = 0 := if_neg behind
    rw [none]
    exact (if_neg early).trans (file.byte_at_behind index (by omega))

theorem cnv_full (full : file.stop = 65536) : cnv file.text = .error .invalidArgument := by
  rw [cnv_text file (by omega), full, pack_loop_past]
  rfl

theorem word_bit (index bit : Nat) (whole : 4 * index + 3 < file.stop) :
    (file.word index).testBit bit =
      (decide (bit < 32) && (file.byteAt (4 * index + bit / 8)).testBit (bit % 8)) := by
  have packed := packed_bit (file.byteAt (index * 4 + 0)) (file.byteAt (index * 4 + 1))
    (file.byteAt (index * 4 + 2)) (file.byteAt (index * 4 + 3)) (file.byte_at_lt _)
    (file.byte_at_lt _) (file.byte_at_lt _) (file.byte_at_lt _) bit
  have value : file.word index =
      (file.byteAt (index * 4 + 3) <<< 24 + file.byteAt (index * 4 + 2) <<< 16) +
        (file.byteAt (index * 4 + 1) <<< 8 + file.byteAt (index * 4 + 0) <<< 0) :=
    if_pos (by omega)
  rw [value, packed]
  by_cases short : bit < 32
  · have place : bit / 8 = 0 ∨ bit / 8 = 1 ∨ bit / 8 = 2 ∨ bit / 8 = 3 := by omega
    rcases place with part | part | part | part <;> rw [part, Nat.mul_comm index] <;> rfl
  · rw [decide_eq_false short, Bool.false_and, Bool.false_and]

theorem word_dropped (index : Nat) (partly : file.stop ≤ 4 * index + 3) : file.word index = 0 :=
  if_neg (by omega)

/-- The words hold the file exactly if the dropped last word has only zero bytes. -/
theorem words_hold_iff (fits : file.stop ≤ 65536) :
    file.Holds ((List.range 16384).map file.word) ↔
      ∀ address, 4 * (file.stop / 4) ≤ address → address < file.stop →
        file.byteAt address = 0 := by
  have entry : ∀ index, index < 16384 →
      ((List.range 16384).map file.word).getD index 0 = file.word index := by
    intro index inside
    rw [List.getD_eq_getElem _ _ (by simpa using inside), List.getElem_map, List.getElem_range]
  constructor
  · intro holds address late before
    refine Nat.eq_of_testBit_eq fun bit => ?_
    rw [Nat.zero_testBit]
    by_cases short : bit < 8
    · have bits := holds.bits (address / 4) (by omega) (8 * (address % 4) + bit)
      have part : (8 * (address % 4) + bit) / 8 = address % 4 := by omega
      have rest : (8 * (address % 4) + bit) % 8 = bit := by omega
      rw [entry _ (by omega), file.word_dropped _ (by omega), Nat.zero_testBit, part, rest,
        Nat.div_add_mod, decide_eq_true (by omega), Bool.true_and] at bits
      exact bits.symm
    · have power : 2 ^ 8 ≤ 2 ^ bit := Nat.pow_le_pow_right (by decide) (by omega)
      exact Nat.testBit_lt_two_pow (Nat.lt_of_lt_of_le (file.byte_at_lt address) power)
  · intro zeros
    refine ⟨by simp, fun index inside bit => ?_⟩
    rw [entry index inside]
    by_cases whole : 4 * index + 3 < file.stop
    · exact file.word_bit index bit whole
    · rw [file.word_dropped index (by omega), Nat.zero_testBit]
      by_cases short : bit < 32
      · have none : file.byteAt (4 * index + bit / 8) = 0 := by
          by_cases before : 4 * index + bit / 8 < file.stop
          · exact zeros _ (by omega) before
          · exact file.byte_at_behind _ (by omega)
        rw [none, Nat.zero_testBit, Bool.and_false]
      · rw [decide_eq_false short, Bool.false_and]

/-- `cnv` converts a file that fits if and only if it leaves room behind its last byte, and
the bytes behind its last whole word are zero. -/
theorem converts_whole_words (fits : file.stop ≤ 65536) :
    file.Converted ↔ file.stop < 65536 ∧
      ∀ address, 4 * (file.stop / 4) ≤ address → address < file.stop →
        file.byteAt address = 0 := by
  by_cases room : file.stop < 65536
  · have words := file.cnv_words room
    have held := file.words_hold_iff fits
    constructor
    · rintro ⟨result, returned, holds⟩
      have same : result = (List.range 16384).map file.word :=
        Except.ok.inj (returned.symm.trans words)
      exact ⟨room, held.mp (same ▸ holds)⟩
    · rintro ⟨-, zeros⟩
      exact ⟨_, words, held.mpr zeros⟩
  · have full := file.cnv_full (by omega)
    constructor
    · rintro ⟨result, returned, -⟩
      cases full.symm.trans returned
    · rintro ⟨below, -⟩
      exact absurd below room

end HexFile

def hexByte (high low : Nat) (highDigit : high < 16) (lowDigit : low < 16) : HexByte where
  high := hexDigit high
  low := hexDigit low
  highDigit := by rw [digit_value_hex_digit high highDigit]; rfl
  lowDigit := by rw [digit_value_hex_digit low lowDigit]; rfl

/-- The lines `@4` and `12 34 56 78`. -/
def wholeWord : HexFile where
  address := ['4']
  addressDigits := by
    intro c mem
    rw [List.mem_singleton.mp mem]
    rfl
  addressSome := by decide
  lines := [[hexByte 1 2 (by decide) (by decide), hexByte 3 4 (by decide) (by decide),
    hexByte 5 6 (by decide) (by decide), hexByte 7 8 (by decide) (by decide)]]
  linesSome := by
    intro line mem
    rw [List.mem_singleton.mp mem]
    exact List.cons_ne_nil _ _

theorem converts_whole_words_of_one_word : wholeWord.Converted :=
  (wholeWord.converts_whole_words (by decide)).mpr
    ⟨by decide, fun address late before => by
      have stop : wholeWord.stop = 8 := rfl
      rw [stop] at late before
      omega⟩

/-- The lines `@0` and `12`. -/
def oneByte : HexFile where
  address := ['0']
  addressDigits := by
    intro c mem
    rw [List.mem_singleton.mp mem]
    rfl
  addressSome := by decide
  lines := [[hexByte 1 2 (by decide) (by decide)]]
  linesSome := by
    intro line mem
    rw [List.mem_singleton.mp mem]
    exact List.cons_ne_nil _ _

/-- The only byte of a file is dropped. -/
theorem last_byte_dropped : oneByte.stop ≤ 65536 ∧ ¬oneByte.Converted := by
  refine ⟨by decide, fun ⟨result, returned, holds⟩ => ?_⟩
  have words := oneByte.cnv_words (by decide)
  have same : result = (List.range 16384).map oneByte.word :=
    Except.ok.inj (returned.symm.trans words)
  have zero := (oneByte.words_hold_iff (by decide)).mp (same ▸ holds) 0 (by decide) (by decide)
  exact absurd zero (by decide)

end MinionSubsystem.RomImage
