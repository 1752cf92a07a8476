import Mathlib.Algebra.BigOperators.Group.List.Basic
import Mathlib.Data.List.TakeWhile
import MinionSubsystem.SRecordLoad

/-!
# What the monitor takes for an S-record

`WellFormed` says what a record is. `Readable` says what `Read_SRecord` asks for:
it looks at the numbers its fields are read as, not at the characters of the
fields nor behind the checksum. A changed digit changes the sum of the bytes.
-/

namespace MinionSubsystem.SRecordCheck

open MinionSubsystem.HexText MinionSubsystem.SRecordLoad

set_option autoImplicit false

def isHexDigit (c : Char) : Bool := (digitValue c).isSome

def digit (c : Char) : Nat := (digitValue c).getD 0

def bytesOf : List Char → List Nat
  | high :: low :: text => (16 * digit high + digit low) :: bytesOf text
  | _ => []

structure Fields where
  type : Char
  count : List Char
  address : List Char
  data : List Char
  checksum : List Char

def Fields.digits (fields : Fields) : List Char :=
  fields.count ++ (fields.address ++ (fields.data ++ fields.checksum))

def Fields.text (fields : Fields) : List Char := startCode :: fields.type :: fields.digits

structure Fields.Valid (fields : Fields) : Prop where
  type : fields.type.isDigit = true
  digits : ∀ c ∈ fields.digits, isHexDigit c = true
  countLength : fields.count.length = 2
  addressLength : fields.address.length = addressLength (digit fields.type)
  dataLength : fields.data.length ≤ 2 * 32
  checksumLength : fields.checksum.length = 2
  count : 2 * hexValue fields.count =
    fields.address.length + fields.data.length + fields.checksum.length
  checksum : hexValue fields.checksum =
    255 - (bytesOf (fields.count ++ (fields.address ++ fields.data))).sum % 256

def WellFormed (s : List Char) : Prop := ∃ fields : Fields, fields.Valid ∧ s = fields.text

/-- Spaces are skipped and any other character that is no digit ends a number. -/
def looseValue (text : List Char) : Nat :=
  hexValue ((text.takeWhile fun c => isHexDigit c || c == ' ').filter isHexDigit)

def fieldNumber (s : List Char) (offset length : Nat) : Nat := looseValue (hexBuff s offset length)

def addressBytes (s : List Char) : Nat := addressLength (fieldNumber s 1 1) / 2

def dataBytes (s : List Char) : Nat := fieldNumber s 2 2 - addressBytes s - 1

def byteTotal : Nat → Nat → Nat
  | 0, _ => 0
  | bytes + 1, number => number % 256 + byteTotal bytes (number / 256)

def looseSum (s : List Char) : Nat :=
  fieldNumber s 2 2 + byteTotal 4 (fieldNumber s 4 (2 * addressBytes s)) +
    ((List.range (dataBytes s)).map fun i =>
      fieldNumber s (4 + 2 * addressBytes s + 2 * i) 2).sum

/-- A string whose fields are read as the numbers of a record. -/
structure Readable (s : List Char) : Prop where
  start : s.getD 0 '\x00' = startCode
  type : fieldNumber s 1 1 ≤ 9
  count : addressBytes s + 1 ≤ fieldNumber s 2 2 ∧ fieldNumber s 2 2 ≤ addressBytes s + 33
  length : 4 + 2 * fieldNumber s 2 2 ≤ s.length
  checksum : fieldNumber s (2 + 2 * fieldNumber s 2 2) 2 = 255 - looseSum s % 256

/-- A string with digits in every field and nothing behind the last one. -/
structure Clean (s : List Char) : Prop where
  digits : ∀ c ∈ s.tail, isHexDigit c = true
  length : s.length = 4 + 2 * fieldNumber s 2 2

theorem digit_lt_16 (c : Char) : digit c < 16 := digit_lt c

theorem digit_value_digit (c : Char) (hex : isHexDigit c = true) :
    digitValue c = some (digit c) := by
  unfold isHexDigit at hex
  cases value : digitValue c with
  | none => rw [value] at hex; exact absurd hex (by decide)
  | some number => rw [digit, value]; rfl

theorem scan_other (data : BitVec 32) (c : Char) (other : ¬isHexDigit c = true)
    (rest : List Char) :
    scan 16 data (c :: rest) = if c = ' ' then scan 16 data rest else (data, rest) := by
  have none : digitValue c = none := by
    rw [isHexDigit] at other
    exact Option.not_isSome_iff_eq_none.mp other
  unfold digitValue at none
  split_ifs at none with decimal upper lower
  rw [scan, if_neg decimal, if_neg upper, if_neg lower]

theorem scan_loose (text : List Char) (value : Nat) :
    (scan 16 (BitVec.ofNat 32 value) text).1 =
      BitVec.ofNat 32
        (((text.takeWhile fun c => isHexDigit c || c == ' ').filter isHexDigit).foldl
          (fun value c => 16 * value + digit c) value) := by
  induction text generalizing value with
  | nil => rfl
  | cons c text ih =>
      by_cases hex : isHexDigit c = true
      · have shifted : BitVec.ofNat 32 value * 16 + BitVec.ofNat 32 (digit c) =
            BitVec.ofNat 32 (16 * value + digit c) := by
          rw [Nat.mul_comm, BitVec.ofNat_add, BitVec.ofNat_mul]
          rfl
        rw [scan_step _ c _ (digit_value_digit c hex), shifted, ih,
          List.takeWhile_cons_of_pos (by rw [hex]; rfl), List.filter_cons_of_pos hex,
          List.foldl_cons]
      · rw [scan_other _ c hex]
        by_cases space : c = ' '
        · rw [if_pos space, ih, List.takeWhile_cons_of_pos (by simp [space]),
            List.filter_cons_of_neg hex]
        · rw [if_neg space, List.takeWhile_cons_of_neg (by simp [space, hex])]
          rfl

theorem hex_value_lt (text : List Char) : hexValue text < 16 ^ text.length := by
  induction text using List.reverseRecOn with
  | nil => decide
  | append_singleton text c ih =>
      have last := digit_lt c
      rw [hex_value_concat, List.length_append, List.length_singleton, Nat.pow_succ]
      omega

theorem loose_value_lt (text : List Char) : looseValue text < 16 ^ text.length := by
  apply Nat.lt_of_lt_of_le (hex_value_lt _)
  apply Nat.pow_le_pow_right (by decide)
  exact Nat.le_trans (List.length_filter_le _ _) (List.takeWhile_prefix _).length_le

theorem field_number_lt (s : List Char) (offset length : Nat) :
    fieldNumber s offset length < 16 ^ length := by
  apply Nat.lt_of_lt_of_le (loose_value_lt _)
  apply Nat.pow_le_pow_right (by decide)
  exact List.length_take_le _ _

theorem field_read (s : List Char) (offset length : Nat) :
    readField s offset length = BitVec.ofNat 32 (fieldNumber s offset length) :=
  scan_loose (hexBuff s offset length) 0

theorem sum_mod (head : BitVec 8) (data : Nat → BitVec 8) (count : Nat) :
    ((List.range count).foldl (fun checksum i => checksum + data i) head).toNat =
      (head.toNat + ((List.range count).map fun i => (data i).toNat).sum) % 256 := by
  induction count with
  | zero =>
      have small := head.isLt
      simp only [List.range_zero, List.foldl_nil, List.map_nil, List.sum_nil]
      omega
  | succ count ih =>
      rw [List.range_succ, List.foldl_append, List.map_append, List.sum_append, List.foldl_cons,
        List.foldl_nil, List.map_cons, List.map_nil, List.sum_singleton, BitVec.toNat_add, ih]
      omega

theorem address_byte (address : BitVec 32) (mask : BitVec 32) (place : Nat)
    (masked : ∀ i : Fin 8, mask.getLsbD (place + i) = true) :
    (((address &&& mask) >>> place).setWidth 8).toNat = address.toNat / 2 ^ place % 256 := by
  have byte : ((address &&& mask) >>> place).setWidth 8 =
      BitVec.ofNat 8 (address.toNat / 2 ^ place) := by
    apply BitVec.eq_of_getLsbD_eq
    intro i inside
    rw [BitVec.getLsbD_setWidth, BitVec.getLsbD_ushiftRight, BitVec.getLsbD_and,
      masked ⟨i, inside⟩, Bool.and_true, BitVec.getLsbD_ofNat, Nat.testBit_div_two_pow,
      Nat.add_comm i place]
    rfl
  rw [byte, BitVec.toNat_ofNat]

theorem byte_total_four (number : Nat) :
    byteTotal 4 number = number % 256 + number / 2 ^ 8 % 256 + number / 2 ^ 16 % 256 +
      number / 2 ^ 24 % 256 := by
  simp only [byteTotal]
  omega

theorem checksum_value (srec : SRecord) (count : Nat) (counted : fieldDataCount srec = count) :
    (checksumSRecord srec).toNat =
      255 - (count + byteTotal 4 srec.address.toNat +
        ((List.range srec.dataLen.toNat).map fun i => (srec.data i).toNat).sum) % 256 := by
  have first := address_byte srec.address 0x000000FF 0 (by decide)
  have second := address_byte srec.address 0x0000FF00 8 (by decide)
  have third := address_byte srec.address 0x00FF0000 16 (by decide)
  have fourth := address_byte srec.address 0xFF000000 24 (by decide)
  rw [BitVec.ushiftRight_zero] at first
  rw [checksumSRecord, BitVec.toNat_not, sum_mod, byte_total_four, counted,
    BitVec.ofInt_natCast]
  simp only [BitVec.toNat_add, BitVec.toNat_ofNat, first, second, third, fourth]
  omega

theorem field_int (s : List Char) (offset length : Nat) (narrow : length ≤ 2) :
    (readField s offset length).toInt = fieldNumber s offset length := by
  have small := field_number_lt s offset length
  have power : 16 ^ length ≤ 16 ^ 2 := Nat.pow_le_pow_right (by decide) narrow
  rw [field_read]
  exact small_to_int _ (by omega)

theorem field_nat (s : List Char) (offset length : Nat) (narrow : length ≤ 8) :
    (readField s offset length).toNat = fieldNumber s offset length := by
  have small := field_number_lt s offset length
  have power : 16 ^ length ≤ 16 ^ 8 := Nat.pow_le_pow_right (by decide) narrow
  rw [field_read, BitVec.toNat_ofNat]
  omega

theorem field_byte (s : List Char) (offset : Nat) :
    ((readField s offset 2).setWidth 8).toNat = fieldNumber s offset 2 := by
  have small := field_number_lt s offset 2
  rw [BitVec.toNat_setWidth, field_nat s offset 2 (by decide)]
  omega

theorem address_length_even (type : Nat) (small : type ≤ 9) :
    ∃ half, addressLength type = 2 * half ∧ 2 ≤ half ∧ half ≤ 4 := by
  interval_cases type
  all_goals
    first
    | exact ⟨2, rfl, by decide⟩
    | exact ⟨3, rfl, by decide⟩
    | exact ⟨4, rfl, by decide⟩

theorem address_bytes (s : List Char) (type : fieldNumber s 1 1 ≤ 9) :
    addressLength (fieldNumber s 1 1) = 2 * addressBytes s ∧
      2 ≤ addressBytes s ∧ addressBytes s ≤ 4 := by
  obtain ⟨half, length, bounds⟩ := address_length_even _ type
  have halved : 2 * half / 2 = half := by omega
  have bytes : addressBytes s = half := by rw [addressBytes, length, halved]
  rw [bytes]
  exact ⟨length, bounds⟩

def recordOf (s : List Char) (srec : SRecord) : SRecord where
  type := fieldNumber s 1 1
  address := readField s 4 (2 * addressBytes s)
  data := fun i =>
    if i < dataBytes s then (readField s (4 + 2 * addressBytes s + 2 * i) 2).setWidth 8
    else srec.data i
  dataLen := dataBytes s
  checksum := (readField s (2 + 2 * fieldNumber s 2 2) 2).setWidth 8

theorem record_checksum (s : List Char) (srec : SRecord) (type : fieldNumber s 1 1 ≤ 9)
    (count : addressBytes s + 1 ≤ fieldNumber s 2 2) :
    (checksumSRecord (recordOf s srec)).toNat = 255 - looseSum s % 256 := by
  rcases address_bytes s type with ⟨length, _, narrow⟩
  have counted : fieldDataCount (recordOf s srec) = fieldNumber s 2 2 := by
    have halved : 2 * addressBytes s / 2 = addressBytes s := by omega
    have check : checksumLen / 2 = 1 := rfl
    change ((addressLength (fieldNumber s 1 1) / 2 : Nat) : Int) + dataBytes s +
      (checksumLen / 2 : Nat) = _
    rw [length, halved, check, dataBytes]
    omega
  have data : ((List.range (recordOf s srec).dataLen.toNat).map
      fun i => ((recordOf s srec).data i).toNat) =
      (List.range (dataBytes s)).map
        fun i => fieldNumber s (4 + 2 * addressBytes s + 2 * i) 2 := by
    apply List.map_congr_left
    intro i member
    have inside : i < dataBytes s := List.mem_range.mp member
    change (if i < dataBytes s then _ else _ : BitVec 8).toNat = _
    rw [if_pos inside, field_byte]
  have address : (recordOf s srec).address.toNat = fieldNumber s 4 (2 * addressBytes s) :=
    field_nat s 4 _ (by omega)
  rw [checksum_value _ _ counted, data, address]
  rfl

/-- With room for all fields the record is read, and the checksum decides. -/
theorem read_fields (s : List Char) (srec : SRecord) (start : s.getD 0 '\x00' = startCode)
    (type : fieldNumber s 1 1 ≤ 9)
    (count : addressBytes s + 1 ≤ fieldNumber s 2 2 ∧ fieldNumber s 2 2 ≤ addressBytes s + 33)
    (length : 4 + 2 * fieldNumber s 2 2 ≤ s.length) :
    readSRecord s srec =
      if (recordOf s srec).checksum ≠ checksumSRecord (recordOf s srec) then
        (.invalidRecord, recordOf s srec)
      else (.ok, recordOf s srec) := by
  have typeRead := field_int s 1 1 (by decide)
  have countRead := field_int s 2 2 (by decide)
  rcases address_bytes s type with ⟨addressSize, wide, narrow⟩
  have offset : addressOffset = 4 := rfl
  have check : checksumLen = 2 := rfl
  have longest : maxDataLen = 64 := rfl
  have dataText : (fieldNumber s 2 2 : Int) * 2 - (2 * addressBytes s : Nat) - (2 : Nat) =
      (2 * dataBytes s : Nat) := by
    rw [dataBytes]
    omega
  have ends : 4 + 2 * addressBytes s + 2 * dataBytes s = 2 + 2 * fieldNumber s 2 2 := by
    rw [dataBytes]
    omega
  have halves : 2 * dataBytes s / 2 = dataBytes s := by omega
  have halvesInt : ((2 * dataBytes s : Nat) : Int) / 2 = dataBytes s := by omega
  unfold readSRecord
  rw [if_neg (by change ¬_ < 1 + 2; omega), if_neg (not_not.mpr start)]
  simp only [typeOffset, typeLen, countOffset, countLen, typeRead, countRead]
  rw [if_neg (by omega)]
  simp only [addressSize, offset, check, longest, dataText, Int.toNat_natCast, ends, halves,
    halvesInt]
  rw [if_neg (by omega), if_neg (by omega), if_neg (by omega)]
  rfl

theorem check_passed {check : Prop} [Decidable check] {srec : SRecord}
    {rest : SRecordErrors × SRecord}
    (accepted : (if check then (.invalidRecord, srec) else rest).1 = .ok) :
    ¬check ∧ rest.1 = .ok := by
  by_cases failed : check
  · rw [if_pos failed] at accepted
    cases accepted
  · rw [if_neg failed] at accepted
    exact ⟨failed, accepted⟩

/-- A record that is accepted has passed every check of a length or of a number. -/
theorem accepted_numbers (s : List Char) (srec : SRecord)
    (accepted : (readSRecord s srec).1 = .ok) :
    s.getD 0 '\x00' = startCode ∧ fieldNumber s 1 1 ≤ 9 ∧
      (addressBytes s + 1 ≤ fieldNumber s 2 2 ∧ fieldNumber s 2 2 ≤ addressBytes s + 33) ∧
      4 + 2 * fieldNumber s 2 2 ≤ s.length := by
  have typeRead := field_int s 1 1 (by decide)
  have countRead := field_int s 2 2 (by decide)
  unfold readSRecord at accepted
  simp only [typeOffset, typeLen, countOffset, countLen, typeRead, countRead] at accepted
  obtain ⟨-, accepted⟩ := check_passed accepted
  obtain ⟨start, accepted⟩ := check_passed accepted
  obtain ⟨type, accepted⟩ := check_passed accepted
  obtain ⟨-, accepted⟩ := check_passed accepted
  obtain ⟨count, accepted⟩ := check_passed accepted
  obtain ⟨room, -⟩ := check_passed accepted
  have small : fieldNumber s 1 1 ≤ 9 := by omega
  rcases address_bytes s small with ⟨addressSize, wide, narrow⟩
  have offset : addressOffset = 4 := rfl
  have check : checksumLen = 2 := rfl
  have longest : maxDataLen = 64 := rfl
  rw [addressSize, check] at count room
  rw [offset] at room
  rw [longest] at count
  exact ⟨not_not.mp start, small, by omega, by omega⟩

theorem accepted_iff (s : List Char) (srec : SRecord) :
    (readSRecord s srec).1 = .ok ↔ Readable s := by
  have stored : (recordOf s srec).checksum.toNat =
      fieldNumber s (2 + 2 * fieldNumber s 2 2) 2 := field_byte s _
  constructor
  · intro accepted
    obtain ⟨start, type, count, length⟩ := accepted_numbers s srec accepted
    rw [read_fields s srec start type count length] at accepted
    have same := congrArg BitVec.toNat (not_not.mp (check_passed accepted).1)
    rw [stored, record_checksum s srec type count.1] at same
    exact ⟨start, type, count, length, same⟩
  · intro readable
    have same : (recordOf s srec).checksum = checksumSRecord (recordOf s srec) := by
      apply BitVec.eq_of_toNat_eq
      rw [stored, record_checksum s srec readable.type readable.count.1]
      exact readable.checksum
    rw [read_fields s srec readable.start readable.type readable.count readable.length,
      if_neg (not_not.mpr same)]

theorem loose_value_digits (text : List Char) (digits : ∀ c ∈ text, isHexDigit c = true) :
    looseValue text = hexValue text := by
  have all : (text.takeWhile fun c => isHexDigit c || c == ' ') = text := by
    rw [List.takeWhile_eq_self_iff]
    intro c member
    rw [digits c member]
    rfl
  rw [looseValue, all, List.filter_eq_self.mpr digits]

theorem hex_buff_digits (s : List Char) (offset length : Nat) (behind : 1 ≤ offset)
    (digits : ∀ c ∈ s.tail, isHexDigit c = true) :
    ∀ c ∈ hexBuff s offset length, isHexDigit c = true := by
  intro c member
  apply digits
  have dropped : s.drop offset = s.tail.drop (offset - 1) := by
    rw [List.drop_tail, Nat.sub_add_cancel behind]
  rw [hexBuff, dropped] at member
  exact List.mem_of_mem_drop (List.mem_of_mem_take member)

theorem clean_number (s : List Char) (offset length : Nat) (behind : 1 ≤ offset)
    (digits : ∀ c ∈ s.tail, isHexDigit c = true) :
    fieldNumber s offset length = hexValue (hexBuff s offset length) :=
  loose_value_digits _ (hex_buff_digits s offset length behind digits)

theorem bytes_append (front back : List Char) (pairs : Nat) (even : front.length = 2 * pairs) :
    bytesOf (front ++ back) = bytesOf front ++ bytesOf back := by
  induction pairs generalizing front with
  | zero =>
      rw [List.length_eq_zero_iff.mp even]
      rfl
  | succ pairs ih =>
      match front, even with
      | high :: low :: front, even =>
          have rest : front.length = 2 * pairs := by
            simp only [List.length_cons] at even
            omega
          change _ :: bytesOf (front ++ back) = _ :: (bytesOf front ++ bytesOf back)
          rw [ih front rest]

theorem bytes_pair (text : List Char) (pair : text.length = 2) :
    (bytesOf text).sum = hexValue text := by
  match text, pair with
  | [high, low], _ =>
      change 16 * digit high + digit low + 0 = 16 * (16 * 0 + digit high) + digit low
      omega

theorem byte_total_zero (bytes : Nat) : byteTotal bytes 0 = 0 := by
  induction bytes with
  | zero => rfl
  | succ bytes ih => rw [byteTotal, Nat.zero_mod, Nat.zero_div, ih]

theorem byte_total_text (pairs : Nat) (bytes : Nat) (text : List Char)
    (even : text.length = 2 * pairs) (room : pairs ≤ bytes) :
    byteTotal bytes (hexValue text) = (bytesOf text).sum := by
  induction pairs generalizing bytes text with
  | zero =>
      rw [List.length_eq_zero_iff.mp even]
      exact byte_total_zero bytes
  | succ pairs ih =>
      obtain ⟨bytes, rfl⟩ : ∃ fewer, bytes = fewer + 1 := ⟨bytes - 1, by omega⟩
      have front : (text.take (2 * pairs)).length = 2 * pairs := by
        rw [List.length_take]
        omega
      have last : (text.drop (2 * pairs)).length = 2 := by
        rw [List.length_drop]
        omega
      have split := List.take_append_drop (2 * pairs) text
      match text.drop (2 * pairs), last, split with
      | [high, low], _, split =>
          have value : hexValue text =
              256 * hexValue (text.take (2 * pairs)) + (16 * digit high + digit low) := by
            conv_lhs => rw [← split, List.append_cons, hex_value_concat, hex_value_concat]
            change 16 * (16 * _ + digit high) + digit low = _
            omega
          have highBound := digit_lt_16 high
          have lowBound := digit_lt_16 low
          have byte : hexValue text % 256 = 16 * digit high + digit low := by omega
          have rest : hexValue text / 256 = hexValue (text.take (2 * pairs)) := by omega
          conv_rhs => rw [← split, bytes_append _ _ pairs front, List.sum_append]
          rw [byteTotal, byte, rest, ih bytes _ front (by omega)]
          change _ = _ + (16 * digit high + digit low + 0)
          omega

theorem data_sum (s : List Char) (offset bytes : Nat) (behind : 1 ≤ offset)
    (digits : ∀ c ∈ s.tail, isHexDigit c = true) (room : offset + 2 * bytes ≤ s.length) :
    ((List.range bytes).map fun i => fieldNumber s (offset + 2 * i) 2).sum =
      (bytesOf (hexBuff s offset (2 * bytes))).sum := by
  induction bytes with
  | zero => rfl
  | succ bytes ih =>
      have front : (hexBuff s offset (2 * bytes)).length = 2 * bytes := by
        rw [hexBuff, List.length_take, List.length_drop]
        omega
      have pair : (hexBuff s (offset + 2 * bytes) 2).length = 2 := by
        rw [hexBuff, List.length_take, List.length_drop]
        omega
      have split : hexBuff s offset (2 * (bytes + 1)) =
          hexBuff s offset (2 * bytes) ++ hexBuff s (offset + 2 * bytes) 2 := by
        rw [hexBuff, hexBuff, hexBuff, Nat.mul_add, Nat.mul_one, List.take_add, List.drop_drop]
      rw [List.range_succ, List.map_append, List.sum_append, ih (by omega), List.map_cons,
        List.map_nil, List.sum_singleton, split, bytes_append _ _ bytes front, List.sum_append,
        bytes_pair _ pair, clean_number s _ 2 (by omega) digits]

def fieldsOf (s : List Char) : Fields where
  type := s.getD 1 '\x00'
  count := hexBuff s 2 2
  address := hexBuff s 4 (2 * addressBytes s)
  data := hexBuff s (4 + 2 * addressBytes s) (2 * dataBytes s)
  checksum := hexBuff s (2 + 2 * fieldNumber s 2 2) 2

theorem hex_buff_length (s : List Char) (offset length : Nat) (room : offset + length ≤ s.length) :
    (hexBuff s offset length).length = length := by
  rw [hexBuff, List.length_take, List.length_drop]
  omega

theorem hex_buff_append (s : List Char) (offset front back : Nat) :
    hexBuff s offset (front + back) =
      hexBuff s offset front ++ hexBuff s (offset + front) back := by
  rw [hexBuff, hexBuff, hexBuff, List.take_add, List.drop_drop]

theorem drop_fields (s : List Char) (count : addressBytes s + 1 ≤ fieldNumber s 2 2)
    (length : s.length = 4 + 2 * fieldNumber s 2 2) : s.drop 2 = (fieldsOf s).digits := by
  have behind : 4 + 2 * addressBytes s + 2 * dataBytes s = 2 + 2 * fieldNumber s 2 2 := by
    rw [dataBytes]
    omega
  have whole : s.drop 2 = hexBuff s 2 (2 + (2 * addressBytes s + (2 * dataBytes s + 2))) := by
    rw [hexBuff, List.take_of_length_le]
    rw [List.length_drop, dataBytes]
    omega
  rw [whole, hex_buff_append, hex_buff_append, hex_buff_append, behind]
  rfl

theorem drop_two (s : List Char) (long : 2 ≤ s.length) :
    s = s.getD 0 '\x00' :: s.getD 1 '\x00' :: s.drop 2 := by
  match s, long with
  | first :: second :: rest, _ => rfl

theorem type_number (s : List Char) (long : 2 ≤ s.length)
    (digits : ∀ c ∈ s.tail, isHexDigit c = true) :
    fieldNumber s 1 1 = digit (s.getD 1 '\x00') := by
  rw [clean_number s 1 1 (by decide) digits]
  match s, long with
  | first :: second :: rest, _ =>
      change 16 * 0 + digit second = digit second
      omega

theorem is_digit_value (c : Char) : c.isDigit = true ↔ isHexDigit c = true ∧ digit c ≤ 9 := by
  have code : c.isDigit = true ↔ 48 ≤ c.toNat ∧ c.toNat ≤ 57 := by
    rw [Char.isDigit, Bool.and_eq_true, decide_eq_true_eq, decide_eq_true_eq]
    exact Iff.rfl
  rw [code, isHexDigit, digit]
  unfold digitValue
  split_ifs with decimal upper lower
  all_goals simp
  all_goals omega

theorem clean_sum (s : List Char) (clean : Clean s) (type : fieldNumber s 1 1 ≤ 9)
    (count : addressBytes s + 1 ≤ fieldNumber s 2 2) :
    looseSum s =
      (bytesOf ((fieldsOf s).count ++ ((fieldsOf s).address ++ (fieldsOf s).data))).sum := by
  have room := clean.length
  rcases address_bytes s type with ⟨_, _, narrow⟩
  have few : 4 + 2 * addressBytes s + 2 * dataBytes s ≤ s.length := by
    rw [dataBytes]
    omega
  have pair : (hexBuff s 2 2).length = 2 * 1 := hex_buff_length s 2 2 (by omega)
  have address := hex_buff_length s 4 (2 * addressBytes s) (by omega)
  change _ = (bytesOf (hexBuff s 2 2 ++ (hexBuff s 4 (2 * addressBytes s) ++
    hexBuff s (4 + 2 * addressBytes s) (2 * dataBytes s)))).sum
  rw [bytes_append _ _ 1 pair, bytes_append _ _ _ address, List.sum_append, List.sum_append,
    bytes_pair _ pair, looseSum, clean_number s 2 2 (by decide) clean.digits,
    clean_number s 4 _ (by decide) clean.digits, byte_total_text _ 4 _ address narrow,
    data_sum s _ _ (by omega) clean.digits few, Nat.add_assoc]

theorem clean_well_formed (s : List Char) (readable : Readable s) (clean : Clean s) :
    WellFormed s := by
  have count := readable.count
  have length := clean.length
  have long : 2 ≤ s.length := by omega
  have digits := hex_buff_digits s
  rcases address_bytes s readable.type with ⟨typeLength, _, narrow⟩
  have data : 4 + 2 * addressBytes s + 2 * dataBytes s = 2 + 2 * fieldNumber s 2 2 := by
    rw [dataBytes]
    omega
  have type := type_number s long clean.digits
  have split := drop_two s long
  rw [readable.start, drop_fields s count.1 length] at split
  have addressSize := hex_buff_length s 4 (2 * addressBytes s) (by omega)
  have dataSize := hex_buff_length s (4 + 2 * addressBytes s) (2 * dataBytes s) (by omega)
  have checksumSize := hex_buff_length s (2 + 2 * fieldNumber s 2 2) 2 (by omega)
  refine ⟨fieldsOf s, ?_, split⟩
  constructor
  case type =>
    rw [is_digit_value]
    have second : s.getD 1 '\x00' ∈ s.tail := by
      match s, long with
      | first :: second :: rest, _ => exact List.mem_cons_self
    exact ⟨clean.digits _ second, type ▸ readable.type⟩
  case digits =>
    intro c member
    rw [← drop_fields s count.1 length] at member
    apply clean.digits
    rw [← List.drop_one]
    exact List.mem_of_mem_drop (i := 1) (by rwa [List.drop_drop])
  case countLength => exact hex_buff_length s 2 2 (by omega)
  case addressLength =>
    change (hexBuff s 4 (2 * addressBytes s)).length = addressLength (digit (s.getD 1 '\x00'))
    rw [addressSize, ← type, typeLength]
  case dataLength =>
    change (hexBuff s (4 + 2 * addressBytes s) (2 * dataBytes s)).length ≤ _
    omega
  case checksumLength => exact checksumSize
  case count =>
    change 2 * hexValue (hexBuff s 2 2) = (hexBuff s 4 (2 * addressBytes s)).length +
      (hexBuff s (4 + 2 * addressBytes s) (2 * dataBytes s)).length +
      (hexBuff s (2 + 2 * fieldNumber s 2 2) 2).length
    rw [addressSize, dataSize, checksumSize, ← clean_number s 2 2 (by decide) clean.digits]
    omega
  case checksum =>
    rw [← clean_sum s clean readable.type count.1, ← readable.checksum]
    exact (clean_number s _ 2 (by omega) clean.digits).symm

theorem hex_buff_split (s front field back : List Char) {offset length : Nat}
    (split : s = front ++ (field ++ back)) (place : front.length = offset)
    (size : field.length = length) : hexBuff s offset length = field := by
  rw [hexBuff, split, ← place, List.drop_left]
  exact List.take_left' size

theorem valid_fields (fields : Fields) (valid : fields.Valid) :
    Clean fields.text ∧ fieldNumber fields.text 1 1 ≤ 9 ∧
      (addressBytes fields.text + 1 ≤ fieldNumber fields.text 2 2 ∧
        fieldNumber fields.text 2 2 ≤ addressBytes fields.text + 33) ∧
      fieldsOf fields.text = fields := by
  have typeDigit := (is_digit_value fields.type).mp valid.type
  have digits : ∀ c ∈ fields.text.tail, isHexDigit c = true := by
    intro c member
    rcases List.mem_cons.mp member with same | behind
    · exact same ▸ typeDigit.1
    · exact valid.digits c behind
  have countLength := valid.countLength
  have dataLength := valid.dataLength
  have checksumLength := valid.checksumLength
  have counted := valid.count
  have size : fields.text.length = 2 + (fields.count.length + (fields.address.length +
      (fields.data.length + fields.checksum.length))) := by
    simp only [Fields.text, Fields.digits, List.length_cons, List.length_append]
    omega
  have type : fieldNumber fields.text 1 1 = digit fields.type :=
    type_number fields.text (by omega) digits
  have countText : hexBuff fields.text 2 2 = fields.count :=
    hex_buff_split _ [startCode, fields.type] fields.count _ rfl rfl countLength
  have count : fieldNumber fields.text 2 2 = hexValue fields.count := by
    rw [clean_number _ 2 2 (by decide) digits, countText]
  have small : fieldNumber fields.text 1 1 ≤ 9 := type ▸ typeDigit.2
  have addressSize : fields.address.length = 2 * addressBytes fields.text := by
    rw [valid.addressLength, ← type]
    exact (address_bytes fields.text small).1
  have dataSize : fields.data.length = 2 * dataBytes fields.text := by
    rw [dataBytes, count]
    omega
  have address : hexBuff fields.text 4 (2 * addressBytes fields.text) = fields.address :=
    hex_buff_split _ (startCode :: fields.type :: fields.count) _ (fields.data ++ fields.checksum)
      (by simp [Fields.text, Fields.digits]) (by simp [countLength]) addressSize
  have data : hexBuff fields.text (4 + 2 * addressBytes fields.text)
      (2 * dataBytes fields.text) = fields.data :=
    hex_buff_split _ (startCode :: fields.type :: (fields.count ++ fields.address)) _
      fields.checksum (by simp [Fields.text, Fields.digits])
      (by simp only [List.length_cons, List.length_append]; omega) dataSize
  have checksum : hexBuff fields.text (2 + 2 * fieldNumber fields.text 2 2) 2 =
      fields.checksum :=
    hex_buff_split _ (startCode :: fields.type ::
      (fields.count ++ (fields.address ++ fields.data))) _ []
      (by simp [Fields.text, Fields.digits])
      (by simp only [List.length_cons, List.length_append]; omega) checksumLength
  refine ⟨⟨digits, by omega⟩, small, by omega, ?_⟩
  rw [fieldsOf, countText, address, data, checksum]
  rfl

theorem well_formed_clean (s : List Char) (wellFormed : WellFormed s) : Clean s := by
  obtain ⟨fields, valid, rfl⟩ := wellFormed
  exact (valid_fields fields valid).1

theorem well_formed_readable (s : List Char) (wellFormed : WellFormed s) : Readable s := by
  obtain ⟨fields, valid, rfl⟩ := wellFormed
  rcases valid_fields fields valid with ⟨clean, type, count, same⟩
  have sum := clean_sum fields.text clean type count.1
  have checksum : hexBuff fields.text (2 + 2 * fieldNumber fields.text 2 2) 2 =
      fields.checksum := congrArg Fields.checksum same
  refine ⟨rfl, type, count, Nat.le_of_eq clean.length.symm, ?_⟩
  rw [sum, same, clean_number _ _ 2 (by omega) clean.digits, checksum]
  exact valid.checksum

/-- Every record is accepted. -/
theorem well_formed_accepted (s : List Char) (wellFormed : WellFormed s) (srec : SRecord) :
    (readSRecord s srec).1 = .ok :=
  (accepted_iff s srec).mpr (well_formed_readable s wellFormed)

/-- What is accepted is a record if no character was read over: where the numbers of the
fields are those of a record, the fields have digits only and nothing stands behind them. -/
theorem accepts_records_iff (s : List Char) (srec : SRecord) :
    ((readSRecord s srec).1 = .ok → WellFormed s) ↔ (Readable s → Clean s) := by
  rw [accepted_iff]
  constructor
  · intro holds readable
    exact well_formed_clean s (holds readable)
  · intro holds readable
    exact clean_well_formed s readable (holds readable)

private def noRecord : SRecord where
  address := 0
  data := fun _ => 0
  dataLen := 0
  type := 0
  checksum := 0

/-- The address of the line is `00Z0`. -/
theorem letter_in_address_accepted :
    (readSRecord "S10300Z0FC".toList noRecord).1 = .ok ∧ ¬WellFormed "S10300Z0FC".toList := by
  constructor
  · decide
  · intro wellFormed
    have digits := (well_formed_clean _ wellFormed).digits 'Z' (by decide)
    exact absurd digits (by decide)

/-- The case of `main` for a line that begins with `S`. -/
def recordCommand (ucmd : List Char) (srec : SRecord) (m : Monitor) : SRecord × Monitor :=
  match readSRecord ucmd srec with
  | (.ok, srec) => (srec, convertSRecord srec m)
  | (.invalidRecord, srec) => (srec, { m with printed := m.printed ++ ['?'] })

def digitWeight (place : Nat) : Nat := if place % 2 = 0 then 16 else 1

theorem bytes_sum_set (text : List Char) (pairs place : Nat) (even : text.length = 2 * pairs)
    (old c : Char) (found : text[place]? = some old) :
    (bytesOf (text.set place c)).sum + digitWeight place * digit old =
      (bytesOf text).sum + digitWeight place * digit c := by
  induction pairs generalizing text place with
  | zero =>
      rw [List.length_eq_zero_iff.mp even, List.getElem?_nil] at found
      contradiction
  | succ pairs ih =>
      match text, place, even, found with
      | high :: low :: text, 0, _, found =>
          have first : high = old := Option.some.inj found
          change 16 * digit c + digit low + (bytesOf text).sum + 16 * digit old =
            16 * digit high + digit low + (bytesOf text).sum + 16 * digit c
          rw [first]
          omega
      | high :: low :: text, 1, _, found =>
          have second : low = old := Option.some.inj found
          change 16 * digit high + digit c + (bytesOf text).sum + 1 * digit old =
            16 * digit high + digit low + (bytesOf text).sum + 1 * digit c
          rw [second]
          omega
      | high :: low :: text, place + 2, even, found =>
          have length : text.length = 2 * pairs := by
            simp only [List.length_cons] at even
            omega
          have rest := ih text place length found
          have weight : digitWeight (place + 2) = digitWeight place := by
            rw [digitWeight, digitWeight, Nat.add_mod_right]
          rw [weight]
          change 16 * digit high + digit low + (bytesOf (text.set place c)).sum +
            digitWeight place * digit old =
              16 * digit high + digit low + (bytesOf text).sum + digitWeight place * digit c
          omega

/-- All bytes of a record together, the checksum with them, have the low byte 255. -/
theorem record_total (s : List Char) (readable : Readable s) (clean : Clean s) :
    (bytesOf (s.drop 2)).sum % 256 = 255 := by
  have count := readable.count
  have length := clean.length
  rcases address_bytes s readable.type with ⟨_, _, narrow⟩
  have sum := clean_sum s clean readable.type count.1
  have pair := hex_buff_length s (2 + 2 * fieldNumber s 2 2) 2 (by omega)
  have front : ((fieldsOf s).count ++ ((fieldsOf s).address ++ (fieldsOf s).data)).length =
      2 * fieldNumber s 2 2 := by
    have countSize := hex_buff_length s 2 2 (by omega)
    have addressSize := hex_buff_length s 4 (2 * addressBytes s) (by omega)
    have dataSize := hex_buff_length s (4 + 2 * addressBytes s) (2 * dataBytes s)
      (by rw [dataBytes]; omega)
    simp only [fieldsOf, List.length_append, countSize, addressSize, dataSize]
    rw [dataBytes]
    omega
  have checksum : (bytesOf (fieldsOf s).checksum).sum = 255 - looseSum s % 256 := by
    change (bytesOf (hexBuff s (2 + 2 * fieldNumber s 2 2) 2)).sum = _
    rw [bytes_pair _ pair, ← clean_number s _ 2 (by omega) clean.digits, readable.checksum]
  have whole : s.drop 2 = (fieldsOf s).count ++ ((fieldsOf s).address ++ (fieldsOf s).data) ++
      (fieldsOf s).checksum := by
    rw [drop_fields s count.1 length, Fields.digits]
    simp only [List.append_assoc]
  rw [whole, bytes_append _ _ _ front, List.sum_append, ← sum, checksum]
  omega

theorem set_number (s : List Char) (place : Nat) (behind : 4 ≤ place) (c : Char) :
    fieldNumber (s.set place c) 2 2 = fieldNumber s 2 2 := by
  rw [fieldNumber, fieldNumber, hexBuff, hexBuff, List.drop_set, if_neg (by omega),
    List.take_set_of_le (by omega)]

theorem set_clean (s : List Char) (clean : Clean s) (place : Nat) (behind : 4 ≤ place) (c : Char)
    (hex : isHexDigit c = true) : Clean (s.set place c) := by
  constructor
  case digits =>
    intro d member
    rw [← List.drop_one, List.drop_set, if_neg (by omega), List.drop_one] at member
    rcases List.mem_or_eq_of_mem_set member with old | new
    · exact clean.digits d old
    · exact new ▸ hex
  case length => rw [List.length_set, set_number s place behind c, clean.length]

/-- A record with one digit of its address, its data or its checksum replaced by a digit
of another value is refused and nothing is written. -/
theorem corruption_detected (s : List Char) (wellFormed : WellFormed s) (place : Nat)
    (field : 4 ≤ place) (inside : place < s.length) (c : Char) (hex : isHexDigit c = true)
    (other : digitValue c ≠ digitValue s[place]) (srec : SRecord) (m : Monitor) :
    (readSRecord (s.set place c) srec).1 = .invalidRecord ∧
      (recordCommand (s.set place c) srec m).2.memory = m.memory := by
  have clean := well_formed_clean s wellFormed
  have changed := set_clean s clean place field c hex
  have refused : (readSRecord (s.set place c) srec).1 = .invalidRecord := by
    cases result : (readSRecord (s.set place c) srec).1 with
    | invalidRecord => rfl
    | ok =>
        exfalso
        have accepted := (accepted_iff _ srec).mp result
        have before := record_total s (well_formed_readable s wellFormed) clean
        have after := record_total _ accepted changed
        rw [List.drop_set, if_neg (by omega)] at after
        have length := clean.length
        have size : (s.drop 2).length = 2 * (1 + fieldNumber s 2 2) := by
          rw [List.length_drop]
          omega
        have found : (s.drop 2)[place - 2]? = some s[place] := by
          rw [List.getElem?_drop, Nat.add_sub_cancel' (by omega), List.getElem?_eq_getElem inside]
        have shifted := bytes_sum_set (s.drop 2) _ (place - 2) size s[place] c found
        have oldHex : isHexDigit s[place] = true := by
          apply clean.digits
          rw [← List.drop_one]
          have member := List.mem_of_getElem? found
          exact List.mem_of_mem_drop (i := 1) (by rwa [List.drop_drop])
        rw [digit_value_digit c hex, digit_value_digit _ oldHex] at other
        have apart : digit c ≠ digit s[place] := fun same => other (congrArg some same)
        have bound := digit_lt_16 c
        have oldBound := digit_lt_16 s[place]
        unfold digitWeight at shifted
        -- the difference of the two sums lies between -240 and 240 and is not zero
        split_ifs at shifted
        all_goals omega
  refine ⟨refused, ?_⟩
  rw [recordCommand]
  match readSRecord (s.set place c) srec, refused with
  | (.invalidRecord, _), _ => rfl

theorem corruption_detected_in_data :
    (readSRecord ("S1051000CAFE22".toList.set 9 '7') noRecord).1 = .invalidRecord ∧
      (recordCommand ("S1051000CAFE22".toList.set 9 '7') noRecord
        { memory := fun _ => 0, printed := [], entered := [] }).2.memory = fun _ => 0 :=
  corruption_detected "S1051000CAFE22".toList
    (clean_well_formed _ ((accepted_iff _ noRecord).mp (by decide))
      ⟨List.all_eq_true.mp (by decide), by decide⟩)
    9 (by decide) (by decide) '7' (by decide) (by decide) noRecord
    { memory := fun _ => 0, printed := [], entered := [] }

end MinionSubsystem.SRecordCheck
