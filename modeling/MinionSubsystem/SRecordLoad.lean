import Mathlib.Data.List.Basic
import MinionSubsystem.HexText

/-!
# S-records between `srecord.c` and the monitor `simple.c`

`writeSRecord` is the writer of the host tool, `readSRecord` and `convertSRecord`
are what the monitor does with a line. A C string is the list of the characters
in front of its terminator; `size_t` has 32 bits.
-/

namespace MinionSubsystem.SRecordLoad

open MinionSubsystem.HexText

set_option autoImplicit false

inductive SRecordErrors where
  | ok
  | invalidRecord
  deriving DecidableEq, Repr

/-- `data` is an array of 32 bytes. -/
structure SRecord where
  address : BitVec 32
  data : Nat → BitVec 8
  dataLen : Int
  type : Int
  checksum : BitVec 8

def typeOffset : Nat := 1

def typeLen : Nat := 1

def countOffset : Nat := 2

def countLen : Nat := 2

def addressOffset : Nat := 4

def checksumLen : Nat := 2

def maxDataLen : Nat := 64

def maxAddressLen : Nat := 8

def asciiHexByteLen : Nat := 2

def startCode : Char := 'S'

def sRecordAddressLengths : List Nat := [4, 4, 6, 8, 8, 4, 6, 8, 6, 4]

def addressLength (type : Int) : Nat := sRecordAddressLengths.getD type.toNat 0

def fieldDataCount (srec : SRecord) : Int :=
  (addressLength srec.type / 2 : Nat) + srec.dataLen + (checksumLen / 2 : Nat)

/-- `Checksum_SRecord`, the same in both files. -/
def checksumSRecord (srec : SRecord) : BitVec 8 :=
  let head := BitVec.ofInt 8 (fieldDataCount srec) +
    (srec.address &&& 0x000000FF).setWidth 8 +
    ((srec.address &&& 0x0000FF00) >>> 8).setWidth 8 +
    ((srec.address &&& 0x00FF0000) >>> 16).setWidth 8 +
    ((srec.address &&& 0xFF000000) >>> 24).setWidth 8
  ~~~((List.range srec.dataLen.toNat).foldl (fun checksum i => checksum + srec.data i) head)

def recordLine (srec : SRecord) : List Char :=
  startCode :: (formatX 1 1 (BitVec.ofInt 32 srec.type).toNat ++
    (formatX 2 2 (BitVec.ofInt 32 (fieldDataCount srec)).toNat ++
      ((formatX 2 8 srec.address.toNat).drop (maxAddressLen - addressLength srec.type) ++
        ((List.range srec.dataLen.toNat).flatMap (fun i => formatX 2 2 (srec.data i).toNat) ++
          formatX 2 2 (checksumSRecord srec).toNat))))

/-- `Write_SRecord` on a file that takes everything: its result and what it has written. -/
def writeSRecord (srec : SRecord) : SRecordErrors × List Char :=
  if srec.type < 0 ∨ 9 < srec.type ∨ (maxDataLen / 2 : Nat) < srec.dataLen then
    (.invalidRecord, [])
  else (.ok, recordLine srec ++ ['\r', '\n'])

def scan (base : BitVec 32) (data : BitVec 32) : List Char → BitVec 32 × List Char
  | [] => (data, [])
  | c :: start =>
      if 48 ≤ c.toNat ∧ c.toNat ≤ 57 then
        scan base (data * base + BitVec.ofNat 32 c.toNat - 48) start
      else if 65 ≤ c.toNat ∧ c.toNat ≤ 70 then
        scan base (data * base + BitVec.ofNat 32 c.toNat - 65 + 10) start
      else if 97 ≤ c.toNat ∧ c.toNat ≤ 102 then
        scan base (data * base + BitVec.ofNat 32 c.toNat - 97 + 10) start
      else if c = ' ' then scan base data start
      else (data, start)

def mystrtol (nptr : List Char) (base : BitVec 32) : BitVec 32 := (scan base 0 nptr).1

/-- What `strncpy` and the terminator behind it leave in `hexBuff`. -/
def hexBuff (recordBuff : List Char) (offset length : Nat) : List Char :=
  (recordBuff.drop offset).take length

def readField (recordBuff : List Char) (offset length : Nat) : BitVec 32 :=
  mystrtol (hexBuff recordBuff offset length) 16

/-- `Read_SRecord`. A record that is refused may have changed `srec`. -/
def readSRecord (recordBuff : List Char) (srec : SRecord) : SRecordErrors × SRecord :=
  if recordBuff.length < typeLen + countLen then (.invalidRecord, srec)
  else if recordBuff.getD 0 '\x00' ≠ startCode then (.invalidRecord, srec)
  else
    let srec := { srec with type := (readField recordBuff typeOffset typeLen).toInt }
    let fieldDataCount := (readField recordBuff countOffset countLen).toInt
    if srec.type < 0 ∨ 9 < srec.type then (.invalidRecord, srec)
    else
      let asciiAddressLen := addressLength srec.type
      if recordBuff.length < addressOffset + asciiAddressLen then (.invalidRecord, srec)
      else
        let srec := { srec with address := readField recordBuff addressOffset asciiAddressLen }
        let asciiDataLen := fieldDataCount * 2 - asciiAddressLen - checksumLen
        if asciiDataLen < 0 ∨ maxDataLen < asciiDataLen then (.invalidRecord, srec)
        else if recordBuff.length <
            addressOffset + asciiAddressLen + asciiDataLen.toNat + checksumLen then
          (.invalidRecord, srec)
        else
          let dataOffset := addressOffset + asciiAddressLen
          let srec := { srec with
            data := fun i =>
              if i < asciiDataLen.toNat / 2 then
                (readField recordBuff (dataOffset + 2 * i) asciiHexByteLen).setWidth 8
              else srec.data i
            dataLen := asciiDataLen / 2
            checksum :=
              (readField recordBuff (dataOffset + asciiDataLen.toNat) checksumLen).setWidth 8 }
          if srec.checksum ≠ checksumSRecord srec then (.invalidRecord, srec) else (.ok, srec)

/-- What the monitor can reach: memory, the terminal, the programs it has entered. -/
structure Monitor where
  memory : BitVec 32 → BitVec 8
  printed : List Char
  entered : List (BitVec 32)

def writeCodeData (addr : BitVec 32) (len : Int) (data : Nat → BitVec 8) (m : Monitor) :
    Monitor :=
  (List.range len.toNat).foldl
    (fun m i =>
      { m with
        memory := fun place => if place = addr + BitVec.ofNat 32 i then data i else m.memory place })
    m

def convertSRecord (srec : SRecord) (m : Monitor) : Monitor :=
  match srec.type with
  | 7 | 8 | 9 =>
      { m with
        printed := m.printed ++ "entry = ".toList ++ hexField 8 srec.address.toNat ++ ['\r', '\n']
        entered := m.entered ++ [srec.address] }
  | 1 | 2 | 3 => writeCodeData srec.address srec.dataLen srec.data m
  | _ => m

theorem scan_step (data : BitVec 32) (c : Char) (number : Nat)
    (value : digitValue c = some number) (rest : List Char) :
    scan 16 data (c :: rest) = scan 16 (data * 16 + BitVec.ofNat 32 number) rest := by
  unfold digitValue at value
  rw [scan]
  generalize data * 16 = shifted
  split_ifs at value ⊢ with decimal upper lower
  all_goals
    have same := Option.some.inj value
    congr 1
    bv_omega

theorem scan_digit (data : BitVec 32) (number : Nat) (small : number < 16) (rest : List Char) :
    scan 16 data (hexDigit number :: rest) =
      scan 16 (data * 16 + BitVec.ofNat 32 number) rest :=
  scan_step data _ number (digit_value_hex_digit number small) rest

theorem scan_field (width value : Nat) (fits : value < 16 ^ width) (rest : List Char) :
    scan 16 0 (hexField width value ++ rest) = scan 16 (BitVec.ofNat 32 value) rest := by
  induction width generalizing value rest with
  | zero =>
      have zero : value = 0 := by simpa using fits
      rw [zero]
      rfl
  | succ width ih =>
      have quotient : value / 16 < 16 ^ width := by
        rw [Nat.pow_succ] at fits
        omega
      have joined : BitVec.ofNat 32 (value / 16) * 16 + BitVec.ofNat 32 (value % 16) =
          BitVec.ofNat 32 value := by
        conv_rhs => rw [← Nat.div_add_mod' value 16, BitVec.ofNat_add, BitVec.ofNat_mul]
        rfl
      rw [hexField, List.append_assoc, ih _ quotient, List.singleton_append,
        scan_digit _ _ (Nat.mod_lt value (by decide)), joined]

/-- Where a field stands in a line, there it is read. -/
theorem read_field_at (front back : List Char) {line : List Char} {offset width value : Nat}
    (split : line = front ++ (hexField width value ++ back)) (place : front.length = offset)
    (fits : value < 16 ^ width) : readField line offset width = BitVec.ofNat 32 value := by
  have buffer : hexBuff line offset width = hexField width value := by
    rw [hexBuff, split, ← place, List.drop_left]
    have length := hex_field_length width value
    exact List.take_left' length
  have scanned := scan_field width value fits []
  rw [List.append_nil] at scanned
  rw [readField, buffer, mystrtol, scanned]
  rfl

theorem small_to_int (number : Nat) (small : number < 2 ^ 31) :
    (BitVec.ofNat 32 number).toInt = number := by
  have value : (BitVec.ofNat 32 number).toNat = number := by
    rw [BitVec.toNat_ofNat]
    omega
  rw [BitVec.toInt_eq_toNat_of_lt (by omega), value]

theorem checksum_congr (left right : SRecord) (type : left.type = right.type)
    (address : left.address = right.address) (dataLen : left.dataLen = right.dataLen)
    (data : ∀ i, i < right.dataLen.toNat → left.data i = right.data i) :
    checksumSRecord left = checksumSRecord right := by
  simp only [checksumSRecord, fieldDataCount, type, address, dataLen]
  congr 1
  apply List.foldl_ext
  intro checksum i member
  rw [data i (List.mem_range.mp member)]

/-- A data record as the tools build it: the address fits the field of its type. -/
structure DataRecord (srec : SRecord) : Prop where
  type : srec.type = 1 ∨ srec.type = 2 ∨ srec.type = 3
  address : srec.address.toNat < 16 ^ addressLength srec.type
  dataLen : 0 ≤ srec.dataLen ∧ srec.dataLen ≤ 32

structure Measured (srec : SRecord) (kind half length : Nat) : Prop where
  type : srec.type = kind
  kindBound : 1 ≤ kind ∧ kind ≤ 3
  address : addressLength srec.type = 2 * half
  halfBound : 2 ≤ half ∧ half ≤ 4
  dataLen : srec.dataLen = length
  lengthBound : length ≤ 32

theorem data_record_measured (srec : SRecord) (record : DataRecord srec) :
    ∃ kind half length, Measured srec kind half length := by
  obtain ⟨length, same⟩ := Int.eq_ofNat_of_zero_le record.dataLen.1
  have bound := record.dataLen.2
  have short : length ≤ 32 := by omega
  rcases record.type with first | second | third
  · exact ⟨1, 2, length, first, by decide, by rw [first]; rfl, by decide, same, short⟩
  · exact ⟨2, 3, length, second, by decide, by rw [second]; rfl, by decide, same, short⟩
  · exact ⟨3, 4, length, third, by decide, by rw [third]; rfl, by decide, same, short⟩

section Line

variable {srec : SRecord} {kind half length : Nat}

def dataText (srec : SRecord) (length : Nat) : List Char :=
  (List.range length).flatMap fun i => hexField 2 (srec.data i).toNat

theorem data_text_succ (srec : SRecord) (length : Nat) :
    dataText srec (length + 1) = dataText srec length ++ hexField 2 (srec.data length).toNat := by
  simp [dataText, List.range_succ]

@[simp] theorem data_text_length (srec : SRecord) (length : Nat) :
    (dataText srec length).length = 2 * length := by
  induction length with
  | zero => rfl
  | succ length ih =>
      rw [data_text_succ, List.length_append, ih, hex_field_length]
      omega

theorem data_text_split (srec : SRecord) (length i : Nat) (inside : i < length) :
    ∃ back, dataText srec length =
      dataText srec i ++ (hexField 2 (srec.data i).toNat ++ back) := by
  induction length with
  | zero => omega
  | succ length ih =>
      rw [data_text_succ]
      by_cases last : i = length
      · exact ⟨[], by rw [last, List.append_nil]⟩
      · obtain ⟨back, split⟩ := ih (by omega)
        exact ⟨back ++ hexField 2 (srec.data length).toNat, by rw [split]; simp⟩

theorem field_data_count (measured : Measured srec kind half length) :
    fieldDataCount srec = (half + length + 1 : Nat) := by
  have halves : 2 * half / 2 = half := by omega
  have check : checksumLen / 2 = 1 := rfl
  rw [fieldDataCount, measured.address, measured.dataLen, halves, check]
  omega

theorem int_number (number : Nat) (small : number < 2 ^ 32) :
    (BitVec.ofInt 32 number).toNat = number := by
  rw [BitVec.ofInt_natCast, BitVec.toNat_ofNat]
  exact Nat.mod_eq_of_lt small

theorem record_line_fields (measured : Measured srec kind half length) :
    recordLine srec = startCode :: (hexField 1 kind ++ (hexField 2 (half + length + 1) ++
      (hexField (2 * half) srec.address.toNat ++
        (dataText srec length ++ hexField 2 (checksumSRecord srec).toNat)))) := by
  rcases measured.kindBound with ⟨_, few⟩
  rcases measured.halfBound with ⟨_, narrow⟩
  have short := measured.lengthBound
  have type : formatX 1 1 (BitVec.ofInt 32 srec.type).toNat = hexField 1 kind := by
    rw [measured.type, int_number kind (by omega)]
    exact format_x_field 1 0 kind (by decide) (by omega)
  have count : formatX 2 2 (BitVec.ofInt 32 (fieldDataCount srec)).toNat =
      hexField 2 (half + length + 1) := by
    rw [field_data_count measured, int_number _ (by omega)]
    exact format_x_field 2 1 _ (by decide) (by omega)
  have address : (formatX 2 8 srec.address.toNat).drop (maxAddressLen - addressLength srec.type) =
      hexField (2 * half) srec.address.toNat := by
    have digits : formatX 2 8 srec.address.toNat = hexField 8 srec.address.toNat :=
      format_x_field 2 7 _ (by decide) srec.address.isLt
    have front : (hexField (8 - 2 * half) (srec.address.toNat / 16 ^ (2 * half))).length =
        maxAddressLen - 2 * half := hex_field_length _ _
    have split := hex_field_append (8 - 2 * half) (2 * half) srec.address.toNat
    have width : 8 - 2 * half + 2 * half = 8 := by omega
    rw [width] at split
    rw [digits, measured.address, split, ← front, List.drop_left]
  have byte : ∀ value : BitVec 8, formatX 2 2 value.toNat = hexField 2 value.toNat :=
    fun value => format_x_field 2 1 _ (by decide) value.isLt
  have size : srec.dataLen.toNat = length := by rw [measured.dataLen, Int.toNat_natCast]
  simp only [recordLine, type, count, address, byte, size]
  rfl

/-- The numbers that the fields of a line are read as. -/
theorem line_fields (measured : Measured srec kind half length)
    (fits : srec.address.toNat < 16 ^ addressLength srec.type) :
    (recordLine srec).length = 6 + 2 * half + 2 * length ∧
      (recordLine srec).getD 0 '\x00' = startCode ∧
      readField (recordLine srec) typeOffset typeLen = BitVec.ofNat 32 kind ∧
      readField (recordLine srec) countOffset countLen = BitVec.ofNat 32 (half + length + 1) ∧
      readField (recordLine srec) addressOffset (2 * half) = srec.address ∧
      (∀ i, i < length → readField (recordLine srec) (addressOffset + 2 * half + 2 * i)
        asciiHexByteLen = (srec.data i).setWidth 32) ∧
      readField (recordLine srec) (addressOffset + 2 * half + 2 * length) checksumLen =
        (checksumSRecord srec).setWidth 32 := by
  rcases measured.kindBound with ⟨_, few⟩
  rcases measured.halfBound with ⟨_, narrow⟩
  have short := measured.lengthBound
  have line := record_line_fields measured
  have byte : ∀ value : BitVec 8, BitVec.ofNat 32 value.toNat = value.setWidth 32 :=
    fun value => by rw [BitVec.ofNat_toNat]
  refine ⟨?_, ?_, ?_, ?_, ?_, ?_, ?_⟩
  · rw [line]
    simp only [List.length_cons, List.length_append, hex_field_length, data_text_length]
    omega
  · rw [line]
    rfl
  · exact read_field_at [startCode] _ line rfl (by change kind < 16; omega)
  · apply read_field_at (startCode :: hexField 1 kind) _ line rfl
    change half + length + 1 < 256
    omega
  · have whole : BitVec.ofNat 32 srec.address.toNat = srec.address := by simp
    rw [← whole]
    apply read_field_at (startCode :: (hexField 1 kind ++ hexField 2 (half + length + 1)))
      (dataText srec length ++ hexField 2 (checksumSRecord srec).toNat) _ rfl
    · rw [measured.address] at fits
      exact fits
    · rw [line]
      simp only [List.cons_append, List.append_assoc]
  · intro i inside
    obtain ⟨back, split⟩ := data_text_split srec length i inside
    rw [← byte]
    apply read_field_at (startCode :: (hexField 1 kind ++ (hexField 2 (half + length + 1) ++
      (hexField (2 * half) srec.address.toNat ++ dataText srec i))))
      (back ++ hexField 2 (checksumSRecord srec).toNat) _ _ (srec.data i).isLt
    · rw [line, split]
      simp only [List.cons_append, List.append_assoc]
      rfl
    · simp only [List.length_cons, List.length_append, hex_field_length, data_text_length]
      change _ = 4 + 2 * half + 2 * i
      omega
  · rw [← byte]
    apply read_field_at (startCode :: (hexField 1 kind ++ (hexField 2 (half + length + 1) ++
      (hexField (2 * half) srec.address.toNat ++ dataText srec length)))) [] _ _
      (checksumSRecord srec).isLt
    · rw [line]
      simp only [List.cons_append, List.append_assoc, List.append_nil]
      rfl
    · simp only [List.length_cons, List.length_append, hex_field_length, data_text_length]
      change _ = 4 + 2 * half + 2 * length
      omega

def readBack (srec old : SRecord) (half length : Nat) : SRecord :=
  { old with
    type := srec.type
    address := srec.address
    data := fun i =>
      if i < length then
        (readField (recordLine srec) (addressOffset + 2 * half + 2 * i) asciiHexByteLen).setWidth 8
      else old.data i
    dataLen := ((2 * length : Nat) : Int) / 2
    checksum := checksumSRecord srec }

theorem byte_of_field (value : BitVec 8) : (value.setWidth 32).setWidth 8 = value := by
  rw [BitVec.setWidth_setWidth_of_le _ (by decide), BitVec.setWidth_eq]

theorem read_back_length (measured : Measured srec kind half length) (old : SRecord) :
    (readBack srec old half length).dataLen = srec.dataLen := by
  rw [measured.dataLen]
  change ((2 * length : Nat) : Int) / 2 = _
  omega

theorem read_back_data (measured : Measured srec kind half length)
    (fits : srec.address.toNat < 16 ^ addressLength srec.type) (old : SRecord) (i : Nat)
    (inside : i < srec.dataLen.toNat) :
    (readBack srec old half length).data i = srec.data i := by
  rw [measured.dataLen, Int.toNat_natCast] at inside
  change (if i < length then _ else _) = _
  rw [if_pos inside, (line_fields measured fits).2.2.2.2.2.1 i inside, byte_of_field]

theorem read_line (measured : Measured srec kind half length)
    (fits : srec.address.toNat < 16 ^ addressLength srec.type) (old : SRecord) :
    readSRecord (recordLine srec) old = (.ok, readBack srec old half length) := by
  rcases measured.kindBound with ⟨first, few⟩
  rcases measured.halfBound with ⟨wide, narrow⟩
  have short := measured.lengthBound
  rcases line_fields measured fits with ⟨size, start, type, count, address, data, checksum⟩
  have typeInt : (BitVec.ofNat 32 kind).toInt = srec.type := by
    rw [measured.type]
    exact small_to_int kind (by omega)
  have countInt : (BitVec.ofNat 32 (half + length + 1)).toInt = (half + length + 1 : Nat) :=
    small_to_int _ (by omega)
  have kindInt := measured.type
  have dataText : ((half + length + 1 : Nat) : Int) * 2 - (2 * half : Nat) - (checksumLen : Nat) =
      (2 * length : Nat) := by
    change ((half + length + 1 : Nat) : Int) * 2 - (2 * half : Nat) - (2 : Nat) = _
    omega
  have halved : 2 * length / 2 = length := by omega
  have same : checksumSRecord (readBack srec old half length) = checksumSRecord srec :=
    checksum_congr _ _ rfl rfl (read_back_length measured old) (read_back_data measured fits old)
  unfold readSRecord
  rw [if_neg (by rw [size]; change ¬_ < 1 + 2; omega), if_neg (not_not.mpr start)]
  simp only [type, count, typeInt, countInt, measured.address, dataText]
  rw [if_neg (by omega), if_neg (by rw [size]; change ¬_ < 4 + _; omega),
    if_neg (by change ¬(_ ∨ ((64 : Nat) : Int) < _); omega)]
  simp only [Int.toNat_natCast, halved, address, checksum, byte_of_field]
  rw [if_neg (by rw [size]; change ¬_ < 4 + _ + _ + 2; omega)]
  exact if_neg (not_not.mpr same.symm)

end Line

theorem write_code_data_succ (addr : BitVec 32) (length : Nat) (data : Nat → BitVec 8)
    (m : Monitor) :
    writeCodeData addr (length + 1 : Nat) data m =
      { writeCodeData addr length data m with
        memory := fun place =>
          if place = addr + BitVec.ofNat 32 length then data length
          else (writeCodeData addr length data m).memory place } := by
  simp only [writeCodeData, Int.toNat_natCast, List.range_succ, List.foldl_append,
    List.foldl_cons, List.foldl_nil]

/-- The bytes go to the addresses from `addr` on, and nothing else changes. -/
theorem write_code_data_stores (addr : BitVec 32) (length : Nat) (short : length ≤ 2 ^ 32)
    (data : Nat → BitVec 8) (m : Monitor) :
    (∀ i, i < length →
      (writeCodeData addr length data m).memory (addr + BitVec.ofNat 32 i) = data i) ∧
      (∀ place, (∀ i, i < length → place ≠ addr + BitVec.ofNat 32 i) →
        (writeCodeData addr length data m).memory place = m.memory place) ∧
      (writeCodeData addr length data m).printed = m.printed ∧
      (writeCodeData addr length data m).entered = m.entered := by
  induction length with
  | zero => exact ⟨fun i none => absurd none (Nat.not_lt_zero i), fun _ _ => rfl, rfl, rfl⟩
  | succ length ih =>
      rcases ih (by omega) with ⟨stored, kept, printed, entered⟩
      rw [write_code_data_succ]
      refine ⟨?_, ?_, printed, entered⟩
      · intro i inside
        change (if _ then _ else _) = _
        by_cases last : i = length
        · rw [last, if_pos rfl]
        · have apart : addr + BitVec.ofNat 32 i ≠ addr + BitVec.ofNat 32 length := by
            intro same
            have number := congrArg BitVec.toNat ((BitVec.add_right_inj addr).mp same)
            rw [BitVec.toNat_ofNat, BitVec.toNat_ofNat] at number
            omega
          rw [if_neg apart]
          exact stored i (by omega)
      · intro place outside
        change (if _ then _ else _) = _
        rw [if_neg (outside length (Nat.lt_succ_self length))]
        exact kept place fun i inside => outside i (by omega)

theorem convert_data_record (srec : SRecord) (m : Monitor)
    (type : srec.type = 1 ∨ srec.type = 2 ∨ srec.type = 3) :
    convertSRecord srec m = writeCodeData srec.address srec.dataLen srec.data m := by
  unfold convertSRecord
  rcases type with same | same | same
  all_goals
    rw [same]
    rfl

/-- A data record survives the way through its line: it is read back as it was, and
loading what was read puts its bytes at its address and changes nothing else. -/
theorem load_round_trip (srec old : SRecord) (m : Monitor) (record : DataRecord srec) :
    ∃ line back, writeSRecord srec = (.ok, line ++ ['\r', '\n']) ∧
      readSRecord line old = (.ok, back) ∧
      back.type = srec.type ∧ back.address = srec.address ∧ back.dataLen = srec.dataLen ∧
      (∀ i, i < srec.dataLen.toNat → back.data i = srec.data i) ∧
      (∀ i, i < srec.dataLen.toNat →
        (convertSRecord back m).memory (srec.address + BitVec.ofNat 32 i) = srec.data i) ∧
      (∀ place, (∀ i, i < srec.dataLen.toNat → place ≠ srec.address + BitVec.ofNat 32 i) →
        (convertSRecord back m).memory place = m.memory place) ∧
      (convertSRecord back m).printed = m.printed ∧ (convertSRecord back m).entered = m.entered := by
  obtain ⟨kind, half, length, measured⟩ := data_record_measured srec record
  have few := measured.kindBound
  have short := measured.lengthBound
  have numbers := And.intro measured.type measured.dataLen
  have written : writeSRecord srec = (.ok, recordLine srec ++ ['\r', '\n']) := by
    unfold writeSRecord
    exact if_neg (by change ¬(_ ∨ _ ∨ ((32 : Nat) : Int) < _); omega)
  have data := read_back_data measured record.address old
  have dataLen := read_back_length measured old
  have loaded : convertSRecord (readBack srec old half length) m =
      writeCodeData srec.address length (readBack srec old half length).data m := by
    have converted := convert_data_record (readBack srec old half length) m record.type
    rw [dataLen, measured.dataLen] at converted
    exact converted
  have size : srec.dataLen.toNat = length := by rw [measured.dataLen, Int.toNat_natCast]
  rcases write_code_data_stores srec.address length (by omega)
    (readBack srec old half length).data m with ⟨stored, kept, printed, entered⟩
  refine ⟨recordLine srec, readBack srec old half length, written,
    read_line measured record.address old, rfl, rfl, dataLen, data, ?_⟩
  rw [loaded, size]
  rw [size] at data
  refine ⟨?_, kept, printed, entered⟩
  intro i inside
  rw [stored i inside, data i inside]

private def threeBytes : SRecord where
  address := 0x123456
  data := fun i => [0xDE, 0xAD, 0x07].getD i 0
  dataLen := 3
  type := 2
  checksum := 0

private def emptyRecord : SRecord where
  address := 0
  data := fun _ => 0
  dataLen := 0
  type := 0
  checksum := 0

private def clearedMonitor : Monitor where
  memory := fun _ => 0
  printed := []
  entered := []

example : recordLine threeBytes = "S207123456DEAD07CA".toList := by decide

private theorem three_bytes_record : DataRecord threeBytes where
  type := .inr (.inl rfl)
  address := by decide
  dataLen := by decide

theorem load_round_trip_of_three_bytes :
    ∃ line back, writeSRecord threeBytes = (.ok, line ++ ['\r', '\n']) ∧
      readSRecord line emptyRecord = (.ok, back) ∧
      back.type = threeBytes.type ∧ back.address = threeBytes.address ∧
      back.dataLen = threeBytes.dataLen ∧
      (∀ i, i < threeBytes.dataLen.toNat → back.data i = threeBytes.data i) ∧
      (∀ i, i < threeBytes.dataLen.toNat →
        (convertSRecord back clearedMonitor).memory (threeBytes.address + BitVec.ofNat 32 i) =
          threeBytes.data i) ∧
      (∀ place,
        (∀ i, i < threeBytes.dataLen.toNat → place ≠ threeBytes.address + BitVec.ofNat 32 i) →
        (convertSRecord back clearedMonitor).memory place = clearedMonitor.memory place) ∧
      (convertSRecord back clearedMonitor).printed = clearedMonitor.printed ∧
      (convertSRecord back clearedMonitor).entered = clearedMonitor.entered :=
  load_round_trip threeBytes emptyRecord clearedMonitor three_bytes_record

end MinionSubsystem.SRecordLoad
