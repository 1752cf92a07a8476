import MinionSubsystem.ByteMemory

/-!
# The loader for ELF files in memory

`load_elf` of `driver/elf.c`, on a machine with 64-bit addresses, over `memcpy` and `memset`
of `string.c`. Every access to the file is logged by its distance from the first byte. What is
stored may change the file under the loader, so each round looks at the memory that the rounds
before have left, and a copy at the units that it has stored before.
-/

namespace MinionSubsystem.ElfInMemory

open MinionSubsystem.ByteMemory

set_option autoImplicit false

def load16 (memory : AddressSpace) (address : BitVec 64) : BitVec 16 :=
  memory (address + 1) ++ memory address

def load32 (memory : AddressSpace) (address : BitVec 64) : BitVec 32 :=
  memory (address + 3) ++ memory (address + 2) ++ memory (address + 1) ++ memory address

def load64 (memory : AddressSpace) (address : BitVec 64) : BitVec 64 :=
  load32 memory (address + 4) ++ load32 memory address

/-- The loop of `memcpy` for its first `rounds` units: `*d++ = *s++`. -/
def copyUnits (unit : Nat) (dest src : BitVec 64) : Nat → AddressSpace → AddressSpace
  | 0, memory => memory
  | rounds + 1, memory =>
      let memory := copyUnits unit dest src rounds memory
      let step := BitVec.ofNat 64 (unit * rounds)
      storeRange (dest + step) unit (fun place => memory (src + step + place)) memory

/-- The loops run while `d < dest + len`, which is false from the start if the sum wraps. -/
def Forward (dest len : BitVec 64) : Prop := dest < dest + len

instance (dest len : BitVec 64) : Decidable (Forward dest len) :=
  inferInstanceAs (Decidable (dest < dest + len))

def memcpy (dest src len : BitVec 64) (memory : AddressSpace) : AddressSpace :=
  if Forward dest len then
    if (dest ||| src ||| len) &&& 7 = 0 then copyUnits 8 dest src (len.toNat / 8) memory
    else copyUnits 1 dest src len.toNat memory
  else memory

/-- `memset` with 0; words of zeros and single zeros are the same. -/
def memset (dest len : BitVec 64) (memory : AddressSpace) : AddressSpace :=
  if Forward dest len then storeRange dest len.toNat (fun _ => 0) memory else memory

structure Call where
  targetBase : BitVec 64
  elf : BitVec 64
  elfSize : BitVec 32

/-- Bytes that are read, by the distance of the first one from `elf`. -/
structure Region where
  offset : BitVec 64
  length : Nat
  deriving DecidableEq, Repr

structure Loading where
  memory : AddressSpace
  reads : List Region
  code : Option Nat

def Loading.read (l : Loading) (offset : BitVec 64) (length : Nat) : Loading :=
  { l with reads := l.reads ++ [{ offset := offset, length := length }] }

def sizeofEhdr : Nat := 64

def sizeofPhdr : BitVec 64 := 56

def ptLoad : BitVec 32 := 1

section Fields

variable (call : Call) (memory : AddressSpace)

def isElf64 : Bool :=
  memory call.elf = 0x7F && memory (call.elf + 1) = 0x45 && memory (call.elf + 2) = 0x4C &&
    memory (call.elf + 3) = 0x46 && memory (call.elf + 4) = 2

def ePhoff : BitVec 64 := load64 memory (call.elf + 32)

def ePhnum : BitVec 16 := load16 memory (call.elf + 56)

/-- The end of the program headers, as the loader computes it. -/
def tableEnd : BitVec 64 := ePhoff call memory + (ePhnum call memory).setWidth 64 * sizeofPhdr

variable (ph : BitVec 64)

def pType : BitVec 32 := load32 memory (call.elf + ph)

def pOffset : BitVec 64 := load64 memory (call.elf + (ph + 8))

def pPaddr : BitVec 64 := load64 memory (call.elf + (ph + 24))

def pFilesz : BitVec 64 := load64 memory (call.elf + (ph + 32))

def pMemsz : BitVec 64 := load64 memory (call.elf + (ph + 40))

end Fields

/-- The sanity checks. `IS_ELF64` is logged whole, though it stops at the first difference. -/
def checks (call : Call) (memory : AddressSpace) : Loading :=
  let l : Loading := { memory := memory, reads := [], code := none }
  if call.elfSize.toNat ≤ sizeofEhdr then { l with code := some 1 }
  else
    let l := l.read 0 5
    if !isElf64 call memory then { l with code := some 2 }
    else
      let l := (l.read 32 8).read 56 2
      if call.elfSize.setWidth 64 < tableEnd call memory then { l with code := some 3 } else l

def copyData (call : Call) (ph : BitVec 64) (l : Loading) : Loading :=
  let memory := l.memory
  let l := l.read (ph + 32) 8
  if pFilesz call memory ph ≠ 0 then
    let l := (l.read (ph + 8) 8).read (ph + 32) 8
    let offset := pOffset call memory ph
    let filesz := pFilesz call memory ph
    if call.elfSize.setWidth 64 < offset + filesz then { l with code := some 3 }
    else
      let dest := call.targetBase + pPaddr call memory ph
      let l := l.read (ph + 24) 8
      let l := if Forward dest filesz then l.read offset filesz.toNat else l
      { l with memory := memcpy dest (call.elf + offset) filesz memory }
  else l

def padSegment (call : Call) (ph : BitVec 64) (l : Loading) : Loading :=
  let memory := l.memory
  let l := (l.read (ph + 40) 8).read (ph + 32) 8
  let filesz := pFilesz call memory ph
  let memsz := pMemsz call memory ph
  if memsz > filesz then
    let l := l.read (ph + 24) 8
    { l with
      memory := memset (call.targetBase + pPaddr call memory ph + filesz) (memsz - filesz) memory }
  else l

def loadSegment (call : Call) (ph : BitVec 64) (l : Loading) : Loading :=
  let memory := l.memory
  let l := l.read ph 4
  if pType call memory ph = ptLoad then
    let l := l.read (ph + 40) 8
    if pMemsz call memory ph ≠ 0 then
      let l := copyData call ph l
      if l.code.isSome then l else padSegment call ph l
    else l
  else l

/-- The distance of `ph[i]`. The pointer `ph` is computed once. -/
def headerPlace (call : Call) (memory : AddressSpace) (i : Nat) : BitVec 64 :=
  ePhoff call memory + BitVec.ofNat 64 i * sizeofPhdr

/-- The loader before round `i`; its code is there once it has returned. -/
def loadAt (call : Call) (memory : AddressSpace) : Nat → Loading
  | 0 => checks call memory
  | i + 1 =>
      let l := loadAt call memory i
      if l.code.isSome then l
      else if i < (ePhnum call l.memory).toNat then
        loadSegment call (headerPlace call memory i) (l.read 56 2)
      else { l.read 56 2 with code := some 0 }

/-- No `e_phnum` allows for more rounds. -/
def loadElf (call : Call) (memory : AddressSpace) : Loading := loadAt call memory (2 ^ 16)

def Region.Inside (region : Region) (elfSize : BitVec 32) : Prop :=
  region.offset.toNat + region.length ≤ elfSize.toNat

def Round (call : Call) (memory : AddressSpace) (i : Nat) : Prop :=
  (loadAt call memory i).code = none ∧ i < (ePhnum call (loadAt call memory i).memory).toNat

def HasData (call : Call) (memory : AddressSpace) (ph : BitVec 64) : Prop :=
  pType call memory ph = ptLoad ∧ pMemsz call memory ph ≠ 0 ∧ pFilesz call memory ph ≠ 0

/-- `memcpy` does not find the end of the destination in front of it. -/
def Copies (call : Call) (memory : AddressSpace) (ph : BitVec 64) : Prop :=
  Forward (call.targetBase + pPaddr call memory ph) (pFilesz call memory ph)

def segmentEnd (call : Call) (memory : AddressSpace) (ph : BitVec 64) : Nat :=
  (pOffset call memory ph).toNat + (pFilesz call memory ph).toNat

/-- The end of the segment's data as the loader computes it. -/
def checkedEnd (call : Call) (memory : AddressSpace) (ph : BitVec 64) : Nat :=
  (pOffset call memory ph + pFilesz call memory ph).toNat

/-- Only bytes of the file are read. Where the loader reports success, the program headers and
the data of the segments it has loaded lie inside the file. -/
structure StaysInside (call : Call) (memory : AddressSpace) : Prop where
  reads : ∀ region ∈ (loadElf call memory).reads, region.Inside call.elfSize
  headers : (loadElf call memory).code = some 0 →
    (ePhoff call memory).toNat + (ePhnum call memory).toNat * 56 ≤ call.elfSize.toNat
  segments : (loadElf call memory).code = some 0 → ∀ i, Round call memory i →
    HasData call (loadAt call memory i).memory (headerPlace call memory i) →
    segmentEnd call (loadAt call memory i).memory (headerPlace call memory i) ≤
      call.elfSize.toNat

/-- A segment that is not loaded from the file has no data in it, or inside it. -/
def SkipInside (call : Call) (memory : AddressSpace) (i : Nat) : Prop :=
  ¬HasData call (loadAt call memory i).memory (headerPlace call memory i) →
    pFilesz call (loadAt call memory i).memory (headerPlace call memory i) = 0 ∨
    segmentEnd call (loadAt call memory i).memory (headerPlace call memory i) ≤
      call.elfSize.toNat

/-- The bytes of a program header up to the last one that the loader looks at. -/
def headerRead (call : Call) (memory : AddressSpace) (ph : BitVec 64) : Nat :=
  if pType call memory ph = ptLoad then 48 else 4

def NoneRefused (call : Call) (memory : AddressSpace) : Prop :=
  ∀ i, Round call memory i →
    HasData call (loadAt call memory i).memory (headerPlace call memory i) →
    checkedEnd call (loadAt call memory i).memory (headerPlace call memory i) ≤
      call.elfSize.toNat

/-- No sum wraps around to the size of the file, and the headers that a store over `e_phnum`
adds are in the file. Data that `memcpy` leaves alone matters only if no segment is refused. -/
structure Unwrapped (call : Call) (memory : AddressSpace) : Prop where
  table : sizeofEhdr < call.elfSize.toNat → isElf64 call memory →
    (tableEnd call memory).toNat ≤ call.elfSize.toNat →
    (ePhoff call memory).toNat + (ePhnum call memory).toNat * 56 < 2 ^ 64
  data : ∀ i, Round call memory i →
    HasData call (loadAt call memory i).memory (headerPlace call memory i) →
    Copies call (loadAt call memory i).memory (headerPlace call memory i) ∨
      NoneRefused call memory →
    checkedEnd call (loadAt call memory i).memory (headerPlace call memory i) ≤
      call.elfSize.toNat →
    segmentEnd call (loadAt call memory i).memory (headerPlace call memory i) < 2 ^ 64
  added : ∀ i, Round call memory i → (ePhnum call memory).toNat ≤ i →
    (ePhoff call memory).toNat + i * 56 +
      headerRead call (loadAt call memory i).memory (headerPlace call memory i) ≤
        call.elfSize.toNat

def FieldOf (ph : BitVec 64) (region : Region) : Prop :=
  ∃ k, k + 8 ≤ 48 ∧ region = { offset := ph + BitVec.ofNat 64 k, length := 8 }

/-- What a round may read of the file, apart from `e_phnum`. -/
inductive ReadInRound (call : Call) (memory : AddressSpace) (ph : BitVec 64) : Region → Prop where
  | type : ReadInRound call memory ph { offset := ph, length := 4 }
  | field {region : Region} (load : pType call memory ph = ptLoad) (field : FieldOf ph region) :
      ReadInRound call memory ph region
  | data (data : HasData call memory ph) (copies : Copies call memory ph)
      (checked : checkedEnd call memory ph ≤ call.elfSize.toNat) :
      ReadInRound call memory ph
        { offset := pOffset call memory ph, length := (pFilesz call memory ph).toNat }

@[simp] theorem read_memory (l : Loading) (offset : BitVec 64) (length : Nat) :
    (l.read offset length).memory = l.memory := rfl

theorem mem_read (l : Loading) (offset : BitVec 64) (length : Nat) (region : Region) :
    region ∈ (l.read offset length).reads ↔
      region ∈ l.reads ∨ region = { offset := offset, length := length } := by
  rw [Loading.read, List.mem_append, List.mem_singleton]

section Segment

variable (call : Call) (ph : BitVec 64) (l : Loading)

/-- The check of a segment, without the wider register. -/
theorem checked_end_le_iff (memory : AddressSpace) :
    checkedEnd call memory ph ≤ call.elfSize.toNat ↔
      ¬call.elfSize.setWidth 64 < pOffset call memory ph + pFilesz call memory ph := by
  have bound := call.elfSize.isLt
  rw [BitVec.lt_def, BitVec.toNat_setWidth, checkedEnd]
  omega

theorem checked_end (memory : AddressSpace) (whole : segmentEnd call memory ph < 2 ^ 64) :
    checkedEnd call memory ph = segmentEnd call memory ph := by
  rw [checkedEnd, BitVec.toNat_add]
  exact Nat.mod_eq_of_lt whole

def FieldsOnly (next : Loading) : Prop :=
  ∀ region ∈ next.reads, region ∈ l.reads ∨ FieldOf ph region

variable {ph l}

theorem fields_only_refl : FieldsOnly ph l l := fun _ member => Or.inl member

theorem fields_only_read {next : Loading} (only : FieldsOnly ph l next) (k : Nat)
    (inside : k + 8 ≤ 48) : FieldsOnly ph l (next.read (ph + BitVec.ofNat 64 k) 8) := by
  intro region member
  rcases (mem_read next _ 8 region).mp member with before | rfl
  · exact only region before
  · exact Or.inr ⟨k, inside, rfl⟩

variable (ph l)

theorem mem_copy_data (region : Region) (member : region ∈ (copyData call ph l).reads) :
    region ∈ l.reads ∨ FieldOf ph region ∨
      (pFilesz call l.memory ph ≠ 0 ∧ Copies call l.memory ph ∧
        checkedEnd call l.memory ph ≤ call.elfSize.toNat ∧
        region = {
          offset := pOffset call l.memory ph
          length := (pFilesz call l.memory ph).toNat }) := by
  have filesz := fields_only_read (@fields_only_refl ph l) 32 (by decide)
  have sizes := fields_only_read (fields_only_read filesz 8 (by decide)) 32 (by decide)
  have fields := fields_only_read sizes 24 (by decide)
  dsimp only [copyData] at member
  split_ifs at member with data refused forward
  · exact (sizes region member).imp id Or.inl
  · rcases (mem_read _ _ _ region).mp member with before | rfl
    · exact (fields region before).imp id Or.inl
    · exact Or.inr (Or.inr
        ⟨data, forward, (checked_end_le_iff call ph l.memory).mpr refused, rfl⟩)
  · exact (fields region member).imp id Or.inl
  · exact (filesz region member).imp id Or.inl

theorem mem_pad_segment (region : Region) (member : region ∈ (padSegment call ph l).reads) :
    region ∈ l.reads ∨ FieldOf ph region := by
  have memsz := fields_only_read (@fields_only_refl ph l) 40 (by decide)
  have sizes := fields_only_read memsz 32 (by decide)
  dsimp only [padSegment] at member
  split_ifs at member
  · exact fields_only_read sizes 24 (by decide) region member
  · exact sizes region member

/-- A round reads the type of its header, the other fields of a segment to be loaded, and the
data that it has checked. -/
theorem mem_load_segment (region : Region) (member : region ∈ (loadSegment call ph l).reads) :
    region ∈ l.reads ∨ ReadInRound call l.memory ph region := by
  have begun : region ∈ ((l.read ph 4).read (ph + 40) 8).reads →
      pType call l.memory ph = ptLoad →
      region ∈ l.reads ∨ ReadInRound call l.memory ph region := by
    intro early load
    simp only [mem_read] at early
    rcases early with (kept | rfl) | rfl
    · exact Or.inl kept
    · exact Or.inr .type
    · exact Or.inr (.field load ⟨40, by decide, rfl⟩)
  have copied : region ∈ (copyData call ph ((l.read ph 4).read (ph + 40) 8)).reads →
      pType call l.memory ph = ptLoad → pMemsz call l.memory ph ≠ 0 →
      region ∈ l.reads ∨ ReadInRound call l.memory ph region := by
    intro early load memsz
    rcases mem_copy_data call ph _ region early with
      kept | field | ⟨filesz, copies, checked, rfl⟩
    · exact begun kept load
    · exact Or.inr (.field load field)
    · exact Or.inr (.data ⟨load, memsz, filesz⟩ copies checked)
  dsimp only [loadSegment] at member
  split_ifs at member with load memsz stopped
  · exact copied member load memsz
  · rcases mem_pad_segment call ph _ region member with kept | field
    · exact copied kept load memsz
    · exact Or.inr (.field load field)
  · exact begun member load
  · rcases (mem_read l ph 4 region).mp member with kept | rfl
    · exact Or.inl kept
    · exact Or.inr .type

theorem read_grows (offset : BitVec 64) (length : Nat) : l.reads ⊆ (l.read offset length).reads :=
  List.subset_append_left _ _

theorem copy_data_grows : l.reads ⊆ (copyData call ph l).reads := by
  intro region member
  dsimp only [copyData]
  split_ifs <;> simp only [mem_read, member, true_or]

theorem pad_segment_grows : l.reads ⊆ (padSegment call ph l).reads := by
  intro region member
  dsimp only [padSegment]
  split_ifs <;> simp only [mem_read, member, true_or]

/-- A round reads the type of its header, and of a segment to be loaded the size as well. -/
theorem load_segment_begins :
    (l.read ph 4).reads ⊆ (loadSegment call ph l).reads ∧
    (pType call l.memory ph = ptLoad →
      ((l.read ph 4).read (ph + 40) 8).reads ⊆ (loadSegment call ph l).reads) := by
  have type := read_grows (l.read ph 4) (ph + 40) 8
  have copied := copy_data_grows call ph ((l.read ph 4).read (ph + 40) 8)
  have padded := pad_segment_grows call ph (copyData call ph ((l.read ph 4).read (ph + 40) 8))
  dsimp only [loadSegment]
  split_ifs with load memsz stopped
  · exact ⟨List.Subset.trans type copied, fun _ => copied⟩
  · have both := List.Subset.trans copied padded
    exact ⟨List.Subset.trans type both, fun _ => both⟩
  · exact ⟨type, fun _ => List.Subset.refl _⟩
  · exact ⟨List.Subset.refl _, fun same => absurd same load⟩

theorem copy_data_checked (filesz : pFilesz call l.memory ph ≠ 0)
    (copies : Copies call l.memory ph)
    (checked : checkedEnd call l.memory ph ≤ call.elfSize.toNat) :
    { offset := pOffset call l.memory ph, length := (pFilesz call l.memory ph).toNat } ∈
      (copyData call ph l).reads := by
  dsimp only [Copies] at copies
  dsimp only [copyData]
  rw [if_pos filesz, if_neg ((checked_end_le_iff call ph l.memory).mp checked), if_pos copies]
  exact (mem_read _ _ _ _).mpr (Or.inr rfl)

theorem copy_data_refused (filesz : pFilesz call l.memory ph ≠ 0)
    (refused : call.elfSize.toNat < checkedEnd call l.memory ph) :
    (copyData call ph l).code = some 3 := by
  have above : call.elfSize.setWidth 64 <
      pOffset call l.memory ph + pFilesz call l.memory ph := by
    by_contra accepted
    exact Nat.not_le_of_lt refused ((checked_end_le_iff call ph l.memory).mpr accepted)
  dsimp only [copyData]
  rw [if_pos filesz, if_pos above]

/-- The data of a segment is read if the check has accepted it and `memcpy` copies it. -/
theorem load_segment_data (data : HasData call l.memory ph) (copies : Copies call l.memory ph)
    (checked : checkedEnd call l.memory ph ≤ call.elfSize.toNat) :
    { offset := pOffset call l.memory ph, length := (pFilesz call l.memory ph).toNat } ∈
      (loadSegment call ph l).reads := by
  obtain ⟨load, memsz, filesz⟩ := data
  have copied := copy_data_checked call ph ((l.read ph 4).read (ph + 40) 8) filesz copies
    checked
  dsimp only [loadSegment]
  rw [if_pos load, if_pos memsz]
  split_ifs
  · exact copied
  · exact pad_segment_grows call ph _ copied

theorem load_segment_refused (data : HasData call l.memory ph)
    (refused : call.elfSize.toNat < checkedEnd call l.memory ph) :
    (loadSegment call ph l).code = some 3 := by
  obtain ⟨load, memsz, filesz⟩ := data
  have stopped := copy_data_refused call ph ((l.read ph 4).read (ph + 40) 8) filesz refused
  have returned : (copyData call ph ((l.read ph 4).read (ph + 40) 8)).code.isSome := by
    rw [stopped]
    rfl
  dsimp only [loadSegment]
  rw [if_pos load, if_pos memsz, if_pos returned, stopped]

theorem pad_segment_code : (padSegment call ph l).code = l.code := by
  dsimp only [padSegment]
  split_ifs <;> rfl

theorem copy_data_running (running : l.code = none)
    (accepted : pFilesz call l.memory ph ≠ 0 → checkedEnd call l.memory ph ≤ call.elfSize.toNat) :
    (copyData call ph l).code = none := by
  dsimp only [copyData]
  split_ifs with filesz refused
  · exact absurd refused ((checked_end_le_iff call ph l.memory).mp (accepted filesz))
  all_goals exact running

theorem load_segment_running (running : l.code = none)
    (accepted : HasData call l.memory ph → checkedEnd call l.memory ph ≤ call.elfSize.toNat) :
    (loadSegment call ph l).code = none := by
  dsimp only [loadSegment]
  split_ifs with load memsz stopped
  · exact copy_data_running call ph _ running fun filesz => accepted ⟨load, memsz, filesz⟩
  · rw [pad_segment_code]
    exact copy_data_running call ph _ running fun filesz => accepted ⟨load, memsz, filesz⟩
  · exact running
  · exact running

end Segment

section Rounds

variable (call : Call) (memory : AddressSpace)

theorem load_at_round (i : Nat) (round : Round call memory i) :
    loadAt call memory (i + 1) =
      loadSegment call (headerPlace call memory i) ((loadAt call memory i).read 56 2) := by
  rw [loadAt, round.1]
  exact if_pos round.2

theorem load_at_returned (i code : Nat) (returned : (loadAt call memory i).code = some code)
    (count : Nat) : loadAt call memory (i + count) = loadAt call memory i := by
  induction count with
  | zero => rfl
  | succ count ih =>
      rw [← Nat.add_assoc, loadAt, ih, returned]
      rfl

/-- What a round without a header adds. -/
theorem load_at_idle (i : Nat) (idle : ¬Round call memory i) :
    loadAt call memory (i + 1) = loadAt call memory i ∨
      (loadAt call memory i).code = none ∧
        loadAt call memory (i + 1) = { (loadAt call memory i).read 56 2 with code := some 0 } := by
  cases returned : (loadAt call memory i).code with
  | some code => exact Or.inl (load_at_returned call memory i code returned 1)
  | none =>
      have last : ¬i < (ePhnum call (loadAt call memory i).memory).toNat :=
        fun header => idle ⟨returned, header⟩
      refine Or.inr ⟨rfl, ?_⟩
      rw [loadAt, returned]
      exact if_neg last

theorem load_at_grows (i count : Nat) :
    (loadAt call memory i).reads ⊆ (loadAt call memory (i + count)).reads := by
  induction count with
  | zero => exact List.Subset.refl _
  | succ count ih =>
      apply List.Subset.trans ih
      rw [← Nat.add_assoc]
      by_cases round : Round call memory (i + count)
      · rw [load_at_round call memory _ round]
        apply List.Subset.trans (read_grows _ 56 2)
        exact List.Subset.trans (read_grows _ _ 4) (load_segment_begins call _ _).1
      · rcases load_at_idle call memory _ round with same | ⟨_, ended⟩
        · rw [same]
          exact List.Subset.refl _
        · rw [ended]
          exact read_grows _ 56 2

theorem round_bound (i : Nat) (round : Round call memory i) : i + 1 ≤ 2 ^ 16 := by
  have header := round.2
  have bound := (ePhnum call (loadAt call memory i).memory).isLt
  omega

/-- What a round has read, the loader has read. -/
theorem round_reads (i : Nat) (round : Round call memory i) :
    (loadSegment call (headerPlace call memory i) ((loadAt call memory i).read 56 2)).reads ⊆
      (loadElf call memory).reads := by
  have bound := round_bound call memory i round
  have grown := load_at_grows call memory (i + 1) (2 ^ 16 - (i + 1))
  rw [Nat.add_sub_cancel' bound] at grown
  rw [← load_at_round call memory i round]
  exact grown

/-- The loader returns. -/
theorem load_elf_returns (call : Call) (memory : AddressSpace) :
    (loadElf call memory).code.isSome := by
  have rounds : 2 ^ 16 = 65535 + 1 := rfl
  rw [loadElf, rounds, loadAt]
  cases returned : (loadAt call memory 65535).code with
  | some code =>
      rw [Option.isSome_some, if_pos rfl, returned]
      rfl
  | none =>
      have bound := (ePhnum call (loadAt call memory 65535).memory).isLt
      have last : ¬65535 < (ePhnum call (loadAt call memory 65535).memory).toNat := by omega
      rw [if_neg (by decide), if_neg last]
      rfl

/-- The loop is entered with a program header table whose computed end is in the file. -/
theorem checks_passed (passed : (checks call memory).code = none) :
    sizeofEhdr < call.elfSize.toNat ∧ isElf64 call memory = true ∧
      (tableEnd call memory).toNat ≤ call.elfSize.toNat := by
  dsimp only [checks] at passed
  split_ifs at passed with small other damaged
  rw [BitVec.lt_def, BitVec.toNat_setWidth] at damaged
  have bound := call.elfSize.isLt
  refine ⟨by omega, by simpa using other, by omega⟩

theorem running_passed (i : Nat) (running : (loadAt call memory i).code = none) :
    (checks call memory).code = none := by
  cases returned : (checks call memory).code with
  | none => rfl
  | some code =>
      have kept := load_at_returned call memory 0 code returned i
      rw [Nat.zero_add] at kept
      rw [kept] at running
      exact absurd (running.symm.trans returned) (by simp)

theorem table_end (whole : (ePhoff call memory).toNat + (ePhnum call memory).toNat * 56 < 2 ^ 64) :
    (tableEnd call memory).toNat =
      (ePhoff call memory).toNat + (ePhnum call memory).toNat * 56 := by
  have bound := (ePhnum call memory).isLt
  have size : sizeofPhdr.toNat = 56 := rfl
  rw [tableEnd, BitVec.toNat_add, BitVec.toNat_mul, BitVec.toNat_setWidth, size]
  omega

theorem header_place (i : Nat) (small : i < 2 ^ 16)
    (whole : (ePhoff call memory).toNat + i * 56 < 2 ^ 64) :
    (headerPlace call memory i).toNat = (ePhoff call memory).toNat + i * 56 := by
  have size : sizeofPhdr.toNat = 56 := rfl
  rw [headerPlace, BitVec.toNat_add, BitVec.toNat_mul, BitVec.toNat_ofNat, size]
  omega

theorem header_read_bound (current : AddressSpace) (ph : BitVec 64) :
    4 ≤ headerRead call current ph ∧ headerRead call current ph ≤ 48 := by
  unfold headerRead
  split_ifs <;> decide

/-- Of a file that is large enough the loader may look at the first header. -/
theorem first_inside (large : sizeofEhdr < call.elfSize.toNat) (k length : Nat)
    (inside : k + length ≤ 64) :
    ({ offset := BitVec.ofNat 64 k, length := length } : Region).Inside call.elfSize := by
  have ehdr : sizeofEhdr = 64 := rfl
  have offset : (BitVec.ofNat 64 k).toNat = k := by
    rw [BitVec.toNat_ofNat]
    omega
  rw [Region.Inside, offset]
  dsimp only
  omega

theorem checks_inside (region : Region) (member : region ∈ (checks call memory).reads) :
    region.Inside call.elfSize := by
  dsimp only [checks] at member
  split_ifs at member with small other damaged
  · exact absurd member List.not_mem_nil
  · rcases (mem_read _ _ _ region).mp member with none | rfl
    · exact absurd none List.not_mem_nil
    · exact first_inside call (by omega) 0 5 (by decide)
  all_goals
    simp only [mem_read] at member
    rcases member with ((none | rfl) | rfl) | rfl
    · exact absurd none List.not_mem_nil
    · exact first_inside call (by omega) 0 5 (by decide)
    · exact first_inside call (by omega) 32 8 (by decide)
    · exact first_inside call (by omega) 56 2 (by decide)

theorem table_inside (unwrapped : Unwrapped call memory)
    (passed : (checks call memory).code = none) :
    (ePhoff call memory).toNat + (ePhnum call memory).toNat * 56 ≤ call.elfSize.toNat := by
  obtain ⟨large, elf64, inside⟩ := checks_passed call memory passed
  have end_value := table_end call memory (unwrapped.table large elf64 inside)
  omega

theorem header_inside (unwrapped : Unwrapped call memory) (i : Nat)
    (round : Round call memory i) :
    (headerPlace call memory i).toNat +
      headerRead call (loadAt call memory i).memory (headerPlace call memory i) ≤
        call.elfSize.toNat := by
  have inside := table_inside call memory unwrapped (running_passed call memory i round.1)
  have few := round_bound call memory i round
  have bound := call.elfSize.isLt
  rw [header_place call memory i (by omega) (by omega)]
  by_cases listed : i < (ePhnum call memory).toNat
  · have read := (header_read_bound call (loadAt call memory i).memory
      (headerPlace call memory i)).2
    omega
  · exact unwrapped.added i round (by omega)

theorem round_inside (unwrapped : Unwrapped call memory) (i : Nat) (round : Round call memory i)
    (before : ∀ region ∈ (loadAt call memory i).reads, region.Inside call.elfSize)
    (region : Region) (member : region ∈ (loadAt call memory (i + 1)).reads) :
    region.Inside call.elfSize := by
  have header := header_inside call memory unwrapped i round
  have bound := call.elfSize.isLt
  have large := (checks_passed call memory (running_passed call memory i round.1)).1
  have type := (header_read_bound call (loadAt call memory i).memory
    (headerPlace call memory i)).1
  rw [load_at_round call memory i round] at member
  rcases mem_load_segment call _ _ region member with kept | new
  · rcases (mem_read _ _ _ region).mp kept with old | rfl
    · exact before region old
    · exact first_inside call large 56 2 (by decide)
  · cases new with
    | type =>
        change (headerPlace call memory i).toNat + 4 ≤ call.elfSize.toNat
        omega
    | field load field =>
        obtain ⟨k, inside, rfl⟩ := field
        have whole :
            headerRead call (loadAt call memory i).memory (headerPlace call memory i) = 48 :=
          if_pos load
        change (headerPlace call memory i + BitVec.ofNat 64 k).toNat + 8 ≤ call.elfSize.toNat
        rw [BitVec.toNat_add, BitVec.toNat_ofNat]
        omega
    | data data copies checked =>
        have whole := checked_end call _ _ (unwrapped.data i round data (Or.inl copies) checked)
        rw [read_memory, whole] at checked
        exact checked

theorem reads_inside (unwrapped : Unwrapped call memory) (i : Nat) :
    ∀ region ∈ (loadAt call memory i).reads, region.Inside call.elfSize := by
  induction i with
  | zero => exact checks_inside call memory
  | succ i ih =>
      by_cases round : Round call memory i
      · exact round_inside call memory unwrapped i round ih
      · rcases load_at_idle call memory i round with same | ⟨running, ended⟩
        · rw [same]
          exact ih
        · rw [ended]
          intro region member
          rcases (mem_read _ _ _ region).mp member with old | rfl
          · exact ih region old
          · have passed := running_passed call memory i running
            exact first_inside call (checks_passed call memory passed).1 56 2 (by decide)

theorem checks_never_succeed : (checks call memory).code ≠ some 0 := by
  dsimp only [checks]
  split_ifs <;> simp [Loading.read]

theorem success_passed (success : (loadElf call memory).code = some 0) :
    (checks call memory).code = none := by
  cases returned : (checks call memory).code with
  | none => rfl
  | some code =>
      have kept := load_at_returned call memory 0 code returned (2 ^ 16)
      rw [Nat.zero_add] at kept
      rw [loadElf, kept] at success
      exact absurd success (checks_never_succeed call memory)

/-- Behind a success every segment has passed its check. -/
theorem success_none_refused (success : (loadElf call memory).code = some 0) :
    NoneRefused call memory := by
  intro i round data
  by_contra refused
  have returned : (loadAt call memory (i + 1)).code = some 3 := by
    rw [load_at_round call memory i round]
    exact load_segment_refused call _ _ data (Nat.lt_of_not_le refused)
  have bound := round_bound call memory i round
  have kept := load_at_returned call memory (i + 1) 3 returned (2 ^ 16 - (i + 1))
  rw [Nat.add_sub_cancel' bound] at kept
  rw [loadElf, kept, returned] at success
  contradiction

/-- While no segment is refused, the loop goes on or ends with success. -/
theorem none_refused_code (passed : (checks call memory).code = none)
    (accepted : NoneRefused call memory) (i : Nat) :
    (loadAt call memory i).code = none ∨ (loadAt call memory i).code = some 0 := by
  induction i with
  | zero => exact Or.inl passed
  | succ i ih =>
      by_cases round : Round call memory i
      · rw [load_at_round call memory i round]
        exact Or.inl (load_segment_running call _ ((loadAt call memory i).read 56 2) round.1
          (accepted i round))
      · rcases load_at_idle call memory i round with same | ⟨_, ended⟩
        · rw [same]
          exact ih
        · rw [ended]
          exact Or.inr rfl

theorem none_refused_success (passed : (checks call memory).code = none)
    (accepted : NoneRefused call memory) : (loadElf call memory).code = some 0 := by
  rcases none_refused_code call memory passed accepted (2 ^ 16) with running | success
  · have returned := load_elf_returns call memory
    rw [loadElf, running] at returned
    exact absurd returned Bool.false_ne_true
  · exact success

/-- Of every header the type is read. -/
theorem header_read (i : Nat) (round : Round call memory i) :
    { offset := headerPlace call memory i, length := 4 } ∈ (loadElf call memory).reads := by
  apply round_reads call memory i round
  apply (load_segment_begins call _ _).1
  exact (mem_read _ _ _ _).mpr (Or.inr rfl)

/-- A table that wraps around to the size of the file is not in it. -/
theorem wrapped_table_outside (large : sizeofEhdr < call.elfSize.toNat)
    (elf64 : isElf64 call memory = true)
    (inside : (tableEnd call memory).toNat ≤ call.elfSize.toNat)
    (wraps : 2 ^ 64 ≤ (ePhoff call memory).toNat + (ePhnum call memory).toNat * 56) :
    ∃ region ∈ (loadElf call memory).reads, ¬region.Inside call.elfSize := by
  have phoff := (ePhoff call memory).isLt
  have phnum := (ePhnum call memory).isLt
  have size := call.elfSize.isLt
  have running : (checks call memory).code = none := by
    have accepted : ¬call.elfSize.setWidth 64 < tableEnd call memory := by
      rw [BitVec.lt_def, BitVec.toNat_setWidth]
      omega
    dsimp only [checks]
    rw [if_neg (by omega), elf64, if_neg (by decide), if_neg accepted]
    rfl
  have unchanged : (checks call memory).memory = memory := by
    dsimp only [checks]
    split_ifs <;> rfl
  have round : Round call memory 0 := by
    refine ⟨running, ?_⟩
    change 0 < (ePhnum call (checks call memory).memory).toNat
    rw [unchanged]
    omega
  refine ⟨_, header_read call memory 0 round, ?_⟩
  have place := header_place call memory 0 (by decide) (by omega)
  rw [Region.Inside, place]
  dsimp only
  omega

/-- The loader stays inside the file exactly if no sum wraps around to its size and no store adds
a program header outside. -/
theorem stays_inside_iff : StaysInside call memory ↔ Unwrapped call memory := by
  constructor
  · intro stays
    have bound := call.elfSize.isLt
    have table : sizeofEhdr < call.elfSize.toNat → isElf64 call memory = true →
        (tableEnd call memory).toNat ≤ call.elfSize.toNat →
        (ePhoff call memory).toNat + (ePhnum call memory).toNat * 56 < 2 ^ 64 := by
      intro large elf64 inside
      by_contra wraps
      obtain ⟨region, member, outside⟩ :=
        wrapped_table_outside call memory large elf64 inside (by omega)
      exact outside (stays.reads region member)
    refine ⟨table, ?_, ?_⟩
    · intro i round data copied checked
      have whole : segmentEnd call (loadAt call memory i).memory (headerPlace call memory i) ≤
          call.elfSize.toNat := by
        rcases copied with copies | accepted
        · exact stays.reads _ (round_reads call memory i round
            (load_segment_data call _ _ data copies checked))
        · have passed := running_passed call memory i round.1
          exact stays.segments (none_refused_success call memory passed accepted) i round data
      omega
    · intro i round _
      obtain ⟨large, elf64, inside⟩ :=
        checks_passed call memory (running_passed call memory i round.1)
      have end_value := table_end call memory (table large elf64 inside)
      have few := round_bound call memory i round
      have place := header_place call memory i (by omega) (by omega)
      have type := stays.reads _ (header_read call memory i round)
      rw [Region.Inside] at type
      dsimp only at type
      unfold headerRead
      split_ifs with load
      · have member := round_reads call memory i round
          ((load_segment_begins call _ ((loadAt call memory i).read 56 2)).2 load
            ((mem_read _ _ _ _).mpr (Or.inr rfl)))
        have field := stays.reads _ member
        have offset : (40 : BitVec 64).toNat = 40 := rfl
        rw [Region.Inside, BitVec.toNat_add, offset] at field
        dsimp only at field
        omega
      · omega
  · intro unwrapped
    constructor
    · exact reads_inside call memory unwrapped (2 ^ 16)
    · intro success
      exact table_inside call memory unwrapped (success_passed call memory success)
    · intro success i round data
      have checked := success_none_refused call memory success i round data
      have accepted := success_none_refused call memory success
      rwa [checked_end call _ _ (unwrapped.data i round data (Or.inr accepted) checked)] at checked

/-- What the loader skips does not depend on the sums. -/
theorem skipped_inside_iff :
    ((loadElf call memory).code = some 0 →
        ∀ i, Round call memory i → SkipInside call memory i) ↔
      (NoneRefused call memory → ∀ i, Round call memory i → SkipInside call memory i) := by
  constructor
  · intro inside accepted i round
    have passed := running_passed call memory i round.1
    exact inside (none_refused_success call memory passed accepted) i round
  · intro inside success
    exact inside (success_none_refused call memory success)

end Rounds

/-- The loader stays inside the file exactly if no sum wraps around to its size and no store adds
a program header outside. For the segments that it skips to lie inside as well, they have to do
so in every file of which it refuses no segment. -/
theorem load_elf_stays_inside_iff (call : Call) (memory : AddressSpace) :
    (StaysInside call memory ↔ Unwrapped call memory) ∧
    ((StaysInside call memory ∧
        ((loadElf call memory).code = some 0 →
          ∀ i, Round call memory i → SkipInside call memory i)) ↔
      (Unwrapped call memory ∧
        (NoneRefused call memory → ∀ i, Round call memory i → SkipInside call memory i))) :=
  ⟨stays_inside_iff call memory,
    and_congr (stays_inside_iff call memory) (skipped_inside_iff call memory)⟩

/-- An ELF file of 120 bytes with one program header, 56 bytes in front of it. -/
def headerInFront : AddressSpace := fun place =>
  match (place - 0x10000).toNat with
  | 0 => 0x7F
  | 1 => 0x45
  | 2 => 0x4C
  | 3 => 0x46
  | 4 => 2
  | 32 => 0xC8
  | 33 | 34 | 35 | 36 | 37 | 38 | 39 => 0xFF
  | 56 => 1
  | _ => 0

theorem header_in_front_read :
    ¬StaysInside { targetBase := 0x80000000, elf := 0x10000, elfSize := 120 } headerInFront := by
  intro stays
  obtain ⟨region, member, outside⟩ := wrapped_table_outside
    { targetBase := 0x80000000, elf := 0x10000, elfSize := 120 } headerInFront (by decide)
    (by decide +kernel) (by decide +kernel) (by decide +kernel)
  exact outside (stays.reads region member)

end MinionSubsystem.ElfInMemory
