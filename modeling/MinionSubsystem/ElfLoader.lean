import Mathlib.Data.List.Pairwise
import MinionSubsystem.ByteMemory

/-!
# Sections loaded over the debug tap

Loadable sections are written byte by byte. Every other section is cleared at its
address in words, up to three bytes past its end, whether it belongs in memory or
not. The loader cuts addresses and sizes to 32 bits. What is left of a loadable
section depends on the sections behind it.
-/

namespace MinionSubsystem.ElfLoader

open MinionSubsystem.ByteMemory

set_option autoImplicit false

/-- What the loader reads of a section: whether `SEC_LOAD` is set, its name, its address
and size as `bfd` has them, and its contents. -/
structure Section where
  load : Bool
  name : String
  vma : BitVec 64
  size : BitVec 64
  contents : BitVec 64 → BitVec 8

def Section.siz (s : Section) : BitVec 32 := s.size.setWidth 32

def Section.addr (s : Section) : BitVec 64 := (s.vma.setWidth 32).setWidth 64

structure Mismatch where
  address : BitVec 64
  written : BitVec 8
  read : BitVec 8

structure Target where
  memory : AddressSpace
  errors : List Mismatch

def tapWrite (addr : BitVec 64) (bytes : Nat) (ibuf : BitVec 64 → BitVec 8)
    (memory : AddressSpace) : AddressSpace := storeRange addr bytes ibuf memory

def tapRead (addr : BitVec 64) (memory : AddressSpace) (place : BitVec 64) : BitVec 8 :=
  memory (addr + place)

/-- The differences that `loadMemory` finds when it reads back. -/
def verify (addr : BitVec 64) (bufsz : Nat) (buf chk : BitVec 64 → BitVec 8) : List Mismatch :=
  (((List.range bufsz).map (BitVec.ofNat 64)).filter fun i => buf i ≠ chk i).map fun i =>
    { address := addr + i, written := buf i, read := chk i }

def loadMemory (verifyEna : Bool) (addr : BitVec 64) (buf : BitVec 64 → BitVec 8)
    (bufsz : BitVec 64) (target : Target) : Target × BitVec 64 :=
  let memory := tapWrite addr bufsz.toNat buf target.memory
  let found := if verifyEna then verify addr bufsz.toNat buf (tapRead addr memory) else []
  ({ memory := memory, errors := target.errors ++ found }, bufsz)

def initLoop (bufsz cnt : Nat) (addr : BitVec 64) (memory : AddressSpace) : AddressSpace :=
  if cnt < bufsz then
    initLoop bufsz (cnt + 4) (addr + 4) (tapWrite addr 4 (fun _ => 0) memory)
  else memory
  termination_by bufsz - cnt

/-- `none` where `cnt` wraps around in front of `bufsz`: the loop does not end. -/
def initMemory (addr bufsz : BitVec 64) (target : Target) : Option (Target × BitVec 64) :=
  if 2 ^ 64 - 4 < bufsz.toNat then none
  else some ({ target with memory := initLoop bufsz.toNat 0 addr target.memory }, bufsz)

def skipped (name : String) : Bool := name = ".sdata.CSWTCH.80" || name = ".sdata.Stat"

/-- `none` also where `contents[siz]` is an array of negative length. -/
def loadSection (verifyEna : Bool) (state : Target × BitVec 64) (s : Section) :
    Option (Target × BitVec 64) :=
  let (target, totalBytes) := state
  let siz := s.siz.signExtend 64
  let lma := s.addr
  let vma := s.addr
  if s.load then
    if lma ≠ vma then some (target, totalBytes)
    else if s.siz.msb then none
    else if !skipped s.name then
      let (target, loaded) := loadMemory verifyEna vma s.contents siz target
      some (target, totalBytes + loaded)
    else some (target, totalBytes)
  else
    (initMemory vma siz target).map fun (target, loaded) => (target, totalBytes + loaded)

def loadSections (verifyEna : Bool) (sections : List Section) (target : Target) :
    Option (Target × Int) :=
  (sections.foldlM (loadSection verifyEna) (target, 0)).map fun (target, totalBytes) =>
    (target, (totalBytes.setWidth 32).toInt)

def Section.Covers (s : Section) (place : BitVec 64) : Prop := place - s.vma < s.size

def Section.Stores (s : Section) (place : BitVec 64) : Prop :=
  s.load ∧ skipped s.name = false ∧ (place - s.addr).toNat < (s.siz.signExtend 64).toNat

/-- The place is in a word that `initMemory` clears for the section. -/
def Section.Clears (s : Section) (place : BitVec 64) : Prop :=
  s.load = false ∧ (place - s.addr).toNat < 4 * (((s.siz.signExtend 64).toNat + 3) / 4)

def Section.Writes (s : Section) (place : BitVec 64) : Prop := s.Stores place ∨ s.Clears place

instance (s : Section) (place : BitVec 64) : Decidable (s.Covers place) :=
  inferInstanceAs (Decidable (_ < _))

instance (s : Section) (place : BitVec 64) : Decidable (s.Stores place) :=
  inferInstanceAs (Decidable (_ ∧ _))

instance (s : Section) (place : BitVec 64) : Decidable (s.Clears place) :=
  inferInstanceAs (Decidable (_ ∧ _))

instance (s : Section) (place : BitVec 64) : Decidable (s.Writes place) :=
  inferInstanceAs (Decidable (_ ∨ _))

def Section.byteAt (s : Section) (place : BitVec 64) : BitVec 8 :=
  if s.load then s.contents (place - s.addr) else 0

/-- The size of the section is one the loader gets through: not negative, or one for which the
loop of `initMemory` ends. -/
def Section.Passable (s : Section) : Prop :=
  if s.load then s.siz.msb = false else (s.siz.signExtend 64).toNat ≤ 2 ^ 64 - 4

structure Section.Narrow (s : Section) : Prop where
  vma : s.vma.toNat < 2 ^ 32
  size : s.size.toNat < 2 ^ 31

/-- The sections of a file, in its order. No two loadable sections share an address. -/
structure ElfFile where
  sections : List Section
  disjoint : sections.Pairwise fun s t => s.load → t.load → ∀ place,
    ¬(s.Covers place ∧ t.Covers place)

/-- The loader comes to an end, and every loadable section is in memory. -/
def Loaded (file : ElfFile) (result : Option (Target × Int)) : Prop :=
  ∃ target total, result = some (target, total) ∧
    ∀ s ∈ file.sections, s.load → ∀ offset, offset < s.size →
      target.memory (s.vma + offset) = s.contents offset

/-- `byte` is what the last section that is written at the place has there, and what was there
before if no section is. -/
structure LastAt (sections : List Section) (memory : AddressSpace) (place : BitVec 64)
    (byte : BitVec 8) : Prop where
  written : ∀ earlier t later, sections = earlier ++ t :: later → t.Writes place →
    (∀ u ∈ later, ¬u.Writes place) → t.byteAt place = byte
  unwritten : (∀ t ∈ sections, ¬t.Writes place) → memory place = byte

/-- The words from `addr` on are cleared, the last one whole. -/
theorem init_loop_memory (bufsz cnt : Nat) (addr : BitVec 64) (memory : AddressSpace)
    (place : BitVec 64) (bound : 4 * ((bufsz - cnt + 3) / 4) ≤ 2 ^ 64) :
    initLoop bufsz cnt addr memory place =
      if (place - addr).toNat < 4 * ((bufsz - cnt + 3) / 4) then 0 else memory place := by
  induction cnt, addr, memory using initLoop.induct bufsz with
  | case1 cnt addr memory more ih =>
      have words : (bufsz - cnt + 3) / 4 = (bufsz - (cnt + 4) + 3) / 4 + 1 := by omega
      have next : (place - (addr + 4)).toNat = (2 ^ 64 - 4 + (place - addr).toNat) % 2 ^ 64 := by
        rw [← BitVec.sub_sub, BitVec.toNat_sub]
        rfl
      have inside := (place - addr).isLt
      rw [initLoop, if_pos more, ih (by omega), words, next]
      by_cases first : (place - addr).toNat < 4
      · have cleared : tapWrite addr 4 (fun _ => 0) memory place = 0 := if_pos first
        rw [if_neg (by omega), if_pos (by omega), cleared]
      · have kept : tapWrite addr 4 (fun _ => 0) memory place = memory place := if_neg first
        rw [kept]
        split_ifs <;> first | rfl | omega
  | case2 cnt addr memory done =>
      rw [initLoop, if_neg done, if_neg (by omega)]

/-- The loader gets through a passable section, and writes what belongs to it. -/
theorem load_section_written (verifyEna : Bool) (state : Target × BitVec 64) (s : Section)
    (passable : s.Passable) :
    ∃ next, loadSection verifyEna state s = some next ∧ ∀ place,
      next.1.memory place = if s.Writes place then s.byteAt place else state.1.memory place := by
  obtain ⟨target, totalBytes⟩ := state
  cases loadable : s.load with
  | false =>
      rw [Section.Passable, loadable, if_neg Bool.false_ne_true] at passable
      have written : ∀ place, s.Writes place ↔
          (place - s.addr).toNat < 4 * (((s.siz.signExtend 64).toNat + 3) / 4) := by
        intro place
        rw [Section.Writes, Section.Stores, Section.Clears, loadable]
        simp
      simp only [loadSection, loadable, Bool.false_eq_true, if_false, initMemory,
        if_neg (Nat.not_lt_of_le passable), Option.map_some]
      refine ⟨_, rfl, fun place => ?_⟩
      dsimp only
      rw [init_loop_memory _ _ _ _ _ (by omega), Nat.sub_zero, Section.byteAt, loadable]
      simp only [written, Bool.false_eq_true, if_false]
  | true =>
      rw [Section.Passable, loadable, if_pos rfl] at passable
      cases kept : skipped s.name with
      | true =>
          have unwritten : ∀ place, ¬s.Writes place := by
            intro place
            rw [Section.Writes, Section.Stores, Section.Clears, loadable, kept]
            simp
          simp only [loadSection, loadable, if_true, ne_eq, not_true_eq_false, if_false, passable,
            Bool.false_eq_true, kept, Bool.not_true]
          exact ⟨_, rfl, fun place => (if_neg (unwritten place)).symm⟩
      | false =>
          have written : ∀ place, s.Writes place ↔
              (place - s.addr).toNat < (s.siz.signExtend 64).toNat := by
            intro place
            rw [Section.Writes, Section.Stores, Section.Clears, loadable, kept]
            simp
          simp only [loadSection, loadable, if_true, ne_eq, not_true_eq_false, if_false, passable,
            Bool.false_eq_true, kept, Bool.not_false, loadMemory]
          refine ⟨_, rfl, fun place => ?_⟩
          simp only [written, Section.byteAt, loadable, if_true]
          rfl

theorem load_section_stuck (verifyEna : Bool) (state : Target × BitVec 64) (s : Section)
    (stuck : ¬s.Passable) : loadSection verifyEna state s = none := by
  obtain ⟨target, totalBytes⟩ := state
  cases loadable : s.load with
  | false =>
      rw [Section.Passable, loadable, if_neg Bool.false_ne_true] at stuck
      simp only [loadSection, loadable, Bool.false_eq_true, if_false, initMemory,
        if_pos (Nat.lt_of_not_le stuck), Option.map_none]
  | true =>
      rw [Section.Passable, loadable, if_pos rfl, Bool.not_eq_false] at stuck
      simp only [loadSection, loadable, if_true, ne_eq, not_true_eq_false, if_false, stuck]

theorem run_stuck (verifyEna : Bool) (sections : List Section) (state : Target × BitVec 64)
    (stuck : ∃ s ∈ sections, ¬s.Passable) :
    sections.foldlM (loadSection verifyEna) state = none := by
  induction sections generalizing state with
  | nil =>
      obtain ⟨s, member, _⟩ := stuck
      exact absurd member List.not_mem_nil
  | cons s rest ih =>
      rw [List.foldlM_cons]
      by_cases passable : s.Passable
      · obtain ⟨next, passed, _⟩ := load_section_written verifyEna state s passable
        rw [passed]
        apply ih next
        obtain ⟨t, member, other⟩ := stuck
        rcases List.mem_cons.mp member with rfl | later
        · exact absurd passable other
        · exact ⟨t, later, other⟩
      · rw [load_section_stuck verifyEna state s passable]
        rfl

/-- What is left at a place is what was written there last. -/
theorem run_last (verifyEna : Bool) (sections : List Section) (state : Target × BitVec 64)
    (passable : ∀ s ∈ sections, s.Passable) :
    ∃ last, sections.foldlM (loadSection verifyEna) state = some last ∧
      ∀ place, LastAt sections state.1.memory place (last.1.memory place) := by
  induction sections generalizing state with
  | nil =>
      refine ⟨state, rfl, fun place => ⟨fun earlier t later split => ?_, fun _ => rfl⟩⟩
      exact absurd split (by simp)
  | cons s rest ih =>
      obtain ⟨next, passed, stored⟩ :=
        load_section_written verifyEna state s (passable s List.mem_cons_self)
      obtain ⟨last, run, left⟩ := ih next fun t member => passable t (List.mem_cons_of_mem s member)
      refine ⟨last, ?_, fun place =>
        ⟨fun earlier t later split writes others => ?_, fun none => ?_⟩⟩
      · rw [List.foldlM_cons, passed]
        exact run
      · cases earlier with
        | nil =>
            obtain ⟨rfl, rfl⟩ := List.cons.inj split
            have byte := (left place).unwritten others
            rw [stored, if_pos writes] at byte
            exact byte
        | cons first earlier =>
            obtain ⟨_, split⟩ := List.cons.inj split
            exact (left place).written earlier t later split writes others
      · have byte := (left place).unwritten fun t member => none t (List.mem_cons_of_mem s member)
        rw [stored, if_neg (none s List.mem_cons_self)] at byte
        exact byte

theorem exists_last {sections : List Section} {place : BitVec 64}
    (some_writer : ∃ t ∈ sections, t.Writes place) :
    ∃ earlier t later, sections = earlier ++ t :: later ∧ t.Writes place ∧
      ∀ u ∈ later, ¬u.Writes place := by
  induction sections with
  | nil =>
      obtain ⟨t, member, _⟩ := some_writer
      exact absurd member List.not_mem_nil
  | cons s rest ih =>
      by_cases behind : ∃ t ∈ rest, t.Writes place
      · obtain ⟨earlier, t, later, split, writes, others⟩ := ih behind
        exact ⟨s :: earlier, t, later, congrArg (s :: ·) split, writes, others⟩
      · obtain ⟨t, member, writes⟩ := some_writer
        rcases List.mem_cons.mp member with rfl | inside
        · exact ⟨[], t, rest, rfl, writes, fun u mem other => behind ⟨u, mem, other⟩⟩
        · exact absurd ⟨t, inside, writes⟩ behind

theorem last_at_unique {sections : List Section} {memory : AddressSpace} {place : BitVec 64}
    {left right : BitVec 8} (one : LastAt sections memory place left)
    (other : LastAt sections memory place right) : left = right := by
  by_cases some_writer : ∃ t ∈ sections, t.Writes place
  · obtain ⟨earlier, t, later, split, writes, others⟩ := exists_last some_writer
    exact (one.written earlier t later split writes others).symm.trans
      (other.written earlier t later split writes others)
  · have none : ∀ t ∈ sections, ¬t.Writes place :=
      fun t member writes => some_writer ⟨t, member, writes⟩
    exact (one.unwritten none).symm.trans (other.unwritten none)

/-- Every byte of a loadable section is the last one written at its address. -/
structure LastRight (file : ElfFile) (memory : AddressSpace) : Prop where
  passable : ∀ s ∈ file.sections, s.Passable
  bytes : ∀ s ∈ file.sections, s.load → ∀ offset, offset < s.size →
    LastAt file.sections memory (s.vma + offset) (s.contents offset)

theorem loaded_iff_last_right (verifyEna : Bool) (file : ElfFile) (target : Target) :
    Loaded file (loadSections verifyEna file.sections target) ↔ LastRight file target.memory := by
  constructor
  · rintro ⟨last, total, result, loaded⟩
    rw [loadSections, Option.map_eq_some_iff] at result
    obtain ⟨final, run, same⟩ := result
    have passable : ∀ s ∈ file.sections, s.Passable := by
      by_contra stuck
      simp only [not_forall] at stuck
      obtain ⟨s, member, other⟩ := stuck
      rw [run_stuck verifyEna file.sections (target, 0) ⟨s, member, other⟩] at run
      exact absurd run (by simp)
    refine ⟨passable, fun s member loadable offset inside => ?_⟩
    obtain ⟨again, ran, left⟩ := run_last verifyEna file.sections (target, 0) passable
    have state : again = final := Option.some.inj (ran.symm.trans run)
    have memory : again.1 = last := state ▸ congrArg Prod.fst same
    have byte := left (s.vma + offset)
    rw [memory, loaded s member loadable offset inside] at byte
    exact byte
  · intro right
    obtain ⟨last, run, left⟩ := run_last verifyEna file.sections (target, 0) right.passable
    refine ⟨last.1, (last.2.setWidth 32).toInt, ?_, fun s member loadable offset inside => ?_⟩
    · rw [loadSections, run]
      rfl
    · exact last_at_unique (left (s.vma + offset))
        (right.bytes s member loadable offset inside)

section Narrow

variable {s t : Section}

theorem narrow_addr (narrow : s.Narrow) : s.addr = s.vma := by
  have bound := narrow.vma
  apply BitVec.eq_of_toNat_eq
  rw [Section.addr, BitVec.toNat_setWidth, BitVec.toNat_setWidth]
  omega

theorem narrow_siz (narrow : s.Narrow) :
    s.siz.msb = false ∧ (s.siz.signExtend 64).toNat = s.size.toNat := by
  have bound := narrow.size
  have number : s.siz.toNat = s.size.toNat := by
    rw [Section.siz, BitVec.toNat_setWidth]
    omega
  have positive : s.siz.msb = false := by
    rw [BitVec.msb_eq_false_iff_two_mul_lt, number]
    omega
  refine ⟨positive, ?_⟩
  rw [BitVec.signExtend_eq_setWidth_of_msb_false positive, BitVec.toNat_setWidth, number]
  omega

theorem narrow_passable (narrow : s.Narrow) : s.Passable := by
  have bound := narrow.size
  obtain ⟨positive, number⟩ := narrow_siz narrow
  rw [Section.Passable]
  split_ifs
  · exact positive
  · omega

theorem narrow_stores (narrow : s.Narrow) (loadable : s.load) (kept : skipped s.name = false)
    {offset : BitVec 64} (inside : offset < s.size) :
    s.Stores (s.vma + offset) ∧ s.byteAt (s.vma + offset) = s.contents offset := by
  have distance : s.vma + offset - s.addr = offset := by
    rw [narrow_addr narrow, BitVec.add_comm, BitVec.add_sub_cancel]
  rw [Section.Stores, Section.byteAt, if_pos loadable, distance, (narrow_siz narrow).2]
  exact ⟨⟨loadable, kept, inside⟩, rfl⟩

theorem covers_own {offset : BitVec 64} (inside : offset < s.size) :
    s.Covers (s.vma + offset) := by
  rw [Section.Covers, BitVec.add_comm, BitVec.add_sub_cancel]
  exact inside

/-- Only the loadable section itself is stored at its addresses. -/
theorem stores_itself (file : ElfFile) (narrow : ∀ u ∈ file.sections, u.Narrow)
    (s_listed : s ∈ file.sections) (t_listed : t ∈ file.sections) (loadable : s.load)
    {offset : BitVec 64} (inside : offset < s.size) (stores : t.Stores (s.vma + offset)) :
    t = s := by
  obtain ⟨load, _, stored⟩ := stores
  rw [narrow_addr (narrow t t_listed), (narrow_siz (narrow t t_listed)).2] at stored
  have symmetric : Std.Symm fun s t : Section => s.load → t.load → ∀ place,
      ¬(s.Covers place ∧ t.Covers place) :=
    ⟨fun _ _ disjoint second first place both => disjoint first second place both.symm⟩
  by_contra other
  have apart := file.disjoint.forall s_listed t_listed (Ne.symm other)
  exact apart loadable load _ ⟨covers_own inside, stored⟩

/-- At the addresses of a skipped section nothing is stored, only cleared. -/
theorem skipped_cleared (file : ElfFile) (narrow : ∀ u ∈ file.sections, u.Narrow)
    (s_listed : s ∈ file.sections) (t_listed : t ∈ file.sections) (loadable : s.load)
    (kept : skipped s.name) {offset : BitVec 64} (inside : offset < s.size)
    (writes : t.Writes (s.vma + offset)) : t.Clears (s.vma + offset) := by
  refine writes.resolve_left fun stores => ?_
  rw [stores_itself file narrow s_listed t_listed loadable inside stores] at stores
  exact Bool.false_ne_true (stores.2.1.symm.trans kept)

end Narrow

/-- A section that is written has only zeros where a section behind it clears, and one that is
skipped has zeros where some section clears and else the bytes that were in memory before. -/
def Undisturbed (file : ElfFile) (memory : AddressSpace) : Prop :=
  ∀ before s after, file.sections = before ++ s :: after → s.load →
    ∀ offset, offset < s.size →
      if skipped s.name then
        ((∃ t ∈ file.sections, t.Clears (s.vma + offset)) → s.contents offset = 0) ∧
          ((¬∃ t ∈ file.sections, t.Clears (s.vma + offset)) →
            s.contents offset = memory (s.vma + offset))
      else ∀ t ∈ after, t.Clears (s.vma + offset) → s.contents offset = 0

theorem clears_zero {t : Section} {place : BitVec 64} (clears : t.Clears place) :
    t.byteAt place = 0 := by
  rw [Section.byteAt, clears.1, if_neg Bool.false_ne_true]

theorem undisturbed_of_last_right (file : ElfFile) (memory : AddressSpace)
    (narrow : ∀ u ∈ file.sections, u.Narrow) (right : LastRight file memory) :
    Undisturbed file memory := by
  intro before s after split loadable offset inside
  have listed : s ∈ file.sections := split ▸ List.mem_append_right before List.mem_cons_self
  have last := right.bytes s listed loadable offset inside
  by_cases kept : skipped s.name
  · rw [if_pos kept]
    have cleared : ∀ t ∈ file.sections, t.Writes (s.vma + offset) → t.Clears (s.vma + offset) :=
      fun t member => skipped_cleared file narrow listed member loadable kept inside
    constructor
    · rintro ⟨t, member, clears⟩
      obtain ⟨earlier, u, later, cut, writes, others⟩ := exists_last ⟨t, member, .inr clears⟩
      have zero := clears_zero (cleared u (cut ▸ by simp) writes)
      exact (last.written earlier u later cut writes others).symm.trans zero
    · intro none
      exact (last.unwritten fun t member writes => none ⟨t, member, cleared t member writes⟩).symm
  · rw [if_neg kept]
    intro t member clears
    obtain ⟨earlier, u, later, cut, writes, others⟩ := exists_last ⟨t, member, .inr clears⟩
    have whole : file.sections = (before ++ s :: earlier) ++ u :: later := by
      rw [split, cut, List.append_assoc, List.cons_append]
    have behind : u ∈ after := cut ▸ by simp
    have unstored : ¬u.Stores (s.vma + offset) := by
      intro stores
      have disjoint := file.disjoint
      rw [split, List.pairwise_append] at disjoint
      have apart := (List.pairwise_cons.mp disjoint.2.1).1 u behind loadable stores.1
      have u_listed : u ∈ file.sections := whole ▸ by simp
      have same := stores_itself file narrow listed u_listed loadable inside stores
      rw [same] at apart
      exact apart _ ⟨covers_own inside, covers_own inside⟩
    have zero := clears_zero (writes.resolve_left unstored)
    exact (last.written _ u later whole writes others).symm.trans zero

theorem last_right_of_undisturbed (file : ElfFile) (memory : AddressSpace)
    (narrow : ∀ u ∈ file.sections, u.Narrow) (undisturbed : Undisturbed file memory) :
    LastRight file memory := by
  refine ⟨fun s member => narrow_passable (narrow s member), ?_⟩
  intro s listed loadable offset inside
  obtain ⟨before, after, split⟩ := List.append_of_mem listed
  have byte := undisturbed before s after split loadable offset inside
  by_cases kept : skipped s.name
  · rw [if_pos kept] at byte
    refine ⟨fun earlier t later cut writes others => ?_, fun none => ?_⟩
    · have member : t ∈ file.sections := cut ▸ by simp
      have clears := skipped_cleared file narrow listed member loadable kept inside writes
      exact (clears_zero clears).trans (byte.1 ⟨t, member, clears⟩).symm
    · exact (byte.2 fun ⟨t, member, clears⟩ => none t member (.inr clears)).symm
  · rw [Bool.not_eq_true] at kept
    obtain ⟨stored, own⟩ := narrow_stores (narrow s listed) loadable kept inside
    refine ⟨fun earlier t later cut writes others => ?_, fun none => ?_⟩
    · have member : t ∈ file.sections := cut ▸ by simp
      rcases writes with stores | clears
      · rw [stores_itself file narrow listed member loadable inside stores]
        exact own
      · -- the section lies in front of the one that clears last
        have different : s ≠ t := by
          intro same
          rw [same, clears.1] at loadable
          exact Bool.false_ne_true loadable
        have first : s ∈ earlier := by
          have somewhere : s ∈ earlier ++ t :: later := cut ▸ listed
          rcases List.mem_append.mp somewhere with front | back
          · exact front
          · rcases List.mem_cons.mp back with same | behind
            · exact absurd same different
            · exact absurd (.inl stored) (others s behind)
        obtain ⟨front, between, cut_front⟩ := List.append_of_mem first
        have whole : file.sections = front ++ s :: (between ++ t :: later) := by
          rw [cut, cut_front, List.append_assoc, List.cons_append]
        have zero := undisturbed front s _ whole loadable offset inside
        rw [if_neg (by rw [kept]; decide)] at zero
        exact (clears_zero clears).trans (zero t (by simp) clears).symm
    · exact absurd (.inl stored) (none s listed)

/-- All loadable sections are in memory if and only if every byte of them is the one that was
written last at its address. Where addresses and sizes are not cut, that is: a section that is
written has only zeros where a section behind it clears, and one that is skipped has zeros where
some section clears and else the bytes that were in memory before. -/
theorem sections_loaded_iff (verifyEna : Bool) (file : ElfFile) (target : Target) :
    (Loaded file (loadSections verifyEna file.sections target) ↔
        LastRight file target.memory) ∧
      ((∀ s ∈ file.sections, s.Narrow) →
        (Loaded file (loadSections verifyEna file.sections target) ↔
          Undisturbed file target.memory)) := by
  have right := loaded_iff_last_right verifyEna file target
  refine ⟨right, fun narrow => right.trans ⟨?_, ?_⟩⟩
  · exact undisturbed_of_last_right file target.memory narrow
  · exact last_right_of_undisturbed file target.memory narrow

def textSection : Section where
  load := true
  name := ".text"
  vma := 0
  size := 1
  contents := fun _ => 0x13

/-- A section that occupies no memory; its address is 0. -/
def commentSection : Section where
  load := false
  name := ".comment"
  vma := 0
  size := 17
  contents := fun _ => 0

/-- Clearing the comment clears the program. -/
theorem comment_clears_text : ∃ file : ElfFile, file.sections = [textSection, commentSection] ∧
    ∀ verifyEna target, ¬Loaded file (loadSections verifyEna file.sections target) := by
  have disjoint : [textSection, commentSection].Pairwise fun s t => s.load → t.load →
      ∀ place, ¬(s.Covers place ∧ t.Covers place) := by
    refine List.pairwise_cons.mpr ⟨fun t mem _ load => ?_, List.pairwise_singleton _ _⟩
    rw [List.mem_singleton.mp mem] at load
    cases load
  let file : ElfFile := { sections := [textSection, commentSection], disjoint := disjoint }
  refine ⟨file, rfl, fun verifyEna target loaded => ?_⟩
  have right := (loaded_iff_last_right verifyEna file target).mp loaded
  have byte := (right.bytes textSection List.mem_cons_self rfl 0 (by decide)).written
    [textSection] commentSection [] rfl (by decide) (fun u mem => absurd mem List.not_mem_nil)
  exact absurd byte (by decide)

end MinionSubsystem.ElfLoader
