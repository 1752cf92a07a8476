import MinionSubsystem.PackedTable

/-!
# The window of a FAT volume

`sync_window` and `move_window` of `ff.c` over a drive whose accesses may fail. What a
sector holds is read through the window; the copies of the FAT are written behind it. The drive
carries out what it is asked for, as that of `bootstrap/sdcard/diskio.c` does.
-/

namespace MinionSubsystem.FatWindow

open MinionSubsystem.ByteMemory MinionSubsystem.PackedTable

set_option autoImplicit false

inductive FatType where
  | fat12
  | fat16
  | fat32
  deriving DecidableEq, Repr

def FatType.width : FatType → EntryWidth
  | .fat12 => .twelve
  | .fat16 => .sixteen
  | .fat32 => .twentyEight

def FatType.tableBytes : FatType → Nat → Nat
  | .fat12, count => count * 3 / 2 + count % 2
  | .fat16, count => count * 2
  | .fat32, count => count * 4

/-- The fields of `FATFS` that a mount sets and that stay, with what the checks of
`find_volume` leave of them. -/
structure Volume where
  fsType : FatType
  csize : Nat
  nFats : Nat
  nRootdir : Nat
  nFatent : Nat
  fsize : Nat
  volbase : Nat
  fatbase : Nat
  dirbase : Nat
  database : Nat
  csize_power : ∃ exponent, exponent < 8 ∧ csize = 2 ^ exponent
  one_or_two : nFats = 1 ∨ nFats = 2
  some_cluster : 2 < nFatent
  few_entries : nFatent + 9 ≤ 2 ^ fsType.width.bits
  table_fits : fsType.tableBytes nFatent ≤ 512 * fsize
  table_before_data : fatbase + nFats * fsize ≤ database
  last_sector : database + (nFatent - 2) * csize < 0xFFFFFFFF

inductive FResult where
  | frOk
  | frDiskErr
  | frIntErr
  | frNoFile
  | frDenied
  | frNoFilesystem
  deriving DecidableEq, Repr

/-- The sectors of a drive as one memory, and how the coming accesses end: one that
fails leaves some bytes in what it should have filled. -/
structure Drive where
  bytes : Memory
  faults : List (Option Memory)

def Drive.fault (d : Drive) : Option Memory := d.faults.headD none

def Drive.next (d : Drive) : Drive := { d with faults := d.faults.tail }

/-- Whether the access was done, what it filled the buffer with, and the drive behind it. -/
def diskRead (sector : Nat) (d : Drive) : Bool × Memory × Drive :=
  match d.fault with
  | none => (true, fun place => d.bytes (512 * sector + place), d.next)
  | some left => (false, left, d.next)

def diskWrite (buff : Memory) (sector count : Nat) (d : Drive) : Bool × Drive :=
  match d.fault with
  | none => (true, { d.next with bytes := storeBytes (512 * sector) (512 * count) buff d.bytes })
  | some left =>
      (false, { d.next with bytes := storeBytes (512 * sector) (512 * count) left d.bytes })

structure Fs where
  wflag : Bool
  fsiFlag : BitVec 8
  lastClust : Nat
  freeClust : Nat
  winsect : Nat
  win : Memory
  drive : Drive

def sub32 (left right : Nat) : Nat := (left + 0x100000000 - right) % 0x100000000

def noSector : Nat := 0xFFFFFFFF

variable (v : Volume)

def writeCopies : Nat → Nat → Fs → Fs
  | 0, _, fs => fs
  | nf + 1, wsect, fs =>
      let wsect := wsect + v.fsize
      writeCopies nf wsect { fs with drive := (diskWrite fs.win wsect 1 fs.drive).2 }

def syncWindow (fs : Fs) : FResult × Fs :=
  if fs.wflag then
    let written := diskWrite fs.win fs.winsect 1 fs.drive
    if written.1 then
      let fs := { fs with wflag := false, drive := written.2 }
      if sub32 fs.winsect v.fatbase < v.fsize then
        (.frOk, writeCopies v (v.nFats - 1) fs.winsect fs)
      else (.frOk, fs)
    else (.frDiskErr, { fs with drive := written.2 })
  else (.frOk, fs)

def moveWindow (sector : Nat) (fs : Fs) : FResult × Fs :=
  if sector = fs.winsect then (.frOk, fs)
  else
    let synced := syncWindow v fs
    if synced.1 = .frOk then
      let read := diskRead sector synced.2.drive
      let fs := { synced.2 with win := read.2.1, drive := read.2.2 }
      if read.1 then (.frOk, { fs with winsect := sector })
      else (.frDiskErr, { fs with winsect := noSector })
    else synced

def content (fs : Fs) : Memory := fun place =>
  if place / 512 = fs.winsect then fs.win (place % 512) else fs.drive.bytes place

def InCopy (sector : Nat) : Prop :=
  v.fatbase + v.fsize ≤ sector ∧ sector < v.fatbase + v.nFats * v.fsize

def Plain (place : Nat) : Prop := ¬InCopy v (place / 512) ∧ place / 512 < noSector

instance (sector : Nat) : Decidable (InCopy v sector) :=
  inferInstanceAs (Decidable
    (v.fatbase + v.fsize ≤ sector ∧ sector < v.fatbase + v.nFats * v.fsize))

instance (place : Nat) : Decidable (Plain v place) :=
  inferInstanceAs (Decidable (¬InCopy v (place / 512) ∧ place / 512 < noSector))

/-- A window that need not be written holds what is on the drive, and one that must be is
not over a copy. -/
structure Coherent (fs : Fs) : Prop where
  sector : fs.winsect ≤ noSector
  clean : fs.wflag = false → fs.winsect < noSector →
    ∀ place, place < 512 → fs.win place = fs.drive.bytes (512 * fs.winsect + place)
  own : fs.wflag = true → ¬InCopy v fs.winsect

def Drive.Reliable (d : Drive) : Prop := d.faults = []

def Mirrored (fs : Fs) : Prop :=
  ∀ copy place, copy < v.nFats → place < 512 * v.fsize →
    fs.drive.bytes (512 * (v.fatbase + copy * v.fsize) + place) =
      fs.drive.bytes (512 * v.fatbase + place)

structure Shows (fs fs' : Fs) : Prop where
  content : ∀ place, Plain v place → content fs' place = content fs place
  coherent : Coherent v fs'
  lastClust : fs'.lastClust = fs.lastClust
  freeClust : fs'.freeClust = fs.freeClust
  fsiFlag : fs'.fsiFlag = fs.fsiFlag
  reliable : fs.drive.Reliable → fs'.drive.Reliable
  mirrored : fs.drive.Reliable → Mirrored v fs → Mirrored v fs'

section Access

variable {v}

/-- A sector is compared with the FAT by an unsigned difference. -/
theorem sub_below_iff (sector : Nat) (bound : sector ≤ noSector) :
    sub32 sector v.fatbase < v.fsize ↔ v.fatbase ≤ sector ∧ sector < v.fatbase + v.fsize := by
  have top : noSector = 0xFFFFFFFF := rfl
  have last := v.last_sector
  have before := v.table_before_data
  have one : v.fsize ≤ v.nFats * v.fsize := by
    rcases v.one_or_two with count | count <;> rw [count] <;> omega
  rw [sub32]
  omega

theorem Drive.reliable_fault {d : Drive} (reliable : d.Reliable) : d.fault = none := by
  rw [Drive.fault, reliable]
  rfl

theorem Drive.reliable_next {d : Drive} (reliable : d.Reliable) : d.next.Reliable := by
  rw [Drive.Reliable, Drive.next, reliable]
  rfl

theorem disk_read_reliable {d : Drive} (reliable : d.Reliable) (sector : Nat) :
    diskRead sector d = (true, fun place => d.bytes (512 * sector + place), d.next) := by
  rw [diskRead, d.reliable_fault reliable]

theorem disk_write_reliable {d : Drive} (reliable : d.Reliable) (buff : Memory)
    (sector count : Nat) :
    diskWrite buff sector count d =
      (true, { d.next with bytes := storeBytes (512 * sector) (512 * count) buff d.bytes }) := by
  rw [diskWrite, d.reliable_fault reliable]

/-- A read leaves the drive's bytes, and fills the buffer with them if it is done. -/
theorem disk_read_cases (sector : Nat) (d : Drive) :
    (diskRead sector d).2.2 = d.next ∧
      ((diskRead sector d).1 = true →
        ∀ place, (diskRead sector d).2.1 place = d.bytes (512 * sector + place)) := by
  unfold diskRead
  split
  · exact ⟨rfl, fun _ _ => rfl⟩
  · exact ⟨rfl, fun done => absurd done Bool.false_ne_true⟩

/-- A write changes its own sectors only, and to the buffer if it is done. -/
theorem disk_write_cases (buff : Memory) (sector count : Nat) (d : Drive) :
    (diskWrite buff sector count d).2.faults = d.next.faults ∧
      (∀ place, place < 512 * sector ∨ 512 * sector + 512 * count ≤ place →
        (diskWrite buff sector count d).2.bytes place = d.bytes place) ∧
      ((diskWrite buff sector count d).1 = true → ∀ place, place < 512 * count →
        (diskWrite buff sector count d).2.bytes (512 * sector + place) = buff place) := by
  unfold diskWrite
  split
  · exact ⟨rfl, fun place outside => store_bytes_frame _ _ _ _ place outside,
      fun _ place inside => store_bytes_byte _ _ _ _ place inside⟩
  · exact ⟨rfl, fun place outside => store_bytes_frame _ _ _ _ place outside,
      fun done => absurd done Bool.false_ne_true⟩

theorem disk_write_drive_reliable {d : Drive} (reliable : d.Reliable) (buff : Memory)
    (sector count : Nat) : (diskWrite buff sector count d).2.Reliable := by
  rw [Drive.Reliable, (disk_write_cases buff sector count d).1]
  exact d.reliable_next reliable

end Access

section Copies

variable {v}

/-- There is at most one further copy. -/
theorem write_copies_cases (wsect : Nat) (fs : Fs) :
    writeCopies v (v.nFats - 1) wsect fs =
      if v.nFats = 2 then
        { fs with drive := (diskWrite fs.win (wsect + v.fsize) 1 fs.drive).2 }
      else fs := by
  rcases v.one_or_two with count | count <;> rw [count] <;> rfl

end Copies

section Sync

variable {v}

theorem write_other_sector (buff : Memory) (sector : Nat) (d : Drive) (place : Nat)
    (other : place / 512 ≠ sector) :
    (diskWrite buff sector 1 d).2.bytes place = d.bytes place :=
  (disk_write_cases buff sector 1 d).2.1 place (by omega)

theorem write_same_sector (buff : Memory) (sector : Nat) (d : Drive)
    (done : (diskWrite buff sector 1 d).1 = true) (place : Nat) (inside : place < 512) :
    (diskWrite buff sector 1 d).2.bytes (512 * sector + place) = buff place :=
  (disk_write_cases buff sector 1 d).2.2 done place (by omega)

/-- However the write of the window ends, the window hides the sector. -/
theorem flush_content (fs : Fs) (flag : Bool) (place : Nat) :
    content { fs with wflag := flag,
                      drive := (diskWrite fs.win fs.winsect 1 fs.drive).2 } place =
      content fs place := by
  unfold content
  split_ifs with here
  · rfl
  · exact write_other_sector fs.win fs.winsect fs.drive place here

theorem Shows.refl {fs : Fs} (coherent : Coherent v fs) : Shows v fs fs where
  content := fun _ _ => rfl
  coherent := coherent
  lastClust := rfl
  freeClust := rfl
  fsiFlag := rfl
  reliable := id
  mirrored := fun _ => id

theorem Shows.trans {first middle last : Fs} (one : Shows v first middle)
    (two : Shows v middle last) : Shows v first last where
  content := fun place plain => (two.content place plain).trans (one.content place plain)
  coherent := two.coherent
  lastClust := two.lastClust.trans one.lastClust
  freeClust := two.freeClust.trans one.freeClust
  fsiFlag := two.fsiFlag.trans one.fsiFlag
  reliable := fun reliable => two.reliable (one.reliable reliable)
  mirrored := fun reliable mirrored =>
    two.mirrored (one.reliable reliable) (one.mirrored reliable mirrored)

/-- A window outside the FAT is written to one sector. -/
theorem flush_shows {fs : Fs} (coherent : Coherent v fs) (dirty : fs.wflag = true)
    (done : (diskWrite fs.win fs.winsect 1 fs.drive).1 = true)
    (outside : ¬(v.fatbase ≤ fs.winsect ∧ fs.winsect < v.fatbase + v.fsize)) :
    Shows v fs { fs with wflag := false,
                         drive := (diskWrite fs.win fs.winsect 1 fs.drive).2 } where
  content := fun place _ => flush_content fs false place
  coherent :=
    { sector := coherent.sector
      clean := fun _ _ place inside => (write_same_sector _ _ _ done place inside).symm
      own := fun flag => absurd flag Bool.false_ne_true }
  lastClust := rfl
  freeClust := rfl
  fsiFlag := rfl
  reliable := fun reliable => disk_write_drive_reliable reliable _ _ _
  mirrored := by
    intro _ mirrored copy place inside bound
    have own := coherent.own dirty
    rw [InCopy] at own
    have far : (512 * (v.fatbase + copy * v.fsize) + place) / 512 ≠ fs.winsect := by
      rcases v.one_or_two with count | count <;> rw [count] at inside own <;>
        interval_cases copy <;> omega
    have near : (512 * v.fatbase + place) / 512 ≠ fs.winsect := by omega
    exact (write_other_sector _ _ _ _ far).trans
      ((mirrored copy place inside bound).trans (write_other_sector _ _ _ _ near).symm)

/-- A window of the FAT is written to the copy also, whatever comes of that. -/
theorem flush_copies_shows {fs : Fs} (coherent : Coherent v fs)
    (done : (diskWrite fs.win fs.winsect 1 fs.drive).1 = true)
    (inside : v.fatbase ≤ fs.winsect ∧ fs.winsect < v.fatbase + v.fsize) :
    Shows v fs (writeCopies v (v.nFats - 1) fs.winsect
      { fs with wflag := false, drive := (diskWrite fs.win fs.winsect 1 fs.drive).2 }) := by
  have first : ∀ place, place < 512 →
      (diskWrite fs.win fs.winsect 1 fs.drive).2.bytes (512 * fs.winsect + place) =
        fs.win place := write_same_sector _ _ _ done
  have last := v.last_sector
  have before := v.table_before_data
  have top : noSector = 0xFFFFFFFF := rfl
  rw [write_copies_cases]
  split_ifs with two
  · rw [two] at before
    have other : ∀ place, place / 512 ≠ fs.winsect + v.fsize →
        (diskWrite fs.win (fs.winsect + v.fsize) 1
          (diskWrite fs.win fs.winsect 1 fs.drive).2).2.bytes place =
        (diskWrite fs.win fs.winsect 1 fs.drive).2.bytes place :=
      fun place away => write_other_sector _ _ _ place away
    refine
      { content := ?_
        coherent := { sector := coherent.sector, clean := ?_, own := ?_ }
        lastClust := rfl, freeClust := rfl, fsiFlag := rfl
        reliable := fun reliable =>
          disk_write_drive_reliable (disk_write_drive_reliable reliable _ _ _) _ _ _
        mirrored := ?_ }
    · intro place plain
      rw [Plain, InCopy, two] at plain
      refine Eq.trans ?_ (flush_content fs false place)
      unfold content
      split_ifs
      · rfl
      · exact other place (by omega)
    · intro _ _ place bound
      exact ((other _ (by omega)).trans (first place bound)).symm
    · exact fun flag => absurd flag Bool.false_ne_true
    · intro reliable mirrored copy place small bound
      rw [two] at small
      have middle := disk_write_drive_reliable reliable fs.win fs.winsect 1
      have second : ∀ place, place < 512 →
          (diskWrite fs.win (fs.winsect + v.fsize) 1
            (diskWrite fs.win fs.winsect 1 fs.drive).2).2.bytes
            (512 * (fs.winsect + v.fsize) + place) = fs.win place := by
        apply write_same_sector
        rw [disk_write_reliable middle]
      have base : (diskWrite fs.win (fs.winsect + v.fsize) 1
          (diskWrite fs.win fs.winsect 1 fs.drive).2).2.bytes (512 * v.fatbase + place) =
          (diskWrite fs.win fs.winsect 1 fs.drive).2.bytes (512 * v.fatbase + place) :=
        other _ (by omega)
      interval_cases copy
      · rw [Nat.zero_mul, Nat.add_zero]
      · have copied := mirrored 1 place (by omega) bound
        rw [Nat.one_mul] at copied ⊢
        by_cases here : v.fatbase + place / 512 = fs.winsect
        · have far : 512 * (v.fatbase + v.fsize) + place =
              512 * (fs.winsect + v.fsize) + place % 512 := by omega
          have near : 512 * v.fatbase + place = 512 * fs.winsect + place % 512 := by omega
          exact (congrArg _ far).trans ((second _ (Nat.mod_lt _ (by decide))).trans
            (base.trans ((congrArg _ near).trans
              (first _ (Nat.mod_lt _ (by decide))))).symm)
        · have away : (512 * (v.fatbase + v.fsize) + place) / 512 ≠ fs.winsect + v.fsize := by
            omega
          have apart : (512 * (v.fatbase + v.fsize) + place) / 512 ≠ fs.winsect := by omega
          have distant : (512 * v.fatbase + place) / 512 ≠ fs.winsect := by omega
          exact (other _ away).trans ((write_other_sector _ _ _ _ apart).trans
            (copied.trans ((write_other_sector _ _ _ _ distant).symm.trans base.symm)))
  · exact
      { content := fun place _ => flush_content fs false place
        coherent :=
          { sector := coherent.sector
            clean := fun _ _ place bound => (first place bound).symm
            own := fun flag => absurd flag Bool.false_ne_true }
        lastClust := rfl
        freeClust := rfl
        fsiFlag := rfl
        reliable := fun reliable => disk_write_drive_reliable reliable _ _ _
        mirrored := by
          intro _ _ copy place small _
          have one : v.nFats = 1 := v.one_or_two.resolve_right two
          have zero : copy = 0 := by omega
          rw [zero, Nat.zero_mul, Nat.add_zero] }

structure Synced (v : Volume) (fs : Fs) (r : FResult × Fs) : Prop where
  shows : Shows v fs r.2
  result : r.1 = .frOk ∨ r.1 = .frDiskErr
  done : fs.drive.Reliable → r.1 = .frOk
  written : r.1 = .frOk → r.2.wflag = false
  winsect : r.2.winsect = fs.winsect

theorem sync_window_synced {fs : Fs} (coherent : Coherent v fs) :
    Synced v fs (syncWindow v fs) := by
  by_cases dirty : fs.wflag = true
  · rw [syncWindow, if_pos dirty]
    by_cases done : (diskWrite fs.win fs.winsect 1 fs.drive).1 = true
    · dsimp only
      rw [if_pos done]
      by_cases inside : sub32 fs.winsect v.fatbase < v.fsize
      · have reached := (sub_below_iff fs.winsect coherent.sector).mp inside
        rw [if_pos inside]
        refine ⟨flush_copies_shows coherent done reached, .inl rfl, fun _ => rfl, fun _ => ?_, ?_⟩
        all_goals
          rw [write_copies_cases]
          split_ifs <;> rfl
      · have outside : ¬(v.fatbase ≤ fs.winsect ∧ fs.winsect < v.fatbase + v.fsize) :=
          fun reached => inside ((sub_below_iff fs.winsect coherent.sector).mpr reached)
        rw [if_neg inside]
        exact ⟨flush_shows coherent dirty done outside, .inl rfl, fun _ => rfl, fun _ => rfl, rfl⟩
    · have failed : ¬fs.drive.Reliable := by
        intro reliable
        rw [disk_write_reliable reliable] at done
        exact done rfl
      dsimp only
      rw [if_neg done]
      exact
        { shows :=
            { content := fun place _ => flush_content fs fs.wflag place
              coherent :=
                { sector := coherent.sector
                  clean := fun flag => absurd (flag.symm.trans dirty) Bool.false_ne_true
                  own := coherent.own }
              lastClust := rfl
              freeClust := rfl
              fsiFlag := rfl
              reliable := fun reliable => disk_write_drive_reliable reliable _ _ _
              mirrored := fun reliable => absurd reliable failed }
          result := .inr rfl
          done := fun reliable => absurd reliable failed
          written := fun ok => FResult.noConfusion ok
          winsect := rfl }
  · rw [syncWindow, if_neg dirty]
    exact ⟨Shows.refl coherent, .inl rfl, fun _ => rfl, fun _ => by simpa using dirty, rfl⟩

end Sync

section Move

variable {v}

/-- Behind a window that is written the drive holds all there is. -/
theorem clean_content {fs : Fs} (coherent : Coherent v fs) (written : fs.wflag = false)
    (place : Nat) (plain : Plain v place) : content fs place = fs.drive.bytes place := by
  unfold content
  split_ifs with here
  · have split : 512 * fs.winsect + place % 512 = place := by omega
    have valid : fs.winsect < noSector := here ▸ plain.2
    rw [coherent.clean written valid _ (Nat.mod_lt _ (by decide)), split]
  · rfl

/-- A window that is written may be filled from any sector. -/
theorem refill_shows {fs : Fs} (coherent : Coherent v fs) (written : fs.wflag = false)
    (sector : Nat) (bound : sector < noSector)
    (done : (diskRead sector fs.drive).1 = true) :
    Shows v fs { fs with win := (diskRead sector fs.drive).2.1,
                         drive := (diskRead sector fs.drive).2.2, winsect := sector } := by
  obtain ⟨drive, filled⟩ := disk_read_cases sector fs.drive
  have bytes : (diskRead sector fs.drive).2.2.bytes = fs.drive.bytes := by
    rw [drive]
    rfl
  refine
    { content := ?_
      coherent := { sector := Nat.le_of_lt bound, clean := ?_, own := ?_ }
      lastClust := rfl, freeClust := rfl, fsiFlag := rfl, reliable := ?_, mirrored := ?_ }
  · intro place plain
    rw [clean_content coherent written place plain]
    simp only [content, bytes]
    split_ifs with here
    · have split : 512 * sector + place % 512 = place := by omega
      rw [filled done, split]
    · rfl
  · intro _ _ place _
    exact (filled done place).trans (congrFun bytes.symm _)
  · exact fun flag => absurd (flag.symm.trans written) (by decide)
  · intro reliable
    rw [drive]
    exact fs.drive.reliable_next reliable
  · intro _ mirrored copy place inside bound
    rw [bytes]
    exact mirrored copy place inside bound

/-- After a failed read the window holds nothing. -/
theorem drop_shows {fs : Fs} (coherent : Coherent v fs) (written : fs.wflag = false)
    (sector : Nat) (failed : (diskRead sector fs.drive).1 ≠ true) :
    Shows v fs { fs with win := (diskRead sector fs.drive).2.1,
                         drive := (diskRead sector fs.drive).2.2, winsect := noSector } := by
  have drive := (disk_read_cases sector fs.drive).1
  have bytes : (diskRead sector fs.drive).2.2.bytes = fs.drive.bytes := by
    rw [drive]
    rfl
  have unreliable : ¬fs.drive.Reliable := by
    intro reliable
    rw [disk_read_reliable reliable] at failed
    exact failed rfl
  refine
    { content := ?_
      coherent := { sector := Nat.le_refl _, clean := ?_, own := ?_ }
      lastClust := rfl, freeClust := rfl, fsiFlag := rfl
      reliable := fun reliable => absurd reliable unreliable
      mirrored := fun reliable => absurd reliable unreliable }
  · intro place plain
    rw [clean_content coherent written place plain, content, bytes,
      if_neg (Nat.ne_of_lt plain.2)]
  · exact fun _ valid => absurd valid (Nat.lt_irrefl _)
  · exact fun flag => absurd (flag.symm.trans written) (by decide)

structure Moved (v : Volume) (sector : Nat) (fs : Fs) (r : FResult × Fs) : Prop where
  shows : Shows v fs r.2
  result : r.1 = .frOk ∨ r.1 = .frDiskErr
  done : fs.drive.Reliable → r.1 = .frOk
  winsect : r.1 = .frOk → r.2.winsect = sector

theorem move_window_moved {fs : Fs} (coherent : Coherent v fs) (sector : Nat)
    (bound : sector < noSector) : Moved v sector fs (moveWindow v sector fs) := by
  by_cases here : sector = fs.winsect
  · rw [moveWindow, if_pos here]
    exact ⟨Shows.refl coherent, .inl rfl, fun _ => rfl, fun _ => here.symm⟩
  · have synced := sync_window_synced coherent
    rw [moveWindow, if_neg here]
    by_cases ok : (syncWindow v fs).1 = .frOk
    · have clean := synced.shows.coherent
      have written := synced.written ok
      dsimp only
      rw [if_pos ok]
      by_cases done : (diskRead sector (syncWindow v fs).2.drive).1 = true
      · rw [if_pos done]
        exact ⟨synced.shows.trans (refill_shows clean written sector bound done), .inl rfl,
          fun _ => rfl, fun _ => rfl⟩
      · have unreliable : ¬fs.drive.Reliable := by
          intro reliable
          rw [disk_read_reliable (synced.shows.reliable reliable)] at done
          exact done rfl
        rw [if_neg done]
        exact ⟨synced.shows.trans (drop_shows clean written sector done), .inr rfl,
          fun reliable => absurd reliable unreliable, fun failed => FResult.noConfusion failed⟩
    · dsimp only
      rw [if_neg ok]
      exact ⟨synced.shows, synced.result, fun reliable => absurd (synced.done reliable) ok,
        fun done => absurd done ok⟩

/-- What the window shows of its own sector. -/
theorem window_content (fs : Fs) (place : Nat) (inside : place < 512) :
    content fs (512 * fs.winsect + place) = fs.win place := by
  have here : (512 * fs.winsect + place) / 512 = fs.winsect := by omega
  have rest : (512 * fs.winsect + place) % 512 = place := by omega
  rw [content, if_pos here, rest]

end Move

end MinionSubsystem.FatWindow
