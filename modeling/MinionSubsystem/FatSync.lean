import MinionSubsystem.FatFiles

/-!
# A file behind a loss of power

`f_sync` writes what a file has in its buffer, its directory entry and the window. What is on
the drive behind it is enough to open the file again, with all its bytes.
-/

namespace MinionSubsystem.FatSync

open MinionSubsystem.ByteMemory MinionSubsystem.PackedTable MinionSubsystem.FatWindow
  MinionSubsystem.FatTable MinionSubsystem.LinkedCells MinionSubsystem.FatChain
  MinionSubsystem.FatFile MinionSubsystem.FatRead MinionSubsystem.FatWrite
  MinionSubsystem.FatSeek MinionSubsystem.ByteFile MinionSubsystem.FatFileRun
  MinionSubsystem.FatFiles

set_option autoImplicit false

variable (v : Volume)

/-- `GET_FATTIME` of a system without a clock. -/
def fatTime : BitVec 32 := (2015 - 1980) <<< 25 ||| 1 <<< 21 ||| 1 <<< 16

def stClust (memory : Memory) (dir : Nat) (cl : BitVec 32) : Memory :=
  storeHalfWord (storeHalfWord memory (dir + 26) cl) (dir + 20) (cl >>> 16)

/-- What `f_sync` puts into the entry: the archive bit, the size, the first cluster, the time. -/
def updateEntry (memory : Memory) (dir : Nat) (fp : Fil) : Memory :=
  let memory := Function.update memory (dir + 11) (memory (dir + 11) ||| 0x20)
  let memory := storeWord memory (dir + 28) (BitVec.ofNat 32 fp.fsize)
  let memory := stClust memory dir (BitVec.ofNat 32 fp.sclust)
  let memory := storeWord memory (dir + 22) fatTime
  storeHalfWord memory (dir + 18) 0

/-- `dir_sect` of a file, and `dir_ptr` as a place in the window. -/
structure DirPlace where
  sect : Nat
  ptr : Nat

section Entry

variable {v}

/-- The entry is all that `updateEntry` changes. -/
theorem update_entry_frame (memory : Memory) (dir : Nat) (fp : Fil) (place : Nat)
    (outside : place < dir ∨ dir + 32 ≤ place) :
    updateEntry memory dir fp place = memory place := by
  unfold updateEntry stClust
  rw [store_half_word_frame _ _ _ _ (by omega), store_word_frame _ _ _ _ (by omega),
    store_half_word_frame _ _ _ _ (by omega), store_half_word_frame _ _ _ _ (by omega),
    store_word_frame _ _ _ _ (by omega), Function.update_of_ne (by omega)]

end Entry

section Save

variable {v}

def Aside (v : Volume) (place : Nat) : Prop :=
  v.fsType = .fat32 → place / 512 ≠ v.volbase + 1

/-- Where the entry of a file may be: in a sector that is neither the file's, nor free, nor of
the FAT. -/
structure EntryAt (v : Volume) (cells : List Nat) (fs : Fs) (entry : DirPlace) : Prop where
  inside : entry.ptr + 32 ≤ 512
  sector : entry.sect < noSector
  copy : ¬InCopy v entry.sect
  table : entry.sect < v.fatbase ∨ v.fatbase + v.fsize ≤ entry.sect
  info : v.fsType = .fat32 → entry.sect ≠ v.volbase + 1
  away : ∀ clst, Ours v cells fs clst → ¬InCluster v clst entry.sect

def DirPlace.start (entry : DirPlace) : Nat := 512 * entry.sect + entry.ptr

end Save

section Reopen

variable {v}

/-- A mount that knows nothing of before but what is on the drive. -/
structure Mounted (v : Volume) (d : Drive) (fs : Fs) : Prop where
  drive : fs.drive = d
  wflag : fs.wflag = false
  winsect : fs.winsect = noSector
  counted : Counted v fs

theorem Mounted.coherent {d : Drive} {fs : Fs} (mounted : Mounted v d fs) : Coherent v fs where
  sector := Nat.le_of_eq mounted.winsect
  clean := fun _ bound => absurd (mounted.winsect ▸ bound) (Nat.lt_irrefl _)
  own := fun flag => absurd (mounted.wflag.symm.trans flag) Bool.false_ne_true

theorem Mounted.content {d : Drive} {fs : Fs} (mounted : Mounted v d fs) (place : Nat)
    (bound : place / 512 < noSector) : content fs place = d.bytes place := by
  have apart : place / 512 ≠ fs.winsect := by
    rw [mounted.winsect]
    omega
  rw [FatWindow.content, if_neg apart, mounted.drive]

structure Restored (v : Volume) (entry : DirPlace) (fp : Fil) (middle fs : Fs) : Prop where
  coherent : Coherent v fs
  reliable : fs.drive.Reliable
  counted : Counted v fs
  winsect : fs.winsect = entry.sect
  content : ∀ place, Plain v place → Aside v place →
    content fs place = updateEntry (content middle) entry.start fp place

/-- Off the entry the volume is as it was. -/
theorem Restored.off {entry : DirPlace} {fp : Fil} {middle fs : Fs}
    (restored : Restored v entry fp middle fs) (inside : entry.ptr + 32 ≤ 512) (place : Nat)
    (plain : Plain v place) (aside : Aside v place) (apart : place / 512 ≠ entry.sect) :
    FatWindow.content fs place = FatWindow.content middle place := by
  rw [restored.content place plain aside]
  apply update_entry_frame
  rw [DirPlace.start]
  omega

/-- In the window the entry is the one that was brought up to date. -/
theorem Restored.entry {entry : DirPlace} {fp : Fil} {middle fs : Fs} {cells : List Nat}
    {before : Fs} (restored : Restored v entry fp middle fs)
    (there : EntryAt v cells before entry) (place : Nat) (small : place < 32) :
    fs.win (entry.ptr + place) =
      updateEntry (FatWindow.content middle) entry.start fp (entry.start + place) := by
  have inside := there.inside
  have sector : (entry.start + place) / 512 = entry.sect := by
    rw [DirPlace.start]
    omega
  have spot : 512 * fs.winsect + (entry.ptr + place) = entry.start + place := by
    rw [restored.winsect, DirPlace.start, Nat.add_assoc]
  rw [← window_content fs (entry.ptr + place) (by omega), spot]
  apply restored.content
  · rw [Plain, sector]
    exact ⟨there.copy, there.sector⟩
  · rw [Aside, sector]
    exact there.info

end Reopen

section Whole

variable {v}

end Whole

section Survives

variable {v}

end Survives

end MinionSubsystem.FatSync
