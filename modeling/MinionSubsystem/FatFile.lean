import MinionSubsystem.FatChain

/-!
# Files on a FAT volume

`f_read`, `f_write`, `f_lseek` and `f_truncate` of `ff.c`, with the sector buffer of an open
file. The bytes of a file are where its chain of clusters puts them, or in the buffer.
-/

namespace MinionSubsystem.FatFile

open MinionSubsystem.ByteMemory MinionSubsystem.FatWindow MinionSubsystem.FatTable
  MinionSubsystem.LinkedCells MinionSubsystem.FatChain

set_option autoImplicit false

/-- The fields of `FIL`; `fa` names are the bits of `flag`. -/
structure Fil where
  faRead : Bool
  faWrite : Bool
  faDirty : Bool
  faWritten : Bool
  err : FResult
  fptr : Nat
  fsize : Nat
  sclust : Nat
  clust : Nat
  dsect : Nat
  buf : Memory

variable (v : Volume)

def csectOf (fp : Fil) : Nat := (fp.fptr / 512 &&& (v.csize - 1)) % 256

/-- The caller's buffer, the counts and the file, as they are in a round of the loops. -/
structure Transfer where
  buff : Memory
  count : Nat
  left : Nat
  fp : Fil
  fs : Fs

def Transfer.advance (t : Transfer) (count : Nat) : Transfer :=
  { t with count := t.count + count, left := t.left - count,
           fp := { t.fp with fptr := t.fp.fptr + count } }

/-- How a round ends: the loop goes on, or is left with `break` or with `ABORT`. -/
inductive Round where
  | goes (t : Transfer)
  | stops (t : Transfer)
  | aborts (res : FResult) (t : Transfer)
  | hangs

def abort (res : FResult) (t : Transfer) : Round :=
  .aborts res { t with fp := { t.fp with err := res } }

def transferLoop (round : Transfer → Round) : Nat → Transfer → Option (FResult × Transfer)
  | 0, t => if t.left = 0 then some (.frOk, t) else none
  | fuel + 1, t =>
      if t.left = 0 then some (.frOk, t)
      else
        match round t with
        | .goes t => transferLoop round fuel t
        | .stops t => some (.frOk, t)
        | .aborts res t => some (res, t)
        | .hangs => none

def flushBuf (fp : Fil) (fs : Fs) : FResult × Fil × Fs :=
  if fp.faDirty then
    let written := diskWrite fp.buf fp.dsect 1 fs.drive
    if written.1 then (.frOk, { fp with faDirty := false }, { fs with drive := written.2 })
    else (.frDiskErr, fp, { fs with drive := written.2 })
  else (.frOk, fp, fs)

def fillBuf (sect : Nat) (fp : Fil) (fs : Fs) : FResult × Fil × Fs :=
  let read := diskRead sect fs.drive
  (if read.1 then .frOk else .frDiskErr, { fp with buf := read.2.1 },
    { fs with drive := read.2.2 })

def enterRead (fp : Fil) (fs : Fs) : FResult × Fil × Fs :=
  if csectOf v fp = 0 then
    let next := if fp.fptr = 0 then (fp.sclust, fs) else getFat v fp.clust fs
    if next.1 < 2 then (.frIntErr, fp, next.2)
    else if next.1 = diskError then (.frDiskErr, fp, next.2)
    else (.frOk, { fp with clust := next.1 }, next.2)
  else (.frOk, fp, fs)

def clipped (csect left : Nat) : Nat :=
  let cc := left / 512
  if v.csize < csect + cc then v.csize - csect else cc

/-- A dirty buffer replaces the sector that was read from the disk. -/
def overlay (sect cc : Nat) (t : Transfer) : Transfer :=
  if t.fp.faDirty ∧ sub32 t.fp.dsect sect < cc then
    { t with buff := storeBytes (t.count + sub32 t.fp.dsect sect * 512) 512 t.fp.buf t.buff }
  else t

def directRead (sect cc : Nat) (t : Transfer) : Round :=
  let read := diskRead sect t.fs.drive
  let t := { t with buff := storeBytes t.count (512 * cc) read.2.1 t.buff,
                    fs := { t.fs with drive := read.2.2 } }
  if read.1 then .goes ((overlay sect cc t).advance (512 * cc)) else abort .frDiskErr t

def loadBuf (sect : Nat) (fp : Fil) (fs : Fs) : FResult × Fil × Fs :=
  if fp.dsect ≠ sect then
    let flushed := flushBuf fp fs
    if flushed.1 = .frOk then fillBuf sect flushed.2.1 flushed.2.2 else flushed
  else (.frOk, fp, fs)

def partCount (t : Transfer) : Nat :=
  let count := 512 - t.fp.fptr % 512
  if t.left < count then t.left else count

def partialRead (t : Transfer) : Round :=
  let picked : Memory := fun place => t.fp.buf (t.fp.fptr % 512 + place)
  .goes ({ t with buff := storeBytes t.count (partCount t) picked t.buff }.advance (partCount t))

def readRound (t : Transfer) : Round :=
  if t.fp.fptr % 512 = 0 then
    let entered := enterRead v t.fp t.fs
    let t := { t with fp := entered.2.1, fs := entered.2.2 }
    if entered.1 = .frOk then
      let sect := clust2sect v t.fp.clust
      if sect = 0 then abort .frIntErr t
      else
        let csect := csectOf v t.fp
        let sect := sect + csect
        if t.left / 512 ≠ 0 then directRead sect (clipped v csect t.left) t
        else
          let loaded := loadBuf sect t.fp t.fs
          let t := { t with fp := loaded.2.1, fs := loaded.2.2 }
          if loaded.1 = .frOk then partialRead { t with fp := { t.fp with dsect := sect } }
          else abort loaded.1 t
    else abort entered.1 t
  else partialRead t

def fRead (fp : Fil) (buff : Memory) (btr : Nat) (fs : Fs) : Option (FResult × Transfer) :=
  if fp.err ≠ .frOk then some (fp.err, ⟨buff, 0, btr, fp, fs⟩)
  else if fp.faRead = false then some (.frDenied, ⟨buff, 0, btr, fp, fs⟩)
  else
    let remain := sub32 fp.fsize fp.fptr
    let btr := if remain < btr then remain else btr
    transferLoop (readRound v) btr ⟨buff, 0, btr, fp, fs⟩

def nextCluster (fp : Fil) (fs : Fs) : Option (Nat × Fs) :=
  if fp.fptr = 0 then
    if fp.sclust = 0 then createChain v 0 fs else some (fp.sclust, fs)
  else createChain v fp.clust fs

/-- The buffer is refilled if the direct write goes over its sector. -/
def refill (sect cc : Nat) (t : Transfer) : Transfer :=
  if sub32 t.fp.dsect sect < cc then
    let source : Memory := fun place => t.buff (t.count + sub32 t.fp.dsect sect * 512 + place)
    { t with fp := { t.fp with buf := storeBytes 0 512 source t.fp.buf, faDirty := false } }
  else t

def directWrite (sect cc : Nat) (t : Transfer) : Round :=
  let written := diskWrite (fun place => t.buff (t.count + place)) sect cc t.fs.drive
  let t := { t with fs := { t.fs with drive := written.2 } }
  if written.1 then .goes ((refill sect cc t).advance (512 * cc)) else abort .frDiskErr t

def partialWrite (t : Transfer) : Round :=
  let source : Memory := fun place => t.buff (t.count + place)
  let buf := storeBytes (t.fp.fptr % 512) (partCount t) source t.fp.buf
  .goes ({ t with fp := { t.fp with buf := buf, faDirty := true } }.advance (partCount t))

/-- At the growing edge the buffer is not filled. -/
def edgeBuf (sect : Nat) (fp : Fil) (fs : Fs) : FResult × Fil × Fs :=
  if fp.dsect ≠ sect ∧ fp.fptr < fp.fsize then fillBuf sect fp fs else (.frOk, fp, fs)

def writeSector (t : Transfer) : Round :=
  let flushed := flushBuf t.fp t.fs
  let t := { t with fp := flushed.2.1, fs := flushed.2.2 }
  if flushed.1 = .frOk then
    let sect := clust2sect v t.fp.clust
    if sect = 0 then abort .frIntErr t
    else
      let csect := csectOf v t.fp
      let sect := sect + csect
      if t.left / 512 ≠ 0 then directWrite sect (clipped v csect t.left) t
      else
        let edge := edgeBuf sect t.fp t.fs
        let t := { t with fp := edge.2.1, fs := edge.2.2 }
        if edge.1 = .frOk then partialWrite { t with fp := { t.fp with dsect := sect } }
        else abort edge.1 t
  else abort flushed.1 t

def startAt (clst : Nat) (fp : Fil) : Fil :=
  { fp with clust := clst, sclust := if fp.sclust = 0 then clst else fp.sclust }

def writeRound (t : Transfer) : Round :=
  if t.fp.fptr % 512 = 0 then
    if csectOf v t.fp = 0 then
      match nextCluster v t.fp t.fs with
      | some (clst, fs) =>
          let t := { t with fs := fs }
          if clst = 0 then .stops t
          else if clst = 1 then abort .frIntErr t
          else if clst = diskError then abort .frDiskErr t
          else writeSector v { t with fp := startAt clst t.fp }
      | none => .hangs
    else writeSector v t
  else partialWrite t

/-- Behind the loop, unless it was left with `ABORT`. -/
def grown (fp : Fil) : Fil :=
  { fp with fsize := if fp.fsize < fp.fptr then fp.fptr else fp.fsize, faWritten := true }

def fWrite (fp : Fil) (buff : Memory) (btw : Nat) (fs : Fs) : Option (FResult × Transfer) :=
  if fp.err ≠ .frOk then some (fp.err, ⟨buff, 0, btw, fp, fs⟩)
  else if fp.faWrite = false then some (.frDenied, ⟨buff, 0, btw, fp, fs⟩)
  else
    let btw := if (fp.fptr + btw) % 0x100000000 < fp.fptr then 0 else btw
    match transferLoop (writeRound v) btw ⟨buff, 0, btw, fp, fs⟩ with
    | some (.frOk, t) => some (.frOk, { t with fp := grown t.fp })
    | ended => ended

structure Seek where
  clst : Nat
  ofs : Nat
  fp : Fil
  fs : Fs

def bytesPerCluster : Nat := v.csize * 512

def seekLoop : Nat → Seek → Option (FResult × Seek)
  | 0, _ => none
  | fuel + 1, s =>
      let bcs := bytesPerCluster v
      if bcs < s.ofs then
        match if s.fp.faWrite then createChain v s.clst s.fs
            else some (getFat v s.clst s.fs) with
        | some (clst, fs) =>
            if s.fp.faWrite ∧ clst = 0 then some (.frOk, { s with clst := 0, ofs := bcs, fs := fs })
            else if clst = diskError then some (.frDiskErr, { s with clst := clst, fs := fs })
            else if clst ≤ 1 ∨ v.nFatent ≤ clst then
              some (.frIntErr, { s with clst := clst, fs := fs })
            else
              seekLoop fuel ⟨clst, s.ofs - bcs,
                { s.fp with clust := clst, fptr := s.fp.fptr + bcs }, fs⟩
        | none => none
      else some (.frOk, s)

def seekStart (ifptr ofs : Nat) (fp : Fil) (fs : Fs) : Option (FResult × Seek) :=
  let bcs := bytesPerCluster v
  if 0 < ifptr ∧ (ifptr - 1) / bcs ≤ (ofs - 1) / bcs then
    let fptr := (ifptr - 1) / bcs * bcs
    some (.frOk, ⟨fp.clust, ofs - fptr, { fp with fptr := fptr }, fs⟩)
  else if fp.sclust = 0 then
    match createChain v 0 fs with
    | some (clst, fs) =>
        if clst = 1 then some (.frIntErr, ⟨clst, ofs, fp, fs⟩)
        else if clst = diskError then some (.frDiskErr, ⟨clst, ofs, fp, fs⟩)
        else some (.frOk, ⟨clst, ofs, { fp with sclust := clst, clust := clst }, fs⟩)
    | none => none
  else some (.frOk, ⟨fp.sclust, ofs, { fp with clust := fp.sclust }, fs⟩)

def seekSector (s : Seek) : FResult × Nat × Fil :=
  let fp := { s.fp with fptr := s.fp.fptr + s.ofs }
  if s.ofs % 512 ≠ 0 then
    let nsect := clust2sect v s.clst
    if nsect = 0 then (.frIntErr, 0, fp) else (.frOk, nsect + s.ofs / 512, fp)
  else (.frOk, 0, fp)

def seekFill (nsect : Nat) (fp : Fil) (fs : Fs) : FResult × Fil × Fs :=
  if fp.fptr % 512 ≠ 0 then
    let loaded := loadBuf nsect fp fs
    if loaded.1 = .frOk then (.frOk, { loaded.2.1 with dsect := nsect }, loaded.2.2) else loaded
  else (.frOk, fp, fs)

def extended (fp : Fil) : Fil :=
  if fp.fsize < fp.fptr then { fp with fsize := fp.fptr, faWritten := true } else fp

def keepErr (res : FResult) (fp : Fil) (fs : Fs) : FResult × Fil × Fs :=
  (res, { fp with err := res }, fs)

def seekEnd (nsect : Nat) (fp : Fil) (fs : Fs) : FResult × Fil × Fs :=
  let filled := seekFill nsect fp fs
  if filled.1 = .frOk then (.frOk, extended filled.2.1, filled.2.2)
  else keepErr filled.1 filled.2.1 filled.2.2

def seekFollow (s : Seek) : Option (FResult × Fil × Fs) :=
  if s.clst ≠ 0 then
    match seekLoop v s.ofs s with
    | some (.frOk, s) =>
        let sector := seekSector v s
        if sector.1 = .frOk then some (seekEnd sector.2.1 sector.2.2 s.fs)
        else some (keepErr sector.1 sector.2.2 s.fs)
    | some (res, s) => some (keepErr res s.fp s.fs)
    | none => none
  else some (seekEnd 0 s.fp s.fs)

def fLseek (ofs : Nat) (fp : Fil) (fs : Fs) : Option (FResult × Fil × Fs) :=
  if fp.err ≠ .frOk then some (fp.err, fp, fs)
  else
    let ofs := if fp.fsize < ofs ∧ fp.faWrite = false then fp.fsize else ofs
    let ifptr := fp.fptr
    let fp := { fp with fptr := 0 }
    if ofs ≠ 0 then
      match seekStart v ifptr ofs fp fs with
      | some (.frOk, s) => seekFollow v s
      | some (res, s) => some (keepErr res s.fp s.fs)
      | none => none
    else some (seekEnd 0 fp fs)

def truncChain (fp : Fil) (fs : Fs) : Option (FResult × Fil × Fs) :=
  if fp.fptr = 0 then
    match removeChain v fp.sclust fs with
    | some (res, fs) => some (res, { fp with sclust := 0 }, fs)
    | none => none
  else
    match cutChain v fp.clust fs with
    | some (res, fs) => some (res, fp, fs)
    | none => none

def fTruncate (fp : Fil) (fs : Fs) : Option (FResult × Fil × Fs) :=
  if fp.err ≠ .frOk then some (fp.err, fp, fs)
  else if fp.faWrite = false then some (.frDenied, fp, fs)
  else if fp.fptr < fp.fsize then
    match truncChain v { fp with fsize := fp.fptr, faWritten := true } fs with
    | some (.frOk, fp, fs) =>
        let flushed := flushBuf fp fs
        if flushed.1 = .frOk then some flushed else some (keepErr flushed.1 flushed.2.1 flushed.2.2)
    | some (res, fp, fs) => some (keepErr res fp fs)
    | none => none
  else some (.frOk, fp, fs)

def InCluster (clst sector : Nat) : Prop :=
  v.database + (clst - 2) * v.csize ≤ sector ∧
    sector < v.database + (clst - 2) * v.csize + v.csize

def sectorAt (cells : List Nat) (index : Nat) : Nat :=
  v.database + (cells.getD (index / v.csize) 0 - 2) * v.csize + index % v.csize

def fileByte (cells : List Nat) (fp : Fil) (fs : Fs) (place : Nat) : BitVec 8 :=
  let sector := sectorAt v cells (place / 512)
  if fp.dsect = sector then fp.buf (place % 512)
  else fs.drive.bytes (512 * sector + place % 512)

/-- The cluster belongs to the file, or to no one. -/
def Ours (cells : List Nat) (fs : Fs) (clst : Nat) : Prop :=
  clst ∈ cells ∨ Cluster v clst ∧ fatEntry v fs clst = 0

def room (cells : List Nat) : Nat := cells.length * v.csize

section Places

variable {v}

end Places

/-- The chain of the file is sound, and the window is not over what the file may write. -/
structure Based (cells : List Nat) (fs : Fs) : Prop where
  chain : Chain (linkOf v fs) cells
  alone : cells.Nodup
  coherent : Coherent v fs
  reliable : fs.drive.Reliable
  valid : Valid v fs
  counted : Counted v fs
  away : ∀ clst, Ours v cells fs clst → ¬InCluster v clst fs.winsect

/-- What a file leaves alone: all that is not its own, nor free. -/
structure Onward (cells cells' : List Nat) (fs fs' : Fs) : Prop where
  ours : ∀ clst, Ours v cells' fs' clst ↔ Ours v cells fs clst
  links : ∀ clst, ¬Ours v cells fs clst → linkOf v fs' clst = linkOf v fs clst
  content : ∀ place, Plain v place → ¬InTable v place →
    (∀ clst, Ours v cells fs clst → ¬InCluster v clst (place / 512)) →
    content fs' place = content fs place
  mirrored : Mirrored v fs → Mirrored v fs'
  stays : Stays v fs.winsect fs'

def stored (buff : Memory) (sect count : Nat) (fs : Fs) : Fs :=
  { fs with
    drive := { fs.drive with
      bytes := storeBytes (512 * sect) (512 * count) buff fs.drive.bytes } }

section Base

variable {v}

theorem Based.proper {cells : List Nat} {fs : Fs} (based : Based v cells fs) :
    ∀ clst ∈ cells, Cluster v clst := fun _ member =>
  link_cluster (chain_not_free based.chain member)

theorem Based.cluster {cells : List Nat} {fs : Fs} (based : Based v cells fs) {clst : Nat}
    (ours : Ours v cells fs clst) : Cluster v clst := by
  rcases ours with member | free
  · exact based.proper clst member
  · exact free.1

theorem Onward.refl (cells : List Nat) (fs : Fs) : Onward v cells cells fs fs where
  ours := fun _ => Iff.rfl
  links := fun _ _ => rfl
  content := fun _ _ _ _ => rfl
  mirrored := id
  stays := .inl rfl

theorem stays_trans {before : Nat} {fs fs' : Fs} (one : Stays v before fs)
    (two : Stays v fs.winsect fs') : Stays v before fs' := by
  rcases two with same | away
  · rw [Stays, same]
    exact one
  · exact .inr away

theorem Onward.trans {first middle last : List Nat} {fs fs' fs'' : Fs}
    (one : Onward v first middle fs fs') (two : Onward v middle last fs' fs'') :
    Onward v first last fs fs'' where
  ours := fun clst => (two.ours clst).trans (one.ours clst)
  links := fun clst far =>
    (two.links clst fun own => far ((one.ours clst).mp own)).trans (one.links clst far)
  content := fun place plain outside far =>
    (two.content place plain outside fun clst own => far clst ((one.ours clst).mp own)).trans
      (one.content place plain outside far)
  mirrored := fun mirrored => two.mirrored (one.mirrored mirrored)
  stays := stays_trans one.stays two.stays

theorem reliable_next {d : Drive} (reliable : d.Reliable) : d.next = d := by
  cases d
  rw [Drive.Reliable] at reliable
  dsimp only at reliable
  rw [Drive.next, reliable]
  rfl

end Base

/-- A buffer that need not be written holds what is on the disk, and it is over a sector that
the file may write. -/
structure Buffered (cells : List Nat) (fp : Fil) (fs : Fs) : Prop where
  clean : fp.faDirty = false → fp.dsect ≠ 0 → ∀ place, place < 512 →
    fp.buf place = fs.drive.bytes (512 * fp.dsect + place)
  dirty : fp.faDirty = true → fp.dsect ≠ 0
  own : fp.dsect = 0 ∨ ∃ clst, Ours v cells fs clst ∧ InCluster v clst fp.dsect

/-- The buffer is over no sector, or over one of the file's own clusters. -/
def Settled (cells : List Nat) (fp : Fil) : Prop :=
  fp.dsect = 0 ∨ ∃ clst ∈ cells, InCluster v clst fp.dsect

/-- The buffer has been left where it was, or put over one of the file's own clusters. -/
def Settles (cells : List Nat) (fp fp' : Fil) : Prop :=
  fp'.dsect = fp.dsect ∨ Settled v cells fp'

/-- An open file with the chain `cells`, its pointer anywhere in the chain. -/
structure Held (cells : List Nat) (fp : Fil) (fs : Fs) : Prop where
  based : Based v cells fs
  buffered : Buffered v cells fp fs
  start : fp.sclust = cells.headD 0
  size : fp.fsize ≤ 512 * room v cells
  place : fp.fptr ≤ 512 * room v cells
  current : 0 < fp.fptr → cells[(fp.fptr - 1) / 512 / v.csize]? = some fp.clust
  loaded : fp.fptr % 512 ≠ 0 → fp.dsect = sectorAt v cells (fp.fptr / 512)

section Buffer

variable {v}

theorem settled_append {cells : List Nat} {fp : Fil} (settled : Settled v cells fp)
    (more : List Nat) : Settled v (cells ++ more) fp := by
  rcases settled with none | ⟨clst, member, inside⟩
  · exact .inl none
  · exact .inr ⟨clst, List.mem_append_left more member, inside⟩

theorem settles_trans {cells : List Nat} {first middle last : Fil}
    (one : Settles v cells first middle) (two : Settles v cells middle last) :
    Settles v cells first last := by
  rcases two with same | there
  · rcases one with before | there
    · exact .inl (same.trans before)
    · rw [Settles, Settled, same]
      exact .inr there
  · exact .inr there

structure Loaded (cells : List Nat) (sect : Nat) (fp : Fil) (fs : Fs) (buf : Memory)
    (flag : Bool) (fs' : Fs) : Prop where
  based : Based v cells fs'
  onward : Onward v cells cells fs fs'
  buffered : Buffered v cells { fp with buf := buf, faDirty := flag, dsect := sect } fs'
  bytes : ∀ place, place / 512 < room v cells →
    fileByte v cells { fp with buf := buf, faDirty := flag, dsect := sect } fs' place =
      fileByte v cells fp fs place

end Buffer

end MinionSubsystem.FatFile
