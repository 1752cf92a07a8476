import MinionSubsystem.FatTable

/-!
# Mounting a volume

`find_volume` reads the geometry of a volume from its boot sector, which it finds in sector 0
or through the partition table. What passes its tests is a sound volume as long as the sums of
the numbers fit in 32 bits.
-/

namespace MinionSubsystem.FatMount

open MinionSubsystem.ByteMemory MinionSubsystem.PackedTable MinionSubsystem.FatWindow
  MinionSubsystem.FatTable

set_option autoImplicit false

def add32 (left right : Nat) : Nat := (left + right) % 0x100000000

def mul32 (left right : Nat) : Nat := left * right % 0x100000000

def sectorOf (d : Memory) (sect : Nat) : Memory := fun place => d (512 * sect + place)

def shortOrLong (win : Memory) (short long : Nat) : Nat :=
  if halfWord win short = 0 then (loadWord win long).toNat else (halfWord win short).toNat

/-- `BPB_FATSz16` or `BPB_FATSz32`. -/
def fatSz (win : Memory) : Nat := shortOrLong win 22 36

def numFats (win : Memory) : Nat := (win 16).toNat

def secPerClus (win : Memory) : Nat := (win 13).toNat

def rootEntCnt (win : Memory) : Nat := (halfWord win 17).toNat

/-- `BPB_TotSec16` or `BPB_TotSec32`. -/
def totSec (win : Memory) : Nat := shortOrLong win 19 32

def rsvdSecCnt (win : Memory) : Nat := (halfWord win 14).toNat

/-- The sectors before the data: reserved ones, FATs and root directory. -/
def sysect (win : Memory) : Nat :=
  add32 (add32 (rsvdSecCnt win) (mul32 (fatSz win) (numFats win))) (rootEntCnt win / 16)

def nclst (win : Memory) : Nat := (totSec win - sysect win) / secPerClus win

def subType (win : Memory) : FatType :=
  if 65526 ≤ nclst win then .fat32 else if 4086 ≤ nclst win then .fat16 else .fat12

def szbfat (fsType : FatType) (nFatent : Nat) : Nat :=
  match fsType with
  | .fat32 => mul32 nFatent 4
  | .fat16 => mul32 nFatent 2
  | .fat12 => mul32 nFatent 3 / 2 + nFatent % 2

/-- The fields of `FATFS` that describe the volume, as they are set. -/
structure Geometry where
  fsType : FatType
  csize : Nat
  nFats : Nat
  nRootdir : Nat
  nFatent : Nat
  fsize : Nat
  volbase : Nat
  fatbase : Nat
  dirbase : Nat
  database : Nat
  deriving DecidableEq, Repr

def dirbase (win : Memory) (bsect : Nat) : Nat :=
  match subType win with
  | .fat32 => (loadWord win 44).toNat
  | _ => add32 (add32 bsect (rsvdSecCnt win)) (mul32 (fatSz win) (numFats win))

def geometry (win : Memory) (bsect : Nat) : Geometry where
  fsType := subType win
  csize := secPerClus win
  nFats := numFats win
  nRootdir := rootEntCnt win
  nFatent := add32 (nclst win) 2
  fsize := fatSz win
  volbase := bsect
  fatbase := add32 bsect (rsvdSecCnt win)
  dirbase := dirbase win bsect
  database := add32 bsect (sysect win)

/-- `find_volume` from the boot sector on; each test that fails is `FR_NO_FILESYSTEM`. -/
def loadGeometry (win : Memory) (bsect : Nat) : Option Geometry :=
  if halfWord win 11 ≠ 512 then none
  else if numFats win ≠ 1 ∧ numFats win ≠ 2 then none
  else if secPerClus win = 0 ∨ secPerClus win &&& (secPerClus win - 1) ≠ 0 then none
  else if rootEntCnt win % 16 ≠ 0 then none
  else if rsvdSecCnt win = 0 then none
  else if totSec win < sysect win then none
  else if nclst win = 0 then none
  else if subType win = .fat32 ∧ rootEntCnt win ≠ 0 then none
  else if subType win ≠ .fat32 ∧ rootEntCnt win = 0 then none
  else if fatSz win < add32 (szbfat (subType win) (add32 (nclst win) 2)) 511 / 512 then none
  else some (geometry win bsect)

section Search

-- What `FATFS` describes before the mount; the window is clean, so nothing comes of it.
variable (old : Volume)

/-- 0: a FAT boot sector, 1: a boot sector, 2: none, 3: the drive failed. -/
def checkFs (sect : Nat) (fs : Fs) : Nat × Fs :=
  let moved := moveWindow old sect { fs with wflag := false, winsect := noSector }
  let win := moved.2.win
  if moved.1 ≠ .frOk then (3, moved.2)
  else if halfWord win 510 ≠ 0xAA55 then (2, moved.2)
  else if loadWord win 54 &&& 0xFFFFFF = 0x544146 then (0, moved.2)
  else if loadWord win 82 &&& 0xFFFFFF = 0x544146 then (0, moved.2)
  else (1, moved.2)

def partitions (win : Memory) : List Nat :=
  (List.range 4).map fun i =>
    let pt := 446 + i * 16
    if win (pt + 4) ≠ 0 then (loadWord win (pt + 8)).toNat else 0

/-- The loop over the partitions: the first with a FAT, or the last one tried. -/
def tryPartitions : List Nat → Nat → Nat → Fs → Nat × Nat × Fs
  | [], bsect, fmt, fs => (bsect, fmt, fs)
  | br :: rest, _, _, fs =>
      let checked := if br ≠ 0 then checkFs old br fs else (2, fs)
      if checked.1 = 0 then (br, 0, checked.2) else tryPartitions rest br checked.1 checked.2

def findBoot (fs : Fs) : Nat × Nat × Fs :=
  let checked := checkFs old 0 fs
  if checked.1 = 1 then tryPartitions old (partitions checked.2.win) 0 1 checked.2
  else (0, checked.1, checked.2)

/-- What the information sector of a FAT32 volume says of the free clusters. -/
def loadInfo (g : Geometry) (fs : Fs) : Fs :=
  let fs := { fs with lastClust := 0xFFFFFFFF, freeClust := 0xFFFFFFFF, fsiFlag := 0x80 }
  if g.fsType = .fat32 ∧ halfWord fs.win 48 = 1 then
    let moved := moveWindow old (add32 g.volbase 1) fs
    let fs := moved.2
    if moved.1 = .frOk then
      if halfWord fs.win 510 = 0xAA55 ∧ loadWord fs.win 0 = 0x41615252 ∧
          loadWord fs.win 484 = 0x61417272 then
        { fs with
          fsiFlag := 0, freeClust := (loadWord fs.win 488).toNat
          lastClust := (loadWord fs.win 492).toNat }
      else { fs with fsiFlag := 0 }
    else fs
  else fs

/-- `find_volume` on a drive that is ready and not mounted yet. -/
def findVolume (fs : Fs) : FResult × Option Geometry × Fs :=
  let boot := findBoot old fs
  if boot.2.1 = 3 then (.frDiskErr, none, boot.2.2)
  else if boot.2.1 ≠ 0 then (.frNoFilesystem, none, boot.2.2)
  else
    match loadGeometry boot.2.2.win boot.1 with
    | none => (.frNoFilesystem, none, boot.2.2)
    | some g => (.frOk, some g, loadInfo old g boot.2.2)

end Search

section Accept

/-- The numbers of the boot sector name sectors that 32 bits can number, and no more clusters
than FAT32 has entry values for. -/
structure Fits (win : Memory) (bsect : Nat) : Prop where
  system : rsvdSecCnt win + fatSz win * numFats win + rootEntCnt win / 16 < 0x100000000
  last : bsect + totSec win < noSector
  clusters : nclst win + 11 ≤ 2 ^ 28

structure Describes (g : Geometry) (v : Volume) : Prop where
  fsType : v.fsType = g.fsType
  csize : v.csize = g.csize
  nFats : v.nFats = g.nFats
  nRootdir : v.nRootdir = g.nRootdir
  nFatent : v.nFatent = g.nFatent
  fsize : v.fsize = g.fsize
  volbase : v.volbase = g.volbase
  fatbase : v.fatbase = g.fatbase
  dirbase : v.dirbase = g.dirbase
  database : v.database = g.database

theorem power_of_two (byte : BitVec 8) (some_bit : byte.toNat ≠ 0)
    (one_bit : byte.toNat &&& (byte.toNat - 1) = 0) :
    ∃ exponent, exponent < 8 ∧ byte.toNat = 2 ^ exponent := by
  revert byte
  decide +kernel

theorem szbfat_exact (fsType : FatType) (nFatent : Nat) (bound : nFatent < 2 ^ 28) :
    szbfat fsType nFatent = fsType.tableBytes nFatent := by
  cases fsType <;> simp only [szbfat, mul32, FatType.tableBytes] <;> omega

theorem sub_type_few (win : Memory) (clusters : nclst win + 11 ≤ 2 ^ 28) :
    nclst win + 2 + 9 ≤ 2 ^ (subType win).width.bits := by
  have twelve : FatType.fat12.width.bits = 12 := rfl
  have sixteen : FatType.fat16.width.bits = 16 := rfl
  have wide : FatType.fat32.width.bits = 28 := rfl
  rw [subType]
  split_ifs
  · rw [wide]
    omega
  · rw [sixteen]
    omega
  · rw [twelve]
    omega

structure Accepted (win : Memory) (bsect : Nat) (g : Geometry) : Prop where
  copies : numFats win = 1 ∨ numFats win = 2
  power : ∃ exponent, exponent < 8 ∧ secPerClus win = 2 ^ exponent
  rows : rootEntCnt win % 16 = 0
  reserved : 0 < rsvdSecCnt win
  room : sysect win ≤ totSec win
  clusters : 0 < nclst win
  rootdir : subType win = .fat32 ↔ rootEntCnt win = 0
  table : add32 (szbfat (subType win) (add32 (nclst win) 2)) 511 / 512 ≤ fatSz win
  same : g = geometry win bsect

theorem load_geometry_accepted {win : Memory} {bsect : Nat} {g : Geometry}
    (loaded : loadGeometry win bsect = some g) : Accepted win bsect g := by
  rw [loadGeometry] at loaded
  obtain ⟨_, loaded⟩ := Option.ite_none_left_eq_some.mp loaded
  obtain ⟨copies, loaded⟩ := Option.ite_none_left_eq_some.mp loaded
  obtain ⟨power, loaded⟩ := Option.ite_none_left_eq_some.mp loaded
  obtain ⟨rows, loaded⟩ := Option.ite_none_left_eq_some.mp loaded
  obtain ⟨reserved, loaded⟩ := Option.ite_none_left_eq_some.mp loaded
  obtain ⟨room, loaded⟩ := Option.ite_none_left_eq_some.mp loaded
  obtain ⟨clusters, loaded⟩ := Option.ite_none_left_eq_some.mp loaded
  obtain ⟨flat, loaded⟩ := Option.ite_none_left_eq_some.mp loaded
  obtain ⟨deep, loaded⟩ := Option.ite_none_left_eq_some.mp loaded
  obtain ⟨table, loaded⟩ := Option.ite_none_left_eq_some.mp loaded
  rw [not_or] at power
  exact
    { copies := by omega
      power := power_of_two (win 13) power.1 (not_not.mp power.2)
      rows := not_not.mp rows
      reserved := Nat.pos_of_ne_zero reserved
      room := Nat.le_of_not_lt room
      clusters := Nat.pos_of_ne_zero clusters
      rootdir := ⟨fun wide => by_contra fun some_row => flat ⟨wide, some_row⟩,
        fun none_there => by_contra fun narrow => deep ⟨narrow, none_there⟩⟩
      table := Nat.le_of_not_lt table
      same := (Option.some.inj loaded).symm }

/-- The root directory of FAT32 is in clusters, any other fills the sectors between the FATs and
the data. -/
def Rooted (g : Geometry) : Prop :=
  if g.fsType = .fat32 then g.nRootdir = 0
  else 0 < g.nRootdir ∧ g.dirbase = g.fatbase + g.nFats * g.fsize ∧
    16 * g.database = 16 * g.dirbase + g.nRootdir

section Sums

variable {win : Memory} {bsect : Nat}

theorem sysect_sum (fits : Fits win bsect) :
    sysect win = rsvdSecCnt win + numFats win * fatSz win + rootEntCnt win / 16 := by
  have system := fits.system
  rw [sysect, add32, add32, mul32, Nat.mul_comm (numFats win)]
  omega

theorem n_fatent_sum (fits : Fits win bsect) : add32 (nclst win) 2 = nclst win + 2 := by
  have clusters := fits.clusters
  rw [add32]
  omega

/-- What starts in front of the data is numbered without wrapping. -/
theorem sector_sum (fits : Fits win bsect) (room : sysect win ≤ totSec win) (offset : Nat)
    (front : offset ≤ sysect win) : add32 bsect offset = bsect + offset := by
  have last := fits.last
  have top : noSector = 0xFFFFFFFF := rfl
  rw [add32]
  omega

theorem dirbase_sum (fits : Fits win bsect) (room : sysect win ≤ totSec win)
    (narrow : subType win ≠ .fat32) :
    dirbase win bsect = bsect + rsvdSecCnt win + numFats win * fatSz win := by
  have sum := sysect_sum fits
  have product : mul32 (fatSz win) (numFats win) = numFats win * fatSz win := by
    have system := fits.system
    rw [mul32, Nat.mul_comm (numFats win)]
    omega
  have front := sector_sum fits room (rsvdSecCnt win) (by omega)
  have behind := sector_sum fits room (rsvdSecCnt win + numFats win * fatSz win) (by omega)
  rw [dirbase]
  split
  · exact absurd ‹_› narrow
  · rw [product, front]
    rw [add32] at behind ⊢
    omega

theorem geometry_rooted {g : Geometry} (accepted : Accepted win bsect g)
    (fits : Fits win bsect) : Rooted g := by
  have sum := sysect_sum fits
  rw [accepted.same, Rooted]
  by_cases wide : (geometry win bsect).fsType = .fat32
  · rw [if_pos wide]
    exact accepted.rootdir.mp wide
  · rw [if_neg wide]
    have start := dirbase_sum fits accepted.room wide
    have data := sector_sum fits accepted.room (sysect win) (Nat.le_refl _)
    have base := sector_sum fits accepted.room (rsvdSecCnt win) (by omega)
    refine ⟨Nat.pos_of_ne_zero fun none_there => wide (accepted.rootdir.mpr none_there), ?_, ?_⟩
    · show dirbase win bsect = add32 bsect (rsvdSecCnt win) + numFats win * fatSz win
      rw [start, base]
    · show 16 * add32 bsect (sysect win) = 16 * dirbase win bsect + rootEntCnt win
      have rows := accepted.rows
      rw [data, start]
      omega

end Sums

/-- Numbers that fit are a sound volume once they have passed the tests. -/
theorem accepted_sound {win : Memory} {bsect : Nat} {g : Geometry}
    (accepted : Accepted win bsect g) (fits : Fits win bsect) :
    ∃ v : Volume, Describes g v ∧ v.volbase < v.fatbase := by
  obtain ⟨copies, power, _, reserved, room, some_cluster, _, table, same⟩ := accepted
  have last := fits.last
  have clusters := fits.clusters
  have front := sysect_sum fits
  have number := n_fatent_sum fits
  have base := sector_sum fits room (rsvdSecCnt win) (by omega)
  have data := sector_sum fits room (sysect win) (Nat.le_refl _)
  have area : nclst win * secPerClus win ≤ totSec win - sysect win := Nat.div_mul_le_self _ _
  have enough : (subType win).tableBytes (nclst win + 2) ≤ 512 * fatSz win := by
    have size : (subType win).tableBytes (nclst win + 2) ≤ 4 * (nclst win + 2) := by
      cases subType win <;> rw [FatType.tableBytes] <;> omega
    rw [number, szbfat_exact _ _ (by omega), add32] at table
    omega
  refine ⟨{
    fsType := subType win
    csize := secPerClus win
    nFats := numFats win
    nRootdir := rootEntCnt win
    nFatent := nclst win + 2
    fsize := fatSz win
    volbase := bsect
    fatbase := bsect + rsvdSecCnt win
    dirbase := dirbase win bsect
    database := bsect + sysect win
    csize_power := power
    one_or_two := copies
    some_cluster := by omega
    few_entries := sub_type_few win clusters
    table_fits := enough
    table_before_data := by omega
    last_sector := ?_ }, ?_, ?_⟩
  · rw [noSector] at last
    rw [Nat.add_sub_cancel]
    omega
  · rw [same]
    exact ⟨rfl, rfl, rfl, rfl, number.symm, rfl, rfl, base.symm, rfl, data.symm⟩
  · show bsect < bsect + rsvdSecCnt win
    omega

end Accept

section Mount

variable (old : Volume) {d : Memory}

/-- The window holds nothing that is not on the drive. -/
structure Faithful (d : Memory) (fs : Fs) : Prop where
  bytes : fs.drive.bytes = d
  wflag : fs.wflag = false
  sector : fs.winsect ≤ noSector
  win : fs.winsect < noSector → ∀ place, fs.win place = d (512 * fs.winsect + place)

/-- Without anything to write the window moves to the sector, or is lost. -/
theorem move_window_faithful {fs : Fs} (faithful : Faithful d fs) (sect : Nat)
    (bound : sect ≤ noSector) :
    Faithful d (moveWindow old sect fs).2 ∧
      ((moveWindow old sect fs).1 = .frOk → (moveWindow old sect fs).2.winsect = sect) ∧
      (moveWindow old sect fs).2.freeClust = fs.freeClust := by
  rw [moveWindow]
  by_cases here : sect = fs.winsect
  · rw [if_pos here]
    exact ⟨faithful, fun _ => here.symm, rfl⟩
  · have synced : syncWindow old fs = (.frOk, fs) := by
      rw [syncWindow, faithful.wflag]
      rfl
    obtain ⟨drive, filled⟩ := disk_read_cases sect fs.drive
    have bytes : (diskRead sect fs.drive).2.2.bytes = d := by
      rw [drive]
      exact faithful.bytes
    rw [if_neg here, synced]
    dsimp only
    rw [if_pos rfl]
    by_cases done : (diskRead sect fs.drive).1 = true
    · rw [if_pos done]
      exact ⟨⟨bytes, faithful.wflag, bound, fun _ place =>
        (filled done place).trans (congrFun faithful.bytes _)⟩, fun _ => rfl, rfl⟩
    · rw [if_neg done]
      exact ⟨⟨bytes, faithful.wflag, Nat.le_refl _,
        fun less => absurd less (Nat.lt_irrefl _)⟩, fun other => FResult.noConfusion other, rfl⟩

theorem check_fs_faithful {fs : Fs} (bytes : fs.drive.bytes = d) (sect : Nat)
    (bound : sect ≤ noSector) :
    Faithful d (checkFs old sect fs).2 ∧
      ((checkFs old sect fs).1 = 0 → (checkFs old sect fs).2.winsect = sect) := by
  have empty : Faithful d { fs with wflag := false, winsect := noSector } :=
    ⟨bytes, rfl, Nat.le_refl _, fun less => absurd less (Nat.lt_irrefl _)⟩
  obtain ⟨still, moved, _⟩ := move_window_faithful old empty sect bound
  rw [checkFs]
  split_ifs with failed
  all_goals first
    | exact ⟨still, fun other => absurd other (by decide)⟩
    | exact ⟨still, fun _ => moved (not_not.mp failed)⟩

theorem partitions_bound (win : Memory) : ∀ br ∈ partitions win, br ≤ noSector := by
  intro br member
  obtain ⟨i, _, same⟩ := List.mem_map.mp member
  have top : noSector = 0xFFFFFFFF := rfl
  dsimp only at same
  split_ifs at same
  · have small := (loadWord win (446 + i * 16 + 8)).isLt
    omega
  · omega

/-- A volume is found where the window is. -/
theorem try_partitions_faithful (list : List Nat) (bound : ∀ br ∈ list, br ≤ noSector)
    (bsect fmt : Nat) {fs : Fs} (faithful : Faithful d fs) (none_yet : fmt ≠ 0) :
    Faithful d (tryPartitions old list bsect fmt fs).2.2 ∧
      ((tryPartitions old list bsect fmt fs).2.1 = 0 →
        (tryPartitions old list bsect fmt fs).2.2.winsect =
          (tryPartitions old list bsect fmt fs).1) := by
  induction list generalizing bsect fmt fs with
  | nil => exact ⟨faithful, fun found => absurd found none_yet⟩
  | cons br rest ih =>
      have checked : Faithful d (if br ≠ 0 then checkFs old br fs else (2, fs)).2 ∧
          ((if br ≠ 0 then checkFs old br fs else (2, fs)).1 = 0 →
            (if br ≠ 0 then checkFs old br fs else (2, fs)).2.winsect = br) := by
        split_ifs with used
        · exact check_fs_faithful old faithful.bytes br (bound br List.mem_cons_self)
        · exact ⟨faithful, fun found => absurd found (by decide)⟩
      rw [tryPartitions]
      by_cases found : (if br ≠ 0 then checkFs old br fs else (2, fs)).1 = 0
      · rw [if_pos found]
        exact ⟨checked.1, fun _ => checked.2 found⟩
      · rw [if_neg found]
        exact ih (fun other member => bound other (List.mem_cons_of_mem _ member)) _ _
          checked.1 found

theorem find_boot_faithful {fs : Fs} (bytes : fs.drive.bytes = d) :
    Faithful d (findBoot old fs).2.2 ∧
      ((findBoot old fs).2.1 = 0 → (findBoot old fs).2.2.winsect = (findBoot old fs).1) := by
  obtain ⟨still, found⟩ := check_fs_faithful old bytes 0 (Nat.zero_le _)
  rw [findBoot]
  split_ifs
  · exact try_partitions_faithful old _ (partitions_bound _) 0 1 still (by decide)
  · exact ⟨still, found⟩

/-- What comes of a mount: the volume, and a window through which the drive is seen as it is. -/
structure Mounts (d : Memory) (g : Geometry) (v : Volume) (fs : Fs) : Prop where
  describes : Describes g v
  rooted : Rooted g
  coherent : Coherent v fs
  wflag : fs.wflag = false
  bytes : fs.drive.bytes = d
  content : ∀ place, place / 512 < noSector → content fs place = d place
  /-- The number of free clusters is unknown, or the one in the information sector. -/
  free : fs.freeClust = 0xFFFFFFFF ∨ g.fsType = .fat32 ∧
    fs.freeClust = (loadWord (sectorOf d (g.volbase + 1)) 488).toNat

theorem faithful_content {fs : Fs} (faithful : Faithful d fs) (place : Nat)
    (bound : place / 512 < noSector) : content fs place = d place := by
  rw [content]
  split_ifs with here
  · have spot : 512 * fs.winsect + place % 512 = place := by omega
    rw [faithful.win (here ▸ bound), spot]
  · exact congrFun faithful.bytes place

theorem load_info_faithful {g : Geometry} {fs : Fs} (faithful : Faithful d fs)
    (bound : g.volbase + 1 < noSector) :
    Faithful d (loadInfo old g fs) ∧ ((loadInfo old g fs).freeClust = 0xFFFFFFFF ∨
      g.fsType = .fat32 ∧ (loadInfo old g fs).freeClust =
        (loadWord (sectorOf d (g.volbase + 1)) 488).toNat) := by
  have top : noSector = 0xFFFFFFFF := rfl
  have next : add32 g.volbase 1 = g.volbase + 1 := by
    rw [add32]
    omega
  have unknown : Faithful d { fs with
      lastClust := 0xFFFFFFFF, freeClust := 0xFFFFFFFF, fsiFlag := 0x80 } :=
    ⟨faithful.bytes, faithful.wflag, faithful.sector, faithful.win⟩
  obtain ⟨still, moved, kept⟩ := move_window_faithful old unknown (g.volbase + 1)
    (Nat.le_of_lt bound)
  rw [loadInfo]
  dsimp only
  rw [next]
  split_ifs with info done signed
  · have sector := moved done
    refine ⟨⟨still.bytes, still.wflag, still.sector, still.win⟩, .inr ⟨info.1, ?_⟩⟩
    have bytes := still.win (by rw [sector]; exact bound)
    rw [sector] at bytes
    rw [funext bytes]
    rfl
  · exact ⟨⟨still.bytes, still.wflag, still.sector, still.win⟩, .inl kept⟩
  · exact ⟨still, .inl kept⟩
  · exact ⟨unknown, .inl rfl⟩

/-- A window that is as the drive is serves every volume. -/
theorem faithful_coherent {fs : Fs} (faithful : Faithful d fs) (v : Volume) : Coherent v fs where
  sector := faithful.sector
  clean := fun _ valid place _ =>
    (faithful.win valid place).trans (congrFun faithful.bytes _).symm
  own := fun flag => absurd (faithful.wflag.symm.trans flag) Bool.false_ne_true

/-- A mount that succeeds leaves a sound volume, and the drive as it was behind a window that
hides none of it, whatever accesses fail and wherever the boot sector was. -/
theorem find_volume_mounts {fs : Fs} {g : Geometry}
    (found : (findVolume old fs).2.1 = some g)
    (fits : Fits (sectorOf fs.drive.bytes g.volbase) g.volbase) :
    (findVolume old fs).1 = .frOk ∧
      ∃ v : Volume, Mounts fs.drive.bytes g v (findVolume old fs).2.2 := by
  obtain ⟨faithful, here⟩ := @find_boot_faithful old _ fs rfl
  rw [findVolume] at found ⊢
  split_ifs at found ⊢ with failed other
  have sector := here (not_not.mp other)
  cases loaded : loadGeometry (findBoot old fs).2.2.win (findBoot old fs).1 with
  | none =>
      rw [loaded] at found
      exact absurd found (by simp)
  | some geometry =>
      rw [loaded] at found
      have same : geometry = g := Option.some.inj found
      rw [same] at loaded ⊢
      have start : g.volbase = (findBoot old fs).1 := by
        rw [(load_geometry_accepted loaded).same]
        rfl
      have below : g.volbase < noSector :=
        Nat.lt_of_le_of_lt (Nat.le_add_right _ _) fits.last
      have boot : (findBoot old fs).2.2.win = sectorOf fs.drive.bytes g.volbase := by
        funext place
        rw [faithful.win (by rw [sector, ← start]; exact below), sector, start]
        rfl
      rw [boot, ← start] at loaded
      -- the sector behind the boot sector is still before the data
      have accepted := load_geometry_accepted loaded
      obtain ⟨v, describes, ahead⟩ := accepted_sound accepted fits
      have next : g.volbase + 1 < noSector := by
        have base := describes.volbase
        have before := v.table_before_data
        have last := v.last_sector
        have top : noSector = 0xFFFFFFFF := rfl
        omega
      obtain ⟨still, free⟩ := load_info_faithful old faithful next
      exact ⟨rfl, v, describes, geometry_rooted accepted fits, faithful_coherent still v,
        still.wflag, still.bytes, fun place bound => faithful_content still place bound, free⟩

/-- A card with the floppy's volume in its second partition, at sector 1. -/
def partitioned : Memory := fun place =>
  ([(466, 1), (470, 1), (510, 0x55), (511, 0xAA), (524, 2), (525, 1), (526, 1), (528, 2),
    (529, 16), (531, 22), (534, 1), (566, 0x46), (567, 0x41), (568, 0x54), (1022, 0x55),
    (1023, 0xAA)].lookup place).getD 0

def unmounted (faults : List (Option Memory)) : Fs :=
  ⟨false, 0, 0, 0, noSector, fun _ => 0, ⟨partitioned, faults⟩⟩

theorem find_volume_mounts_floppy :
    (findVolume floppy (unmounted [none, none, some fun _ => 0])).1 = .frOk ∧
      ∃ v : Volume, Mounts partitioned
        { fsType := .fat12, csize := 1, nFats := 2, nRootdir := 16, nFatent := 20, fsize := 1
          volbase := 1, fatbase := 2, dirbase := 4, database := 5 } v
        (findVolume floppy (unmounted [none, none, some fun _ => 0])).2.2 :=
  @find_volume_mounts floppy (unmounted [none, none, some fun _ => 0]) _ (by decide +kernel)
    ⟨by decide +kernel, by decide +kernel, by decide +kernel⟩

end Mount

section Found

variable (old : Volume) {d : Memory}

/-- A boot sector that says of itself that a FAT follows. -/
def FatBoot (win : Memory) : Prop :=
  halfWord win 510 = 0xAA55 ∧
    (loadWord win 54 &&& 0xFFFFFF = 0x544146 ∨ loadWord win 82 &&& 0xFFFFFF = 0x544146)

instance (win : Memory) : Decidable (FatBoot win) :=
  inferInstanceAs (Decidable (halfWord win 510 = 0xAA55 ∧
    (loadWord win 54 &&& 0xFFFFFF = 0x544146 ∨ loadWord win 82 &&& 0xFFFFFF = 0x544146)))

/-- The partition that is mounted; the number of the window that holds nothing names none. -/
def fatPartition (d : Memory) (list : List Nat) : Option Nat :=
  list.find? fun br => br ≠ 0 ∧ br ≠ noSector ∧ FatBoot (sectorOf d br)

def bootSector (d : Memory) : Option Nat :=
  if FatBoot (sectorOf d 0) then some 0
  else if halfWord (sectorOf d 0) 510 = 0xAA55 then
    fatPartition d (partitions (sectorOf d 0))
  else none

def mountable (d : Memory) : Option Geometry :=
  (bootSector d).bind fun bsect => loadGeometry (sectorOf d bsect) bsect

structure Checked (win : Memory) (fs : Fs) (r : Nat × Fs) : Prop where
  fat : r.1 = 0 ↔ FatBoot win
  signed : r.1 = 1 ↔ halfWord win 510 = 0xAA55 ∧ ¬FatBoot win
  few : r.1 < 3
  win : r.2.win = win
  bytes : r.2.drive.bytes = fs.drive.bytes
  reliable : r.2.drive.Reliable

theorem check_fs_moved (fs : Fs) {fs' : Fs} {sect : Nat}
    (moved : moveWindow old sect { fs with wflag := false, winsect := noSector } = (.frOk, fs'))
    (bytes : fs'.drive.bytes = fs.drive.bytes) (reliable : fs'.drive.Reliable) :
    Checked fs'.win fs (checkFs old sect fs) := by
  rw [checkFs, moved]
  split_ifs with failed unsigned first second
  · exact absurd rfl failed
  · exact ⟨⟨fun same => absurd same (by simp), fun fat => absurd fat.1 unsigned⟩,
      ⟨fun same => absurd same (by simp), fun boot => absurd boot.1 unsigned⟩,
      by simp, rfl, bytes, reliable⟩
  · have fat : FatBoot fs'.win := ⟨not_not.mp unsigned, .inl first⟩
    exact ⟨⟨fun _ => fat, fun _ => rfl⟩,
      ⟨fun same => absurd same (by simp), fun boot => absurd fat boot.2⟩,
      by simp, rfl, bytes, reliable⟩
  · have fat : FatBoot fs'.win := ⟨not_not.mp unsigned, .inr second⟩
    exact ⟨⟨fun _ => fat, fun _ => rfl⟩,
      ⟨fun same => absurd same (by simp), fun boot => absurd fat boot.2⟩,
      by simp, rfl, bytes, reliable⟩
  · have other : ¬FatBoot fs'.win := fun fat => fat.2.elim first second
    exact ⟨⟨fun same => absurd same (by simp), fun fat => absurd fat other⟩,
      ⟨fun _ => ⟨not_not.mp unsigned, other⟩, fun _ => rfl⟩,
      by simp, rfl, bytes, reliable⟩

theorem check_fs_sector {fs : Fs} (reliable : fs.drive.Reliable) (sect : Nat)
    (valid : sect ≠ noSector) :
    Checked (sectorOf fs.drive.bytes sect) fs (checkFs old sect fs) := by
  have moved : moveWindow old sect { fs with wflag := false, winsect := noSector } =
      (.frOk, { fs with
        wflag := false, winsect := sect, win := sectorOf fs.drive.bytes sect
        drive := fs.drive.next }) := by
    rw [moveWindow, if_neg valid, syncWindow, if_neg Bool.false_ne_true]
    dsimp only
    rw [disk_read_reliable reliable]
    rfl
  exact check_fs_moved old fs moved rfl (Drive.reliable_next reliable)

/-- The window stays with the sector before. -/
theorem check_fs_no_sector {fs : Fs} (reliable : fs.drive.Reliable) :
    Checked fs.win fs (checkFs old noSector fs) :=
  @check_fs_moved old fs { fs with wflag := false, winsect := noSector } noSector (if_pos rfl) rfl
    reliable

def Found (d : Memory) (answer : Option Nat) (r : Nat × Nat × Fs) : Prop :=
  match answer with
  | some bsect => r.1 = bsect ∧ r.2.1 = 0 ∧ r.2.2.win = sectorOf d bsect
  | none => r.2.1 ≠ 0 ∧ r.2.1 < 3

theorem try_partitions_found (list : List Nat) (bsect fmt : Nat) {fs : Fs}
    (reliable : fs.drive.Reliable) (bytes : fs.drive.bytes = d) (other : ¬FatBoot fs.win)
    (none_yet : fmt ≠ 0) (few : fmt < 3) :
    Found d (fatPartition d list) (tryPartitions old list bsect fmt fs) := by
  induction list generalizing bsect fmt fs with
  | nil => exact ⟨none_yet, few⟩
  | cons br rest ih =>
      rw [tryPartitions, fatPartition]
      by_cases empty : br = 0
      · rw [List.find?_cons_of_neg (by simp [empty]), if_neg (not_not.mpr empty)]
        exact ih br 2 reliable bytes other (by decide) (by decide)
      rw [if_pos empty]
      by_cases top : br = noSector
      -- `move_window` takes the number for the empty window's, and reads nothing
      · have checked := check_fs_no_sector old reliable
        rw [← top] at checked
        rw [List.find?_cons_of_neg (by simp [top]), if_neg fun fat => other (checked.fat.mp fat)]
        exact ih br _ checked.reliable (checked.bytes.trans bytes) (by rwa [checked.win])
          (fun fat => other (checked.fat.mp fat)) checked.few
      have checked := check_fs_sector old reliable br top
      rw [bytes] at checked
      by_cases fat : FatBoot (sectorOf d br)
      · rw [List.find?_cons_of_pos (by simp [empty, top, fat]), if_pos (checked.fat.mpr fat)]
        exact ⟨rfl, rfl, checked.win⟩
      · have next : ¬(checkFs old br fs).1 = 0 := fun same => fat (checked.fat.mp same)
        rw [List.find?_cons_of_neg (by simp [fat]), if_neg next]
        exact ih br _ checked.reliable (checked.bytes.trans bytes) (by rwa [checked.win]) next
          checked.few

theorem find_boot_found {fs : Fs} (reliable : fs.drive.Reliable) (bytes : fs.drive.bytes = d) :
    Found d (bootSector d) (findBoot old fs) := by
  have checked := check_fs_sector old reliable 0 (by decide)
  rw [bytes] at checked
  rw [findBoot, bootSector]
  by_cases fat : FatBoot (sectorOf d 0)
  · have zero := checked.fat.mpr fat
    rw [if_pos fat, if_neg (by rw [zero]; decide)]
    exact ⟨rfl, zero, checked.win⟩
  rw [if_neg fat]
  by_cases signed : halfWord (sectorOf d 0) 510 = 0xAA55
  · rw [if_pos signed, if_pos (checked.signed.mpr ⟨signed, fat⟩), checked.win]
    exact try_partitions_found old _ 0 1 checked.reliable (checked.bytes.trans bytes)
      (by rwa [checked.win]) (by decide) (by decide)
  · rw [if_neg signed, if_neg fun one => signed (checked.signed.mp one).1]
    exact ⟨fun same => fat (checked.fat.mp same), checked.few⟩

/-- Unless an access fails the first volume on the drive is mounted if its numbers pass, and
a drive without one is told from one that failed. -/
theorem find_volume_reliable {fs : Fs} (reliable : fs.drive.Reliable) :
    (findVolume old fs).2.1 = mountable fs.drive.bytes ∧
      (findVolume old fs).1 =
        if (mountable fs.drive.bytes).isSome then .frOk else .frNoFilesystem := by
  have found := find_boot_found old reliable rfl
  rw [findVolume, mountable]
  cases answer : bootSector fs.drive.bytes with
  | none =>
      rw [answer] at found
      rw [if_neg (Nat.ne_of_lt found.2), if_pos found.1]
      exact ⟨rfl, rfl⟩
  | some bsect =>
      rw [answer] at found
      obtain ⟨start, fat, win⟩ := found
      rw [if_neg (by rw [fat]; decide), if_neg (not_not.mpr fat), start, win, Option.bind_some]
      cases loadGeometry (sectorOf fs.drive.bytes bsect) bsect with
      | none => exact ⟨rfl, rfl⟩
      | some g => exact ⟨rfl, rfl⟩

theorem find_volume_reliable_floppy :
    (findVolume floppy (unmounted [])).2.1 = mountable partitioned ∧
      (findVolume floppy (unmounted [])).1 =
        if (mountable partitioned).isSome then .frOk else .frNoFilesystem :=
  @find_volume_reliable floppy (unmounted []) rfl

end Found

end MinionSubsystem.FatMount
