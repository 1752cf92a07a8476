import MinionSubsystem.FatWindow

/-!
# Entries of the FAT

`get_fat` and `put_fat` of `ff.c` for the three kinds of FAT, read and written through
the window.
-/

namespace MinionSubsystem.FatTable

open MinionSubsystem.ByteMemory MinionSubsystem.PackedTable MinionSubsystem.FatWindow

set_option autoImplicit false

variable (v : Volume)

def diskError : Nat := 0xFFFFFFFF

def getFat (clst : Nat) (fs : Fs) : Nat × Fs :=
  if clst < 2 ∨ v.nFatent ≤ clst then (1, fs)
  else
    match v.fsType with
    | .fat12 =>
        let bc := clst + clst / 2
        let first := moveWindow v (v.fatbase + bc / 512) fs
        if first.1 = .frOk then
          let low := first.2.win (bc % 512)
          let bc := bc + 1
          let second := moveWindow v (v.fatbase + bc / 512) first.2
          if second.1 = .frOk then
            ((nibbles clst (second.2.win (bc % 512) ++ low)).toNat, second.2)
          else (diskError, second.2)
        else (diskError, first.2)
    | .fat16 =>
        let moved := moveWindow v (v.fatbase + clst / 256) fs
        if moved.1 = .frOk then ((halfWord moved.2.win (clst * 2 % 512)).toNat, moved.2)
        else (diskError, moved.2)
    | .fat32 =>
        let moved := moveWindow v (v.fatbase + clst / 128) fs
        if moved.1 = .frOk then
          ((loadWord moved.2.win (clst * 4 % 512) &&& 0x0FFFFFFF).toNat, moved.2)
        else (diskError, moved.2)

/-- The window with another byte, to be written. -/
def poke (place : Nat) (byte : BitVec 8) (fs : Fs) : Fs :=
  { fs with win := Function.update fs.win place byte, wflag := true }

def putFat (clst : Nat) (value : BitVec 32) (fs : Fs) : FResult × Fs :=
  if clst < 2 ∨ v.nFatent ≤ clst then (.frIntErr, fs)
  else
    match v.fsType with
    | .fat12 =>
        let bc := clst + clst / 2
        let first := moveWindow v (v.fatbase + bc / 512) fs
        if first.1 = .frOk then
          let fs := poke (bc % 512) (firstByte clst (first.2.win (bc % 512)) value) first.2
          let bc := bc + 1
          let second := moveWindow v (v.fatbase + bc / 512) fs
          if second.1 = .frOk then
            (.frOk, poke (bc % 512) (secondByte clst (second.2.win (bc % 512)) value) second.2)
          else second
        else first
    | .fat16 =>
        let moved := moveWindow v (v.fatbase + clst / 256) fs
        if moved.1 = .frOk then
          (.frOk, { moved.2 with win := storeHalfWord moved.2.win (clst * 2 % 512) value,
                                 wflag := true })
        else moved
    | .fat32 =>
        let moved := moveWindow v (v.fatbase + clst / 128) fs
        if moved.1 = .frOk then
          let value := value ||| loadWord moved.2.win (clst * 4 % 512) &&& 0xF0000000
          (.frOk, { moved.2 with win := storeWord moved.2.win (clst * 4 % 512) value,
                                 wflag := true })
        else moved

def fatEntry (fs : Fs) (clst : Nat) : Nat :=
  entry v.fsType.width (content fs) (512 * v.fatbase) clst

def Cluster (clst : Nat) : Prop := 2 ≤ clst ∧ clst < v.nFatent

instance (clst : Nat) : Decidable (Cluster v clst) :=
  inferInstanceAs (Decidable (2 ≤ clst ∧ clst < v.nFatent))

def InTable (place : Nat) : Prop :=
  v.fatbase ≤ place / 512 ∧ place / 512 < v.fatbase + v.fsize

/-- `fs'` differs from `fs` in the FAT only. -/
structure Keeps (fs fs' : Fs) : Prop where
  content : ∀ place, Plain v place → ¬InTable v place → content fs' place = content fs place
  coherent : Coherent v fs'
  lastClust : fs'.lastClust = fs.lastClust
  freeClust : fs'.freeClust = fs.freeClust
  fsiFlag : fs'.fsiFlag = fs.fsiFlag
  reliable : fs.drive.Reliable → fs'.drive.Reliable
  mirrored : fs.drive.Reliable → Mirrored v fs → Mirrored v fs'

section Places

variable {v}

theorem shows_keeps {fs fs' : Fs} (shows_same : Shows v fs fs') : Keeps v fs fs' where
  content := fun place plain _ => shows_same.content place plain
  coherent := shows_same.coherent
  lastClust := shows_same.lastClust
  freeClust := shows_same.freeClust
  fsiFlag := shows_same.fsiFlag
  reliable := shows_same.reliable
  mirrored := shows_same.mirrored

theorem Keeps.trans {first middle last : Fs} (one : Keeps v first middle)
    (two : Keeps v middle last) : Keeps v first last where
  content := fun place plain outside =>
    (two.content place plain outside).trans (one.content place plain outside)
  coherent := two.coherent
  lastClust := two.lastClust.trans one.lastClust
  freeClust := two.freeClust.trans one.freeClust
  fsiFlag := two.fsiFlag.trans one.fsiFlag
  reliable := fun reliable => two.reliable (one.reliable reliable)
  mirrored := fun reliable mirrored =>
    two.mirrored (one.reliable reliable) (one.mirrored reliable mirrored)

/-- The FAT is large enough for the entries of all clusters. -/
theorem entry_in_table (clst : Nat) (bound : clst < v.nFatent) :
    offset v.fsType.width clst + v.fsType.width.span ≤ 512 * v.fsize := by
  have fits := v.table_fits
  cases kind : v.fsType with
  | fat12 =>
      have long : FatType.fat12.width.span = 2 := rfl
      rw [kind, FatType.tableBytes] at fits
      rw [long, FatType.width, offset]
      omega
  | fat16 =>
      have long : FatType.fat16.width.span = 2 := rfl
      rw [kind, FatType.tableBytes] at fits
      rw [long, FatType.width, offset]
      omega
  | fat32 =>
      have long : FatType.fat32.width.span = 4 := rfl
      rw [kind, FatType.tableBytes] at fits
      rw [long, FatType.width, offset]
      omega

theorem in_table_plain (place : Nat) (inside : InTable v place) : Plain v place := by
  have last := v.last_sector
  have before := v.table_before_data
  have top : noSector = 0xFFFFFFFF := rfl
  have one : v.fsize ≤ v.nFats * v.fsize := by
    rcases v.one_or_two with count | count <;> rw [count] <;> omega
  rw [InTable] at inside
  rw [Plain, InCopy]
  omega

theorem entry_place (clst : Nat) (bound : clst < v.nFatent) (place : Nat)
    (inside : place < v.fsType.width.span) :
    InTable v (512 * v.fatbase + offset v.fsType.width clst + place) := by
  have fits := entry_in_table clst bound
  rw [InTable]
  omega

/-- Entries are what the window shows of the table. -/
theorem fat_entry_congr {fs fs' : Fs} (clst : Nat) (bound : clst < v.nFatent)
    (same : ∀ place, InTable v place → content fs' place = content fs place) :
    fatEntry v fs' clst = fatEntry v fs clst :=
  entry_congr _ _ _ _ _ fun place inside => same _ (entry_place clst bound place inside)

theorem shows_fat_entry {fs fs' : Fs} (shows_same : Shows v fs fs') (clst : Nat)
    (bound : clst < v.nFatent) : fatEntry v fs' clst = fatEntry v fs clst :=
  fat_entry_congr clst bound fun place inside =>
    shows_same.content place (in_table_plain place inside)

theorem table_sector (v : Volume) (sector : Nat) (inside : sector < v.fatbase + v.fsize) :
    sector < noSector := by
  have last := v.last_sector
  have before := v.table_before_data
  have top : noSector = 0xFFFFFFFF := rfl
  have one : v.fsize ≤ v.nFats * v.fsize := by
    rcases v.one_or_two with count | count <;> rw [count] <;> omega
  omega

end Places

section Read

variable {v}

structure Got (v : Volume) (clst : Nat) (fs : Fs) (r : Nat × Fs) : Prop where
  shows : Shows v fs r.2
  value : r.1 = diskError ∨ r.1 = fatEntry v fs clst
  done : fs.drive.Reliable → r.1 = fatEntry v fs clst

/-- A byte of the table, read in the window that was moved there. -/
theorem moved_byte {fs : Fs} {sector : Nat} {r : FResult × Fs} (moved : Moved v sector fs r)
    (ok : r.1 = .frOk) (place : Nat) (inside : place < 512) :
    content r.2 (512 * sector + place) = r.2.win place := by
  have shown := window_content r.2 place inside
  rw [moved.winsect ok] at shown
  exact shown

theorem got_error {fs : Fs} {clst sector : Nat} {r : FResult × Fs}
    (moved : Moved v sector fs r) (failed : r.1 ≠ .frOk) : Got v clst fs (diskError, r.2) where
  shows := moved.shows
  value := .inl rfl
  done := fun reliable => absurd (moved.done reliable) failed

theorem get_fat_twelve {fs : Fs} (coherent : Coherent v fs) (kind : v.fsType = .fat12)
    (clst : Nat) (cluster : Cluster v clst) : Got v clst fs (getFat v clst fs) := by
  have range : ¬(clst < 2 ∨ v.nFatent ≤ clst) := by
    rw [Cluster] at cluster
    omega
  have span : v.fsType.width.span = 2 := by
    rw [kind]
    rfl
  have start : offset v.fsType.width clst = clst + clst / 2 := by
    rw [kind]
    rfl
  have place := entry_place clst cluster.2
  rw [span, start] at place
  have low_inside := place 0 (by decide)
  have high_inside := place 1 (by decide)
  rw [InTable] at low_inside high_inside
  have low_sector : v.fatbase + (clst + clst / 2) / 512 < noSector :=
    table_sector v _ (by omega)
  have high_sector : v.fatbase + (clst + clst / 2 + 1) / 512 < noSector :=
    table_sector v _ (by omega)
  have first := move_window_moved coherent _ low_sector
  have second := move_window_moved first.shows.coherent _ high_sector
  rw [getFat, if_neg range]
  simp only [kind]
  split_ifs with ok both
  · have shown := first.shows.trans second.shows
    have read : (nibbles clst
        ((moveWindow v (v.fatbase + (clst + clst / 2 + 1) / 512)
          (moveWindow v (v.fatbase + (clst + clst / 2) / 512) fs).2).2.win
            ((clst + clst / 2 + 1) % 512) ++
          (moveWindow v (v.fatbase + (clst + clst / 2) / 512) fs).2.win
            ((clst + clst / 2) % 512))).toNat = fatEntry v fs clst := by
      have low := moved_byte first ok ((clst + clst / 2) % 512) (Nat.mod_lt _ (by decide))
      have high := moved_byte second both ((clst + clst / 2 + 1) % 512)
        (Nat.mod_lt _ (by decide))
      have low_place : 512 * (v.fatbase + (clst + clst / 2) / 512) + (clst + clst / 2) % 512 =
          512 * v.fatbase + (clst + clst / 2) := by omega
      have high_place : 512 * (v.fatbase + (clst + clst / 2 + 1) / 512) +
          (clst + clst / 2 + 1) % 512 = 512 * v.fatbase + (clst + clst / 2) + 1 := by omega
      have low_plain : Plain v (512 * v.fatbase + (clst + clst / 2)) :=
        in_table_plain _ low_inside
      have high_plain : Plain v (512 * v.fatbase + (clst + clst / 2) + 1) :=
        in_table_plain _ high_inside
      rw [low_place, first.shows.content _ low_plain] at low
      rw [high_place, shown.content _ high_plain] at high
      rw [← low, ← high, fatEntry, kind]
      rfl
    exact ⟨shown, .inr read, fun _ => read⟩
  · have failed : Got v clst _ _ := got_error second both
    exact ⟨first.shows.trans failed.shows, .inl rfl,
      fun reliable => absurd (second.done (first.shows.reliable reliable)) both⟩
  · exact got_error first ok

/-- Entries of whole bytes lie in one sector. -/
theorem get_whole {fs : Fs} (clst sector : Nat) (cluster : Cluster v clst)
    {r : FResult × Fs} (moved : Moved v sector fs r) (ok : r.1 = .frOk) (place : Nat)
    (fits : place + v.fsType.width.span ≤ 512)
    (there : 512 * sector + place = 512 * v.fatbase + offset v.fsType.width clst)
    (byte : Nat) (inside : byte < v.fsType.width.span) :
    r.2.win (place + byte) =
      content fs (512 * v.fatbase + offset v.fsType.width clst + byte) := by
  have shown := moved_byte moved ok (place + byte) (by omega)
  have plain := in_table_plain _ (entry_place clst cluster.2 byte inside)
  have same : 512 * sector + (place + byte) =
      512 * v.fatbase + offset v.fsType.width clst + byte := by omega
  rw [same, moved.shows.content _ plain] at shown
  exact shown.symm

theorem get_fat_sixteen {fs : Fs} (coherent : Coherent v fs) (kind : v.fsType = .fat16)
    (clst : Nat) (cluster : Cluster v clst) : Got v clst fs (getFat v clst fs) := by
  have range : ¬(clst < 2 ∨ v.nFatent ≤ clst) := by
    rw [Cluster] at cluster
    omega
  have span : v.fsType.width.span = 2 := by
    rw [kind]
    rfl
  have start : offset v.fsType.width clst = 2 * clst := by
    rw [kind]
    rfl
  have inside := entry_place clst cluster.2 0 (by rw [span]; decide)
  rw [InTable, start] at inside
  have sector : v.fatbase + clst / 256 < noSector := table_sector v _ (by omega)
  have moved := move_window_moved coherent _ sector
  rw [getFat, if_neg range]
  simp only [kind]
  split_ifs with ok
  · have bytes := get_whole clst _ cluster moved ok (clst * 2 % 512) (by omega) (by omega)
    have low := bytes 0 (by omega)
    have high := bytes 1 (by omega)
    have read : (halfWord (moveWindow v (v.fatbase + clst / 256) fs).2.win
        (clst * 2 % 512)).toNat = fatEntry v fs clst := by
      rw [Nat.add_zero, Nat.add_zero] at low
      rw [halfWord, low, high, fatEntry, kind]
      rfl
    exact ⟨moved.shows, .inr read, fun _ => read⟩
  · exact got_error moved ok

theorem get_fat_thirty_two {fs : Fs} (coherent : Coherent v fs) (kind : v.fsType = .fat32)
    (clst : Nat) (cluster : Cluster v clst) : Got v clst fs (getFat v clst fs) := by
  have range : ¬(clst < 2 ∨ v.nFatent ≤ clst) := by
    rw [Cluster] at cluster
    omega
  have span : v.fsType.width.span = 4 := by
    rw [kind]
    rfl
  have start : offset v.fsType.width clst = 4 * clst := by
    rw [kind]
    rfl
  have inside := entry_place clst cluster.2 0 (by rw [span]; decide)
  rw [InTable, start] at inside
  have sector : v.fatbase + clst / 128 < noSector := table_sector v _ (by omega)
  have moved := move_window_moved coherent _ sector
  rw [getFat, if_neg range]
  simp only [kind]
  split_ifs with ok
  · have bytes := get_whole clst _ cluster moved ok (clst * 4 % 512) (by omega) (by omega)
    have read : (loadWord (moveWindow v (v.fatbase + clst / 128) fs).2.win (clst * 4 % 512) &&&
        0x0FFFFFFF).toNat = fatEntry v fs clst := by
      have word : loadWord (moveWindow v (v.fatbase + clst / 128) fs).2.win (clst * 4 % 512) =
          loadWord (content fs) (512 * v.fatbase + offset v.fsType.width clst) := by
        have first := bytes 0 (by omega)
        rw [Nat.add_zero, Nat.add_zero] at first
        rw [loadWord, loadWord, first, bytes 1 (by omega), bytes 2 (by omega),
          bytes 3 (by omega)]
      rw [word, fatEntry, kind]
      rfl
    exact ⟨moved.shows, .inr read, fun _ => read⟩
  · exact got_error moved ok

theorem get_fat_got {fs : Fs} (coherent : Coherent v fs) (clst : Nat)
    (cluster : Cluster v clst) : Got v clst fs (getFat v clst fs) := by
  cases kind : v.fsType with
  | fat12 => exact get_fat_twelve coherent kind clst cluster
  | fat16 => exact get_fat_sixteen coherent kind clst cluster
  | fat32 => exact get_fat_thirty_two coherent kind clst cluster

end Read

section Write

variable {v}

structure Put (v : Volume) (clst : Nat) (value : BitVec 32) (fs : Fs) (r : FResult × Fs) :
    Prop where
  keeps : Keeps v fs r.2
  result : r.1 = .frOk ∨ r.1 = .frDiskErr
  done : fs.drive.Reliable → r.1 = .frOk
  entry : r.1 = .frOk → fatEntry v r.2 clst = value.toNat % 2 ^ v.fsType.width.bits
  others : ∀ other, other < v.nFatent → other ≠ clst →
    fatEntry v r.2 other = fatEntry v fs other

/-- A change of the window over the FAT. -/
theorem dirty_keeps {fs : Fs} (coherent : Coherent v fs) (win : Memory)
    (inside : v.fatbase ≤ fs.winsect ∧ fs.winsect < v.fatbase + v.fsize) :
    Keeps v fs { fs with win := win, wflag := true } where
  content := by
    intro place _ outside
    rw [InTable] at outside
    have away : place / 512 ≠ fs.winsect := by omega
    rw [content, content, if_neg away, if_neg away]
  coherent :=
    { sector := coherent.sector
      clean := fun flag => absurd flag.symm Bool.false_ne_true
      own := by
        intro _ copy
        rw [InCopy] at copy
        dsimp only at copy
        omega }
  lastClust := rfl
  freeClust := rfl
  fsiFlag := rfl
  reliable := id
  mirrored := fun _ => id

theorem content_poke (fs : Fs) (place : Nat) (byte : BitVec 8) (inside : place < 512) :
    content (poke place byte fs) =
      Function.update (content fs) (512 * fs.winsect + place) byte := by
  funext other
  unfold content poke
  dsimp only
  by_cases here : other = 512 * fs.winsect + place
  · have sector : other / 512 = fs.winsect := by omega
    have rest : other % 512 = place := by omega
    rw [if_pos sector, rest, here, Function.update_self, Function.update_self]
  · rw [Function.update_of_ne here]
    split_ifs with sector
    · exact Function.update_of_ne (by omega) _ _
    · rfl

theorem content_store_half_word (fs : Fs) (place : Nat) (value : BitVec 32)
    (inside : place + 2 ≤ 512) :
    content { fs with win := storeHalfWord fs.win place value, wflag := true } =
      storeHalfWord (content fs) (512 * fs.winsect + place) value := by
  have first := content_poke fs place (value.setWidth 8) (by omega)
  have second := content_poke (poke place (value.setWidth 8) fs) (place + 1)
    ((value >>> 8).setWidth 8) (by omega)
  rw [first] at second
  exact second

theorem content_store_word (fs : Fs) (place : Nat) (word : BitVec 32)
    (inside : place + 4 ≤ 512) :
    content { fs with win := storeWord fs.win place word, wflag := true } =
      storeWord (content fs) (512 * fs.winsect + place) word := by
  funext other
  by_cases here : 512 * fs.winsect + place ≤ other ∧ other < 512 * fs.winsect + place + 4
  · have sector : other / 512 = fs.winsect := by omega
    have within : place ≤ other % 512 ∧ other % 512 < place + 4 := by omega
    have same : other % 512 - place = other - (512 * fs.winsect + place) := by omega
    have left : storeWord fs.win place word (other % 512) =
        wordByte word (other % 512 - place) := if_pos within
    have right : storeWord (content fs) (512 * fs.winsect + place) word other =
        wordByte word (other - (512 * fs.winsect + place)) := if_pos here
    rw [right, ← same, ← left]
    exact if_pos sector
  · have right : storeWord (content fs) (512 * fs.winsect + place) word other =
        content fs other := if_neg here
    rw [right, content, content]
    by_cases sector : other / 512 = fs.winsect
    · rw [if_pos sector, if_pos sector]
      exact store_word_frame _ _ _ _ (by omega)
    · rw [if_neg sector, if_neg sector]

theorem put_error {fs : Fs} {clst sector : Nat} (value : BitVec 32) {r : FResult × Fs}
    (moved : Moved v sector fs r) (failed : r.1 ≠ .frOk) : Put v clst value fs r where
  keeps := shows_keeps moved.shows
  result := moved.result
  done := moved.done
  entry := fun ok => absurd ok failed
  others := fun other bound _ => shows_fat_entry moved.shows other bound

/-- An entry that is stored where the window shows it. -/
theorem put_whole {fs : Fs} (clst sector : Nat) (value : BitVec 32)
    {r : FResult × Fs} (moved : Moved v sector fs r) (ok : r.1 = .frOk)
    (inside : v.fatbase ≤ sector ∧ sector < v.fatbase + v.fsize) (win : Memory)
    (stored : content { r.2 with win := win, wflag := true } =
      setEntry v.fsType.width (content r.2) (512 * v.fatbase) clst value) :
    Put v clst value fs (.frOk, { r.2 with win := win, wflag := true }) where
  keeps := by
    rw [← moved.winsect ok] at inside
    exact (shows_keeps moved.shows).trans (dirty_keeps moved.shows.coherent win inside)
  result := .inl rfl
  done := fun _ => rfl
  entry := by
    intro _
    rw [fatEntry, stored, entry_set_same]
  others := by
    intro other bound apart
    rw [fatEntry, stored, entry_set_other _ _ _ _ _ _ apart]
    exact shows_fat_entry moved.shows other bound

theorem put_fat_sixteen {fs : Fs} (coherent : Coherent v fs) (kind : v.fsType = .fat16)
    (clst : Nat) (cluster : Cluster v clst) (value : BitVec 32) :
    Put v clst value fs (putFat v clst value fs) := by
  have range : ¬(clst < 2 ∨ v.nFatent ≤ clst) := by
    rw [Cluster] at cluster
    omega
  have start : offset v.fsType.width clst = 2 * clst := by
    rw [kind]
    rfl
  have inside := entry_place clst cluster.2 0 (by rw [kind]; decide)
  rw [InTable, start] at inside
  have sector : v.fatbase + clst / 256 < noSector := table_sector v _ (by omega)
  have moved := move_window_moved coherent _ sector
  rw [putFat, if_neg range]
  simp only [kind]
  split_ifs with ok
  · apply put_whole clst _ value moved ok (by omega)
    rw [content_store_half_word _ _ _ (by omega), moved.winsect ok, kind]
    have place : 512 * (v.fatbase + clst / 256) + clst * 2 % 512 =
        512 * v.fatbase + offset .sixteen clst := by
      rw [offset]
      omega
    rw [place]
    rfl
  · exact put_error value moved ok

theorem put_fat_thirty_two {fs : Fs} (coherent : Coherent v fs) (kind : v.fsType = .fat32)
    (clst : Nat) (cluster : Cluster v clst) (value : BitVec 32) :
    Put v clst value fs (putFat v clst value fs) := by
  have range : ¬(clst < 2 ∨ v.nFatent ≤ clst) := by
    rw [Cluster] at cluster
    omega
  have start : offset v.fsType.width clst = 4 * clst := by
    rw [kind]
    rfl
  have inside := entry_place clst cluster.2 0 (by rw [kind]; decide)
  rw [InTable, start] at inside
  have sector : v.fatbase + clst / 128 < noSector := table_sector v _ (by omega)
  have moved := move_window_moved coherent _ sector
  rw [putFat, if_neg range]
  simp only [kind]
  split_ifs with ok
  · apply put_whole clst _ value moved ok (by omega)
    have place : 512 * (v.fatbase + clst / 128) + clst * 4 % 512 =
        512 * v.fatbase + offset .twentyEight clst := by
      rw [offset]
      omega
    have old : loadWord (moveWindow v (v.fatbase + clst / 128) fs).2.win (clst * 4 % 512) =
        loadWord (content (moveWindow v (v.fatbase + clst / 128) fs).2)
          (512 * v.fatbase + offset .twentyEight clst) := by
      have byte : ∀ step, step < 4 →
          (moveWindow v (v.fatbase + clst / 128) fs).2.win (clst * 4 % 512 + step) =
            content (moveWindow v (v.fatbase + clst / 128) fs).2
              (512 * v.fatbase + offset .twentyEight clst + step) := by
        intro step small
        have shown := moved_byte moved ok (clst * 4 % 512 + step) (by omega)
        rw [← Nat.add_assoc, place] at shown
        exact shown.symm
      have first := byte 0 (by omega)
      rw [Nat.add_zero, Nat.add_zero] at first
      rw [loadWord, loadWord, first, byte 1 (by omega), byte 2 (by omega), byte 3 (by omega)]
    rw [content_store_word _ _ _ (by omega), moved.winsect ok, kind, place, old]
    rfl
  · exact put_error value moved ok

/-- The first of the two bytes is changed before the window moves on. -/
theorem put_first {fs : Fs} (clst sector : Nat) (value : BitVec 32) (kind : v.fsType = .fat12)
    {r : FResult × Fs} (moved : Moved v sector fs r) (ok : r.1 = .frOk)
    (here : sector = v.fatbase + (clst + clst / 2) / 512)
    (inside : sector < v.fatbase + v.fsize) :
    content (poke ((clst + clst / 2) % 512)
        (firstByte clst (r.2.win ((clst + clst / 2) % 512)) value) r.2) =
      setFirst (content r.2) (512 * v.fatbase) clst value ∧
    Keeps v fs (poke ((clst + clst / 2) % 512)
      (firstByte clst (r.2.win ((clst + clst / 2) % 512)) value) r.2) ∧
    ∀ other, other < v.nFatent → other ≠ clst →
      fatEntry v (poke ((clst + clst / 2) % 512)
        (firstByte clst (r.2.win ((clst + clst / 2) % 512)) value) r.2) other =
        fatEntry v fs other := by
  have small : (clst + clst / 2) % 512 < 512 := Nat.mod_lt _ (by decide)
  have place : 512 * sector + (clst + clst / 2) % 512 =
      512 * v.fatbase + offset .twelve clst := by
    rw [here, offset]
    omega
  have old := moved_byte moved ok _ small
  have written : content (poke ((clst + clst / 2) % 512)
      (firstByte clst (r.2.win ((clst + clst / 2) % 512)) value) r.2) =
      setFirst (content r.2) (512 * v.fatbase) clst value := by
    rw [content_poke _ _ _ small, ← old, moved.winsect ok, place]
    rfl
  refine ⟨written, ?_, ?_⟩
  · apply (shows_keeps moved.shows).trans
    apply dirty_keeps moved.shows.coherent
    rw [moved.winsect ok]
    omega
  · intro other bound apart
    have before := shows_fat_entry moved.shows other bound
    rw [fatEntry, kind] at before ⊢
    rw [written, ← before]
    exact entry_set_first_other _ _ _ _ _ apart

/-- The second byte completes the entry. -/
theorem put_second {fs middle : Fs} (clst sector : Nat) (value : BitVec 32)
    (kind : v.fsType = .fat12) (cluster : Cluster v clst) (before : Memory)
    (written : content middle = setFirst before (512 * v.fatbase) clst value)
    (keeps : Keeps v fs middle)
    (others : ∀ other, other < v.nFatent → other ≠ clst →
      fatEntry v middle other = fatEntry v fs other)
    {r : FResult × Fs} (moved : Moved v sector middle r) (ok : r.1 = .frOk)
    (here : sector = v.fatbase + (clst + clst / 2 + 1) / 512)
    (inside : sector < v.fatbase + v.fsize) :
    Put v clst value fs (.frOk, poke ((clst + clst / 2 + 1) % 512)
      (secondByte clst (r.2.win ((clst + clst / 2 + 1) % 512)) value) r.2) := by
  have small : (clst + clst / 2 + 1) % 512 < 512 := Nat.mod_lt _ (by decide)
  have place : 512 * sector + (clst + clst / 2 + 1) % 512 =
      512 * v.fatbase + offset .twelve clst + 1 := by
    rw [here, offset]
    omega
  have old := moved_byte moved ok _ small
  have completed : content (poke ((clst + clst / 2 + 1) % 512)
      (secondByte clst (r.2.win ((clst + clst / 2 + 1) % 512)) value) r.2) =
      setSecond (content r.2) (512 * v.fatbase) clst value := by
    rw [content_poke _ _ _ small, ← old, moved.winsect ok, place]
    rfl
  refine ⟨keeps.trans ((shows_keeps moved.shows).trans (dirty_keeps moved.shows.coherent _ ?_)),
    .inl rfl, fun _ => rfl, ?_, ?_⟩
  · rw [moved.winsect ok]
    omega
  · intro _
    have bytes : entry .twelve (setSecond (content r.2) (512 * v.fatbase) clst value)
        (512 * v.fatbase) clst =
        entry .twelve (setEntry .twelve before (512 * v.fatbase) clst value)
          (512 * v.fatbase) clst := by
      apply entry_congr
      intro byte within
      have reached := entry_place clst cluster.2 byte (by rw [kind]; exact within)
      have shown := moved.shows.content _ (in_table_plain _ reached)
      rw [kind, written] at shown
      exact set_second_congr _ _ _ _ _ _ shown
    rw [fatEntry, kind, completed]
    exact bytes.trans (entry_set_same _ _ _ _ _)
  · intro other bound apart
    have shown := (shows_fat_entry moved.shows other bound).trans (others other bound apart)
    rw [← shown, fatEntry, fatEntry, kind, completed]
    exact entry_set_second_other _ _ _ _ _ apart

theorem put_fat_twelve {fs : Fs} (coherent : Coherent v fs) (kind : v.fsType = .fat12)
    (clst : Nat) (cluster : Cluster v clst) (value : BitVec 32) :
    Put v clst value fs (putFat v clst value fs) := by
  have range : ¬(clst < 2 ∨ v.nFatent ≤ clst) := by
    rw [Cluster] at cluster
    omega
  have span : v.fsType.width.span = 2 := by
    rw [kind]
    rfl
  have start : offset v.fsType.width clst = clst + clst / 2 := by
    rw [kind]
    rfl
  have place := entry_place clst cluster.2
  rw [span, start] at place
  have low_inside := place 0 (by decide)
  have high_inside := place 1 (by decide)
  rw [InTable] at low_inside high_inside
  have low_sector : v.fatbase + (clst + clst / 2) / 512 < v.fatbase + v.fsize := by omega
  have high_sector : v.fatbase + (clst + clst / 2 + 1) / 512 < v.fatbase + v.fsize := by omega
  have first := move_window_moved coherent _ (table_sector v _ low_sector)
  rw [putFat, if_neg range]
  simp only [kind]
  by_cases ok : (moveWindow v (v.fatbase + (clst + clst / 2) / 512) fs).1 = .frOk
  · obtain ⟨written, keeps, others⟩ := put_first clst _ value kind first ok rfl low_sector
    have second := move_window_moved keeps.coherent _ (table_sector v _ high_sector)
    rw [if_pos ok]
    split_ifs with both
    · exact put_second clst _ value kind cluster _ written keeps others second both rfl
        high_sector
    · exact
        { keeps := keeps.trans (shows_keeps second.shows)
          result := second.result
          done := fun reliable => second.done (keeps.reliable reliable)
          entry := fun done => absurd done both
          others := fun other bound apart =>
            (shows_fat_entry second.shows other bound).trans (others other bound apart) }
  · rw [if_neg ok]
    exact put_error value first ok

/-- `put_fat` changes one entry, and a failed one no other. -/
theorem put_fat_put {fs : Fs} (coherent : Coherent v fs) (clst : Nat)
    (cluster : Cluster v clst) (value : BitVec 32) :
    Put v clst value fs (putFat v clst value fs) := by
  cases kind : v.fsType with
  | fat12 => exact put_fat_twelve coherent kind clst cluster value
  | fat16 => exact put_fat_sixteen coherent kind clst cluster value
  | fat32 => exact put_fat_thirty_two coherent kind clst cluster value

end Write

/-- A floppy with one cluster in a sector and a FAT of one sector, none of it in the window. -/
def floppy : Volume where
  fsType := .fat12
  csize := 1
  nFats := 2
  nRootdir := 16
  nFatent := 20
  fsize := 1
  volbase := 0
  fatbase := 1
  dirbase := 3
  database := 4
  csize_power := ⟨0, by decide, rfl⟩
  one_or_two := .inr rfl
  some_cluster := by decide
  few_entries := by decide
  table_fits := by decide
  table_before_data := by decide
  last_sector := by decide

def inserted (faults : List (Option Memory)) : Fs :=
  ⟨false, 0, 0, 0xFFFFFFFF, noSector, fun _ => 0, ⟨fun _ => 0, faults⟩⟩

theorem inserted_coherent (faults : List (Option Memory)) :
    Coherent floppy (inserted faults) where
  sector := Nat.le_refl _
  clean := fun _ valid => absurd valid (Nat.lt_irrefl _)
  own := fun flag => absurd flag Bool.false_ne_true

section Map

def putAll : List (Nat × BitVec 32) → Fs → List FResult × Fs
  | [], fs => ([], fs)
  | (clst, value) :: rest, fs =>
      let put := putFat v clst value fs
      let later := putAll rest put.2
      (put.1 :: later.1, later.2)

/-- What is known of the entries behind the writes: one that failed may have left half of a
12-bit entry. -/
def tracked : List (Nat × BitVec 32) → List FResult → (Nat → Option Nat) → Nat → Option Nat
  | (clst, value) :: rest, result :: results, known =>
      tracked rest results (Function.update known clst
        (if result = .frOk then some (value.toNat % 2 ^ v.fsType.width.bits) else none))
  | _, _, known => known

variable {v}

theorem put_all_known (list : List (Nat × BitVec 32)) {fs : Fs} (coherent : Coherent v fs)
    (inside : ∀ write ∈ list, Cluster v write.1) (known : Nat → Option Nat)
    (right : ∀ clst value, Cluster v clst → known clst = some value →
      fatEntry v fs clst = value) :
    Keeps v fs (putAll v list fs).2 ∧
      ∀ clst value, Cluster v clst → tracked v list (putAll v list fs).1 known clst = some value →
        fatEntry v (putAll v list fs).2 clst = value := by
  induction list generalizing fs known with
  | nil => exact ⟨shows_keeps (Shows.refl coherent), right⟩
  | cons write rest ih =>
      obtain ⟨written, value⟩ := write
      have cluster := inside (written, value) List.mem_cons_self
      have put := put_fat_put coherent written cluster value
      have later := ih put.keeps.coherent
        (fun other member => inside other (List.mem_cons_of_mem _ member))
        (Function.update known written (if (putFat v written value fs).1 = .frOk
          then some (value.toNat % 2 ^ v.fsType.width.bits) else none))
        (by
          intro clst found there same
          by_cases here : clst = written
          · rw [here, Function.update_self] at same
            split_ifs at same with ok
            rw [here, put.entry ok]
            exact Option.some.inj same
          · rw [Function.update_of_ne here] at same
            rw [put.others clst there.2 here]
            exact right clst found there same)
      exact ⟨put.keeps.trans later.1, later.2⟩

/-- Whatever disk accesses fail: behind any writes, each that was reported as done, an entry
reads as the last value written to it, in the bits of the FAT, and one that was never
written reads as before. -/
theorem fat_reads_written (list : List (Nat × BitVec 32)) {fs : Fs} (coherent : Coherent v fs)
    (inside : ∀ write ∈ list, Cluster v write.1) (clst value : Nat) (cluster : Cluster v clst)
    (known : tracked v list (putAll v list fs).1 (fun clst => some (fatEntry v fs clst)) clst =
      some value) :
    ((getFat v clst (putAll v list fs).2).1 = value ∨
        (getFat v clst (putAll v list fs).2).1 = diskError ∧ ¬fs.drive.Reliable) ∧
      Keeps v fs (getFat v clst (putAll v list fs).2).2 := by
  obtain ⟨keeps, entries⟩ := put_all_known list coherent inside _
    fun _ _ _ same => Option.some.inj same
  have got := get_fat_got keeps.coherent clst cluster
  have entry_same := entries clst value cluster known
  refine ⟨?_, keeps.trans (shows_keeps got.shows)⟩
  by_cases reliable : fs.drive.Reliable
  · exact .inl ((got.done (keeps.reliable reliable)).trans entry_same)
  · rcases got.value with failed | read
    · exact .inr ⟨failed, reliable⟩
    · exact .inl (read.trans entry_same)

theorem fat_reads_written_floppy :
    ((getFat floppy 3 (putAll floppy [(2, 5), (3, 0xFFF), (2, 3)] (inserted [none])).2).1 =
        0xFFF ∨
      (getFat floppy 3 (putAll floppy [(2, 5), (3, 0xFFF), (2, 3)] (inserted [none])).2).1 =
        diskError ∧ ¬(inserted [none]).drive.Reliable) ∧
    Keeps floppy (inserted [none])
      (getFat floppy 3 (putAll floppy [(2, 5), (3, 0xFFF), (2, 3)] (inserted [none])).2).2 := by
  apply fat_reads_written [(2, 5), (3, 0xFFF), (2, 3)] (inserted_coherent [none])
  · intro write member
    simp only [List.mem_cons, List.not_mem_nil, or_false] at member
    rcases member with rfl | rfl | rfl <;> decide
  · decide
  · decide +kernel

end Map

section Accesses

/-- What the directory functions do with the window, one byte at a time. -/
inductive Access where
  | read (place : Nat)
  | write (place : Nat) (byte : BitVec 8)
  | sync
  deriving DecidableEq, Repr

inductive Reply where
  | byte (byte : BitVec 8)
  | done
  | failed
  deriving DecidableEq, Repr

def accessOn (fs : Fs) : Access → Reply × Fs
  | .read place =>
      let moved := moveWindow v (place / 512) fs
      (if moved.1 = .frOk then .byte (moved.2.win (place % 512)) else .failed, moved.2)
  | .write place byte =>
      let moved := moveWindow v (place / 512) fs
      if moved.1 = .frOk then (.done, poke (place % 512) byte moved.2) else (.failed, moved.2)
  | .sync =>
      let synced := syncWindow v fs
      (if synced.1 = .frOk then .done else .failed, synced.2)

def accesses : List Access → Fs → List Reply × Fs
  | [], fs => ([], fs)
  | a :: rest, fs =>
      let first := accessOn v fs a
      let later := accesses rest first.2
      (first.1 :: later.1, later.2)

/-- The place of an access is one that the code has to do with. -/
def Access.Proper : Access → Prop
  | .read place => Plain v place
  | .write place _ => Plain v place
  | .sync => True

/-- A plain memory without window, which takes the writes that were done. -/
def replay : List Access → List Reply → Memory → Option Memory
  | [], [], memory => some memory
  | .read place :: list, .byte byte :: replies, memory =>
      if memory place = byte then replay list replies memory else none
  | .write place byte :: list, .done :: replies, memory =>
      replay list replies (Function.update memory place byte)
  | .sync :: list, .done :: replies, memory => replay list replies memory
  | _ :: list, .failed :: replies, memory => replay list replies memory
  | _, _, _ => none

variable {v}

theorem window_place (place : Nat) : 512 * (place / 512) + place % 512 = place :=
  Nat.div_add_mod place 512

/-- The window may be changed over any sector that is in no further copy. -/
theorem poke_coherent {fs : Fs} (coherent : Coherent v fs) (place : Nat) (byte : BitVec 8)
    (own : ¬InCopy v fs.winsect) : Coherent v (poke place byte fs) where
  sector := coherent.sector
  clean := fun flag => absurd flag.symm Bool.false_ne_true
  own := fun _ => own

structure Answered (v : Volume) (a : Access) (fs : Fs) (r : Reply × Fs) : Prop where
  coherent : Coherent v r.2
  reliable : fs.drive.Reliable → r.2.drive.Reliable ∧ r.1 ≠ .failed
  mirrored : fs.drive.Reliable → Mirrored v fs → Mirrored v r.2
  replayed : ∀ memory, (∀ place, Plain v place → content fs place = memory place) →
    ∃ memory', (∀ list replies, replay (a :: list) (r.1 :: replies) memory =
      replay list replies memory') ∧
      ∀ place, Plain v place → content r.2 place = memory' place

theorem access_on_answered {fs : Fs} (coherent : Coherent v fs) (a : Access)
    (proper : a.Proper v) : Answered v a fs (accessOn v fs a) := by
  cases a with
  | read place =>
      have moved := move_window_moved coherent _ proper.2
      refine ⟨moved.shows.coherent, fun reliable => ⟨moved.shows.reliable reliable, ?_⟩,
        moved.shows.mirrored, ?_⟩
      · rw [accessOn]
        dsimp only
        rw [if_pos (moved.done reliable)]
        exact fun failed => nomatch failed
      · intro memory agrees
        refine ⟨memory, ?_, fun other plain =>
          (moved.shows.content other plain).trans (agrees other plain)⟩
        intro list replies
        rw [accessOn]
        dsimp only
        by_cases ok : (moveWindow v (place / 512) fs).1 = .frOk
        · have shown := moved_byte moved ok (place % 512) (Nat.mod_lt _ (by decide))
          rw [window_place] at shown
          rw [if_pos ok, replay, ← shown, moved.shows.content place proper,
            if_pos (agrees place proper).symm]
        · rw [if_neg ok, replay]
  | write place byte =>
      have moved := move_window_moved coherent _ proper.2
      rw [accessOn]
      by_cases ok : (moveWindow v (place / 512) fs).1 = .frOk
      · rw [if_pos ok]
        have own : ¬InCopy v (moveWindow v (place / 512) fs).2.winsect := by
          rw [moved.winsect ok]
          exact proper.1
        refine ⟨poke_coherent moved.shows.coherent _ _ own,
          fun reliable => ⟨moved.shows.reliable reliable, fun failed => nomatch failed⟩,
          moved.shows.mirrored, ?_⟩
        intro memory agrees
        refine ⟨Function.update memory place byte, fun list replies => rfl, ?_⟩
        intro other plain
        rw [content_poke _ _ _ (Nat.mod_lt _ (by decide)), moved.winsect ok, window_place]
        by_cases same : other = place
        · rw [same, Function.update_self, Function.update_self]
        · rw [Function.update_of_ne same, Function.update_of_ne same]
          exact (moved.shows.content other plain).trans (agrees other plain)
      · rw [if_neg ok]
        refine ⟨moved.shows.coherent, fun reliable => absurd (moved.done reliable) ok,
          moved.shows.mirrored, ?_⟩
        intro memory agrees
        exact ⟨memory, fun list replies => rfl, fun other plain =>
          (moved.shows.content other plain).trans (agrees other plain)⟩
  | sync =>
      have synced := sync_window_synced coherent
      refine ⟨synced.shows.coherent, fun reliable => ⟨synced.shows.reliable reliable, ?_⟩,
        synced.shows.mirrored, ?_⟩
      · rw [accessOn]
        dsimp only
        rw [if_pos (synced.done reliable)]
        exact fun failed => nomatch failed
      · intro memory agrees
        refine ⟨memory, ?_, fun other plain =>
          (synced.shows.content other plain).trans (agrees other plain)⟩
        intro list replies
        rw [accessOn]
        dsimp only
        split_ifs <;> rfl

structure Replayed (v : Volume) (list : List Access) (fs : Fs) (start memory : Memory) :
    Prop where
  replay : replay list (accesses v list fs).1 start = some memory
  shown : ∀ place, Plain v place → content (accesses v list fs).2 place = memory place
  coherent : Coherent v (accesses v list fs).2
  reliable : fs.drive.Reliable → (accesses v list fs).2.drive.Reliable ∧
    Reply.failed ∉ (accesses v list fs).1
  mirrored : fs.drive.Reliable → Mirrored v fs → Mirrored v (accesses v list fs).2

theorem accesses_replayed (list : List Access) {fs : Fs} (coherent : Coherent v fs)
    (proper : ∀ a ∈ list, a.Proper v) (start : Memory)
    (agrees : ∀ place, Plain v place → content fs place = start place) :
    ∃ memory, Replayed v list fs start memory := by
  induction list generalizing fs start with
  | nil =>
      exact ⟨start, rfl, agrees, coherent, fun reliable => ⟨reliable, List.not_mem_nil⟩,
        fun _ => id⟩
  | cons a rest ih =>
      have first := access_on_answered coherent a (proper a List.mem_cons_self)
      obtain ⟨middle, step, shown⟩ := first.replayed start agrees
      obtain ⟨memory, later⟩ := ih first.coherent
        (fun other member => proper other (List.mem_cons_of_mem _ member)) middle shown
      refine ⟨memory, (step rest _).trans later.replay, later.shown, later.coherent, ?_, ?_⟩
      · intro reliable
        obtain ⟨works, answered⟩ := first.reliable reliable
        obtain ⟨end_works, none_failed⟩ := later.reliable works
        refine ⟨end_works, ?_⟩
        intro member
        rcases List.mem_cons.mp member with here | after
        · exact answered here.symm
        · exact none_failed after
      · intro reliable mirrored
        exact later.mirrored (first.reliable reliable).1 (first.mirrored reliable mirrored)

/-- Whatever accesses fail, the window answers as the plain memory does that took the writes
that were done, and a sync that is done leaves that memory on the drive. -/
theorem window_refines_memory (list : List Access) {fs : Fs} (coherent : Coherent v fs)
    (proper : ∀ a ∈ list, a.Proper v) :
    ∃ memory, Replayed v list fs (content fs) memory ∧
      ((syncWindow v (accesses v list fs).2).1 = .frOk → ∀ place, Plain v place →
        (syncWindow v (accesses v list fs).2).2.drive.bytes place = memory place) := by
  obtain ⟨memory, replayed⟩ := accesses_replayed list coherent proper (content fs) fun _ _ => rfl
  refine ⟨memory, replayed, ?_⟩
  intro ok place plain
  have synced := sync_window_synced replayed.coherent
  rw [← clean_content synced.shows.coherent (synced.written ok) place plain]
  exact (synced.shows.content place plain).trans (replayed.shown place plain)

theorem window_refines_memory_floppy :
    ∃ memory, Replayed floppy [.write 2100 7, .read 3000, .read 2100]
        (inserted [none, some fun _ => 9]) (content (inserted [none, some fun _ => 9])) memory ∧
      ((syncWindow floppy (accesses floppy [.write 2100 7, .read 3000, .read 2100]
          (inserted [none, some fun _ => 9])).2).1 = .frOk → ∀ place, Plain floppy place →
        (syncWindow floppy (accesses floppy [.write 2100 7, .read 3000, .read 2100]
          (inserted [none, some fun _ => 9])).2).2.drive.bytes place = memory place) := by
  apply window_refines_memory
  · exact inserted_coherent _
  · intro a member
    simp only [List.mem_cons, List.not_mem_nil, or_false] at member
    rcases member with rfl | rfl | rfl
    all_goals exact show Plain floppy _ by decide

end Accesses

end MinionSubsystem.FatTable
