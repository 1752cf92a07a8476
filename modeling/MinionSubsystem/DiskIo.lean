import Mathlib.Tactic.SplitIfs

/-!
# Sector reads of `diskio.c`

`disk_read` over any machine: `sd_read_sector` is a parameter, of which only
`StoresSector` is assumed. Addresses are natural numbers, a buffer lying within
the address space.
-/

namespace MinionSubsystem.DiskIo

set_option autoImplicit false

inductive DResult where
  | resOk
  | resError
  | resWrprt
  | resNotrdy
  | resParerr
  deriving DecidableEq, Repr

structure Disk where
  stat : BitVec 8
  cardType : BitVec 8

def staNoinit : BitVec 8 := 0x01

def ctBlock : BitVec 8 := 0x08

section Read

variable {World : Type} (sdReadSector : BitVec 32 → Nat → Nat → World → World)

/-- `sd_deselect` ends in the empty `sd_deselect_slave`. -/
def sdDeselect (w : World) : World := w

/-- The `do`-`while` loop from a given `count` on, and the `count` it ends with.
`sector` does not change in it. -/
def readLoop (sector : BitVec 32) : Nat → Nat → World → World × Nat
  | 0, _, w => (w, 0)
  | count + 1, buff, w =>
      readLoop sector count (buff + 512) (sdReadSector sector buff 512 w)

def diskRead (disk : Disk) (pdrv : BitVec 8) (buff : Nat) (sector count : BitVec 32)
    (w : World) : DResult × World :=
  if pdrv ≠ 0 ∨ count = 0 then (.resParerr, w)
  else if disk.stat &&& staNoinit ≠ 0 then (.resNotrdy, w)
  else
    let sector := if disk.cardType &&& ctBlock = 0 then sector * 512 else sector
    let loop := readLoop sdReadSector sector count.toNat buff w
    (if loop.2 ≠ 0 then .resError else .resOk, sdDeselect loop.1)

variable {sdReadSector} (memory : World → Nat → BitVec 8) (card : Nat → Nat → BitVec 8)

/-- `sd_read_sector(s, p, 512)`, `p` lying in the caller's buffer of `size` bytes
at `buff`, stores the 512 bytes of sector `s` at `p` and no others in the buffer. -/
structure StoresSector (buff size : Nat)
    (sdReadSector : BitVec 32 → Nat → Nat → World → World) : Prop where
  stored : ∀ (s : BitVec 32) (p : Nat) (w : World), buff ≤ p → p + 512 ≤ buff + size →
    ∀ offset, offset < 512 → memory (sdReadSector s p 512 w) (p + offset) = card s.toNat offset
  kept : ∀ (s : BitVec 32) (p : Nat) (w : World), buff ≤ p → p + 512 ≤ buff + size →
    ∀ address, buff ≤ address → address < buff + size → address < p ∨ p + 512 ≤ address →
      memory (sdReadSector s p 512 w) address = memory w address

def Initialised (disk : Disk) : Prop :=
  disk.stat &&& staNoinit = 0 ∧ disk.cardType &&& ctBlock ≠ 0

variable {memory card}

theorem read_loop_ends (sector : BitVec 32) (count buff : Nat) (w : World) :
    (readLoop sdReadSector sector count buff w).2 = 0 := by
  induction count generalizing buff w with
  | zero => rfl
  | succ count ih => exact ih (buff + 512) (sdReadSector sector buff 512 w)

theorem first_sector_fits {here count limit : Nat} (room : here + 512 * (count + 1) ≤ limit) :
    here + 512 ≤ limit :=
  Nat.le_trans
    (Nat.add_le_add_left (Nat.le_mul_of_pos_right 512 (Nat.succ_pos count)) here) room

/-- The sectors from `here` on leave the bytes before it alone. -/
theorem read_loop_frame {buff size : Nat}
    (stores : StoresSector memory card buff size sdReadSector) (sector : BitVec 32)
    (count here : Nat) (w : World) (after : buff ≤ here)
    (room : here + 512 * count ≤ buff + size) (address : Nat) (inBuffer : buff ≤ address)
    (before : address < here) :
    memory (readLoop sdReadSector sector count here w).1 address = memory w address := by
  induction count generalizing here w with
  | zero => rfl
  | succ count ih =>
      have later := ih (here + 512) (sdReadSector sector here 512 w) (by omega) (by omega)
        (by omega)
      have kept := stores.kept sector here w after (first_sector_fits room) address inBuffer
        (by omega) (Or.inl before)
      exact later.trans kept

/-- Every 512 bytes from `here` on receive the start sector. -/
theorem read_loop_stores {buff size : Nat}
    (stores : StoresSector memory card buff size sdReadSector) (sector : BitVec 32)
    (count here : Nat) (w : World) (after : buff ≤ here)
    (room : here + 512 * count ≤ buff + size) (k offset : Nat) (inside : k < count)
    (byte : offset < 512) :
    memory (readLoop sdReadSector sector count here w).1 (here + 512 * k + offset) =
      card sector.toNat offset := by
  induction count generalizing here w k with
  | zero => exact absurd inside (Nat.not_lt_zero k)
  | succ count ih =>
      cases k with
      | zero =>
          have kept := read_loop_frame stores sector count (here + 512)
            (sdReadSector sector here 512 w) (by omega) (by omega) (here + offset) (by omega)
            (by omega)
          exact kept.trans
            (stores.stored sector here w after (first_sector_fits room) offset byte)
      | succ k =>
          have later := ih (here + 512) (sdReadSector sector here 512 w) (by omega) (by omega) k
            (by omega)
          have place : here + 512 * (k + 1) + offset = here + 512 + 512 * k + offset := by omega
          rw [place]
          exact later

theorem disk_read_initialised (disk : Disk) (initialised : Initialised disk) (buff : Nat)
    (sector count : BitVec 32) (w : World) (nonempty : count ≠ 0) :
    diskRead sdReadSector disk 0 buff sector count w =
      (.resOk, (readLoop sdReadSector sector count.toNat buff w).1) := by
  have parameters : ¬((0 : BitVec 8) ≠ 0 ∨ count = 0) := by
    rintro (driver | empty)
    · exact driver rfl
    · exact nonempty empty
  have ready : ¬disk.stat &&& staNoinit ≠ 0 := fun noinit => noinit initialised.1
  rw [diskRead, if_neg parameters, if_neg ready, if_neg initialised.2]
  simp only [read_loop_ends, sdDeselect]
  rfl

variable (memory card sdReadSector)

def ReadsSectors (disk : Disk) (buff : Nat) (sector count : BitVec 32) (w : World) : Prop :=
  (diskRead sdReadSector disk 0 buff sector count w).1 = .resOk ∧
    ∀ k offset, k < count.toNat → offset < 512 →
      memory (diskRead sdReadSector disk 0 buff sector count w).2 (buff + 512 * k + offset) =
        card (sector.toNat + k) offset

variable {memory card sdReadSector}

/-- A read of several sectors is right if and only if they all have the contents of
the first one. -/
theorem disk_read_exact (disk : Disk) (buff : Nat) (sector count : BitVec 32) (w : World)
    (stores : StoresSector memory card buff (512 * count.toNat) sdReadSector)
    (initialised : Initialised disk) (nonempty : count ≠ 0) :
    ReadsSectors sdReadSector memory card disk buff sector count w ↔
      ∀ k offset, k < count.toNat → offset < 512 →
        card (sector.toNat + k) offset = card sector.toNat offset := by
  have result : diskRead sdReadSector disk 0 buff sector count w = _ :=
    disk_read_initialised disk initialised buff sector count w nonempty
  have stored := read_loop_stores stores sector count.toNat buff w (Nat.le_refl _) (Nat.le_refl _)
  unfold ReadsSectors
  rw [result]
  constructor
  · intro reads k offset inside byte
    rw [← reads.2 k offset inside byte]
    exact stored k offset inside byte
  · intro alike
    refine ⟨rfl, ?_⟩
    intro k offset inside byte
    rw [alike k offset inside byte]
    exact stored k offset inside byte

end Read

/-- A machine that is its memory, and a card whose sectors hold half their own number. -/
private def pairedCard (sector _offset : Nat) : BitVec 8 := BitVec.ofNat 8 (sector / 2)

private def copySector (s : BitVec 32) (p max : Nat) (w : Nat → BitVec 8) : Nat → BitVec 8 :=
  fun address =>
    if p ≤ address ∧ address < p + max then pairedCard s.toNat (address - p) else w address

private def mounted : Disk where
  stat := 0
  cardType := 0x0C

private theorem copy_sector_stores (size : Nat) :
    StoresSector id pairedCard 0 size copySector where
  stored := by
    intro s p w _ _ offset byte
    have inside : p ≤ p + offset ∧ p + offset < p + 512 := by omega
    simp only [id, copySector, inside, and_self, if_true, Nat.add_sub_cancel_left]
  kept := by
    intro s p w _ _ address _ _ outside
    exact if_neg (by omega)

private theorem mounted_initialised : Initialised mounted := by
  constructor <;> decide

/-- Sectors 8 and 9 are alike. -/
theorem disk_read_exact_pair :
    ReadsSectors copySector id pairedCard mounted 0 8 2 (fun _ => 0) := by
  refine (disk_read_exact mounted 0 8 2 (fun _ => 0) (copy_sector_stores _) mounted_initialised
    (by decide)).mpr ?_
  intro k offset inside _
  have count : (2 : BitVec 32).toNat = 2 := rfl
  have start : (8 : BitVec 32).toNat = 8 := rfl
  rw [count] at inside
  rw [start, pairedCard, pairedCard]
  congr 1
  omega

/-- Reading sectors 7 and 8 stores sector 7 twice. -/
theorem disk_read_repeats_sector :
    StoresSector id pairedCard 0 1024 copySector ∧ Initialised mounted ∧
      (diskRead copySector mounted 0 0 7 2 (fun _ => 0)).1 = .resOk ∧
      ¬ReadsSectors copySector id pairedCard mounted 0 7 2 (fun _ => 0) := by
  have result : diskRead copySector mounted 0 0 7 2 (fun _ => 0) = _ :=
    disk_read_initialised mounted mounted_initialised 0 7 2 (fun _ => 0) (by decide)
  refine ⟨copy_sector_stores 1024, mounted_initialised, by rw [result], ?_⟩
  intro reads
  have second := reads.2 1 0 (by decide) (by decide)
  rw [result] at second
  have stored := read_loop_stores (copy_sector_stores 1024) 7 2 0 (fun _ => 0) (by decide)
    (by decide) 1 0 (by decide) (by decide)
  exact absurd (stored.symm.trans second) (by decide)

end MinionSubsystem.DiskIo
