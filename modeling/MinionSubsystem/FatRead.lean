import MinionSubsystem.FatFile

/-!
# Reading a file

`f_read` gives the bytes of the file that are behind its pointer, in part sectors and in
runs of whole ones, and changes nothing of it.
-/

namespace MinionSubsystem.FatRead

open MinionSubsystem.ByteMemory MinionSubsystem.FatWindow MinionSubsystem.FatTable
  MinionSubsystem.LinkedCells MinionSubsystem.FatChain MinionSubsystem.FatFile

set_option autoImplicit false

variable {v : Volume}

section Loop

variable (round : Transfer → Round) (Inv Done : Transfer → Prop)

end Loop

section Cluster

structure Ready (v : Volume) (cells : List Nat) (fp : Fil) (fs : Fs) : Prop where
  based : Based v cells fs
  buffered : Buffered v cells fp fs
  start : fp.sclust = cells.headD 0
  size : fp.fsize ≤ 512 * room v cells
  here : cells[fp.fptr / 512 / v.csize]? = some fp.clust

end Cluster

section Round

/-- The fields that neither reading nor a round of writing changes. -/
structure Handle (fp fp' : Fil) : Prop where
  faRead : fp'.faRead = fp.faRead
  faWrite : fp'.faWrite = fp.faWrite
  faWritten : fp'.faWritten = fp.faWritten
  err : fp'.err = fp.err
  fsize : fp'.fsize = fp.fsize

theorem Handle.trans {first middle last : Fil} (one : Handle first middle)
    (two : Handle middle last) : Handle first last where
  faRead := two.faRead.trans one.faRead
  faWrite := two.faWrite.trans one.faWrite
  faWritten := two.faWritten.trans one.faWritten
  err := two.err.trans one.err
  fsize := two.fsize.trans one.fsize

structure ReadBy (v : Volume) (cells : List Nat) (cnt : Nat) (t t' : Transfer) : Prop where
  held : Held v cells t'.fp t'.fs
  onward : Onward v cells cells t.fs t'.fs
  handle : Handle t.fp t'.fp
  count : t'.count = t.count + cnt
  left : t'.left + cnt = t.left
  fptr : t'.fp.fptr = t.fp.fptr + cnt
  settles : Settles v cells t.fp t'.fp
  bytes : ∀ place, place / 512 < room v cells →
    fileByte v cells t'.fp t'.fs place = fileByte v cells t.fp t.fs place
  buff : ∀ place, t'.buff place =
    if t.count ≤ place ∧ place < t.count + cnt then
      fileByte v cells t.fp t.fs (t.fp.fptr + (place - t.count))
    else t.buff place

theorem ReadBy.trans {cells : List Nat} {one two : Nat} {first middle last : Transfer}
    (inside : first.fp.fptr + one + two ≤ 512 * room v cells)
    (left : ReadBy v cells one first middle) (right : ReadBy v cells two middle last) :
    ReadBy v cells (one + two) first last where
  held := right.held
  onward := left.onward.trans right.onward
  handle := left.handle.trans right.handle
  count := by rw [right.count, left.count, Nat.add_assoc]
  left := by
    have a := left.left
    have b := right.left
    omega
  fptr := by rw [right.fptr, left.fptr, Nat.add_assoc]
  settles := settles_trans left.settles right.settles
  bytes := fun place small => (right.bytes place small).trans (left.bytes place small)
  buff := by
    intro place
    have count := left.count
    rw [right.buff place, left.buff place]
    by_cases later : middle.count ≤ place ∧ place < middle.count + two
    · have spot : middle.fp.fptr + (place - middle.count) =
          first.fp.fptr + (place - first.count) := by
        rw [left.fptr]
        omega
      rw [if_pos later, if_pos (by omega), spot, left.bytes _ (by omega)]
    · rw [if_neg later]
      by_cases early : first.count ≤ place ∧ place < first.count + one
      · rw [if_pos early, if_pos (by omega)]
      · rw [if_neg early, if_neg (by omega)]

end Round

section Direct

end Direct

section Whole

end Whole

section Run

end Run

end MinionSubsystem.FatRead
