import MinionSubsystem.FatRead

/-!
# Writing a file

`f_write` puts its bytes behind the pointer and keeps the others, through the buffer and in
runs of whole sectors, and stretches the chain of the file where it has to.
-/

namespace MinionSubsystem.FatWrite

open MinionSubsystem.ByteMemory MinionSubsystem.FatWindow MinionSubsystem.FatTable
  MinionSubsystem.LinkedCells MinionSubsystem.FatChain MinionSubsystem.FatFile
  MinionSubsystem.FatRead

set_option autoImplicit false

variable {v : Volume}

section Wrote

/-- `cnt` bytes have been written, and the chain has become longer by `more`. -/
structure WroteBy (v : Volume) (cells more : List Nat) (cnt : Nat) (t t' : Transfer) : Prop where
  held : Held v (cells ++ more) t'.fp t'.fs
  onward : Onward v cells (cells ++ more) t.fs t'.fs
  handle : Handle t.fp t'.fp
  count : t'.count = t.count + cnt
  left : t'.left + cnt = t.left
  fptr : t'.fp.fptr = t.fp.fptr + cnt
  buff : t'.buff = t.buff
  settles : Settles v (cells ++ more) t.fp t'.fp
  written : ∀ place, t.fp.fptr ≤ place → place < t.fp.fptr + cnt →
    fileByte v (cells ++ more) t'.fp t'.fs place = t.buff (t.count + (place - t.fp.fptr))
  kept : ∀ place, place < t.fp.fptr ∨ t.fp.fptr + cnt ≤ place ∧ place < t.fp.fsize →
    fileByte v (cells ++ more) t'.fp t'.fs place = fileByte v cells t.fp t.fs place

theorem settles_append {cells : List Nat} {fp fp' : Fil} (settles : Settles v cells fp fp')
    (more : List Nat) : Settles v (cells ++ more) fp fp' :=
  settles.imp_right fun settled => settled_append settled more

theorem WroteBy.trans {cells some_more more : List Nat} {one two : Nat}
    {first middle last : Transfer} (left : WroteBy v cells some_more one first middle)
    (right : WroteBy v (cells ++ some_more) more two middle last) :
    WroteBy v cells (some_more ++ more) (one + two) first last where
  held := by
    rw [← List.append_assoc]
    exact right.held
  onward := by
    rw [← List.append_assoc]
    exact left.onward.trans right.onward
  handle := left.handle.trans right.handle
  count := by rw [right.count, left.count, Nat.add_assoc]
  left := by
    have a := left.left
    have b := right.left
    omega
  fptr := by rw [right.fptr, left.fptr, Nat.add_assoc]
  buff := right.buff.trans left.buff
  settles := by
    rw [← List.append_assoc]
    exact settles_trans (settles_append left.settles more) right.settles
  written := by
    intro place low high
    have spot := left.fptr
    rw [← List.append_assoc]
    by_cases early : place < first.fp.fptr + one
    · rw [right.kept place (.inl (by omega))]
      exact left.written place low early
    · have step : middle.count + (place - middle.fp.fptr) =
          first.count + (place - first.fp.fptr) := by
        rw [left.count, spot]
        omega
      rw [right.written place (by omega) (by omega), left.buff, step]
  kept := by
    intro place outside
    have spot := left.fptr
    have size := left.handle.fsize
    rw [← List.append_assoc, right.kept place (by omega)]
    exact left.kept place (by omega)

end Wrote

section Part

end Part

section Direct

end Direct

section Round

end Round

section Run

def Full (v : Volume) (fs : Fs) : Prop := ∀ clst, Cluster v clst → fatEntry v fs clst ≠ 0

end Run

end MinionSubsystem.FatWrite
