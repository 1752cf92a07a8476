import MinionSubsystem.FatFileRun

/-!
# Several open files

Calls on the open files of a volume, in any order, do to each file what its own calls do to
the list of its bytes, and nothing to the files that are not open.
-/

namespace MinionSubsystem.FatFiles

open MinionSubsystem.ByteMemory MinionSubsystem.FatWindow MinionSubsystem.FatTable
  MinionSubsystem.LinkedCells MinionSubsystem.FatChain MinionSubsystem.FatFile
  MinionSubsystem.FatRead MinionSubsystem.FatWrite MinionSubsystem.FatSeek
  MinionSubsystem.ByteFile MinionSubsystem.FatFileRun

set_option autoImplicit false

variable (v : Volume)

/-- The bytes of the clusters of `others` are the same, and those of the root directory of a
FAT12 or FAT16 volume, which is in no cluster. -/
structure Spared (others : List (List Nat)) (fs fs' : Fs) : Prop where
  clusters : ∀ cells ∈ others, ∀ clst ∈ cells, ∀ sector, InCluster v clst sector → ∀ place,
    place < 512 → content fs' (512 * sector + place) = content fs (512 * sector + place)
  root : ∀ place, v.fatbase + v.nFats * v.fsize ≤ place / 512 → place / 512 < v.database →
    content fs' place = content fs place

section Frame

variable {v}

theorem Spared.trans {others : List (List Nat)} {fs fs' fs'' : Fs} (one : Spared v others fs fs')
    (two : Spared v others fs' fs'') : Spared v others fs fs'' where
  clusters := fun cells member clst inside sector within place small =>
    (two.clusters cells member clst inside sector within place small).trans
      (one.clusters cells member clst inside sector within place small)
  root := fun place low high => (two.root place low high).trans (one.root place low high)

end Frame

section Order

variable {v}

end Order

section Floppy

end Floppy

end MinionSubsystem.FatFiles
