import MinionSubsystem.FatWrite

/-!
# Moving the pointer of a file

`f_lseek` follows the chain to the cluster of the new place, and stretches it in write mode;
`f_truncate` gives back what is behind the pointer.
-/

namespace MinionSubsystem.FatSeek

open MinionSubsystem.ByteMemory MinionSubsystem.FatWindow MinionSubsystem.FatTable
  MinionSubsystem.LinkedCells MinionSubsystem.FatChain MinionSubsystem.FatFile
  MinionSubsystem.FatRead MinionSubsystem.FatWrite

set_option autoImplicit false

variable {v : Volume}

section Follow

end Follow

section End

end End

section Seeking

def target (fp : Fil) (ofs : Nat) : Nat :=
  if fp.fsize < ofs ∧ fp.faWrite = false then fp.fsize else ofs

end Seeking

section Truncate

end Truncate

end MinionSubsystem.FatSeek
