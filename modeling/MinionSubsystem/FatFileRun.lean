import MinionSubsystem.FatSeek
import MinionSubsystem.ByteFile

/-!
# An open file in use

Any run of `f_read`, `f_write`, `f_lseek` and `f_truncate` on an open file is one on the list
of its bytes, and touches nothing that is not its own.
-/

namespace MinionSubsystem.FatFileRun

open MinionSubsystem.ByteMemory MinionSubsystem.FatWindow MinionSubsystem.FatTable
  MinionSubsystem.LinkedCells MinionSubsystem.FatChain MinionSubsystem.FatFile
  MinionSubsystem.FatRead MinionSubsystem.FatWrite MinionSubsystem.FatSeek
  MinionSubsystem.ByteFile

set_option autoImplicit false

variable (v : Volume)

def source (data : List (BitVec 8)) : Memory := fun place => data.getD place 0

def fileCall (op : Op (BitVec 8)) (fp : Fil) (fs : Fs) :
    Option (FResult × Reply (BitVec 8) × Fil × Fs) :=
  match op with
  | .read count =>
      (fRead v fp (fun _ => 0) count fs).map fun r =>
        (r.1, .data ((List.range r.2.count).map r.2.buff), r.2.fp, r.2.fs)
  | .write data =>
      (fWrite v fp (source data) data.length fs).map fun r =>
        (r.1, .count r.2.count, r.2.fp, r.2.fs)
  | .seek place => (fLseek v place fp fs).map fun r => (r.1, .done, r.2)
  | .truncate => (fTruncate v fp fs).map fun r => (r.1, .done, r.2)

def limit : Nat := 0x100000000

/-- Truncation leaves the buffer where it is, which has to be in what is left of the file. A
cluster that the file gives up may become another file's. -/
def Steady (fp : Fil) : Op (BitVec 8) → Prop
  | .truncate => fp.fptr % 512 ≠ 0 ∨ fp.dsect = 0
  | _ => True

def contents (cells : List Nat) (fp : Fil) (fs : Fs) : List (BitVec 8) :=
  (List.range fp.fsize).map (fileByte v cells fp fs)

structure Open (cells : List Nat) (fp : Fil) (fs : Fs) (f : File (BitVec 8)) : Prop where
  held : Held v cells fp fs
  sound : fp.err = .frOk
  within : fp.fptr ≤ fp.fsize
  size : fp.fsize < limit
  bytes : f.bytes = contents v cells fp fs
  place : f.place = fp.fptr

section Call

variable {v}

structure Called (v : Volume) (cells : List Nat) (f : File (BitVec 8)) (fp : Fil) (fs : Fs)
    (op : Op (BitVec 8)) (cells' : List Nat) (f' : File (BitVec 8)) (fp' : Fil) (fs' : Fs) :
    Prop where
  ran : ∃ reply, fileCall v op fp fs = some (.frOk, reply, fp', fs') ∧
    Step fp.faWrite limit (Full v fs') f op reply f'
  still : Open v cells' fp' fs' f'
  onward : Onward v cells cells' fs fs'
  faRead : fp'.faRead = fp.faRead
  faWrite : fp'.faWrite = fp.faWrite
  written : fp.faWritten = true → fp'.faWritten = true
  settled : Settled v cells fp → Steady fp op → Settled v cells' fp'

end Call

section Runs

variable {v}

end Runs

section Floppy

def created : Fil where
  faRead := true
  faWrite := true
  faDirty := false
  faWritten := true
  err := .frOk
  fptr := 0
  fsize := 0
  sclust := 0
  clust := 0
  dsect := 0
  buf := fun _ => 0

end Floppy

end MinionSubsystem.FatFileRun
