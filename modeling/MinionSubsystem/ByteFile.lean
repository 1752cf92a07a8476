import Mathlib.Data.List.Basic

/-!
# A file as a list

The bytes of a file and the place of the next access. A store of limited size may cut a
write or a seek short; nothing else is left open but what a longer file holds at first.
-/

namespace MinionSubsystem.ByteFile

set_option autoImplicit false

variable {α : Type}

structure File (α : Type) where
  bytes : List α
  place : Nat

inductive Op (α : Type) where
  | read (count : Nat)
  | write (data : List α)
  | seek (place : Nat)
  | truncate
  deriving DecidableEq, Repr

inductive Reply (α : Type) where
  | data (bytes : List α)
  | count (count : Nat)
  | done
  deriving DecidableEq, Repr

def overwrite (bytes : List α) (place : Nat) (data : List α) : List α :=
  bytes.take place ++ data ++ bytes.drop (place + data.length)

def File.ahead (f : File α) (count : Nat) : List α := (f.bytes.drop f.place).take count

/-- Where a seek leads to: a file that is not written does not become longer. -/
def File.clip (f : File α) (writable : Bool) (place : Nat) : Nat :=
  if writable then place else min place f.bytes.length

/-- One access. `full` says that the store has no room for more, and `limit` how long a file
may be. -/
inductive Step (writable : Bool) (limit : Nat) (full : Prop) :
    File α → Op α → Reply α → File α → Prop where
  | read {f : File α} (count : Nat) :
      Step writable limit full f (.read count) (.data (f.ahead count))
        { f with place := f.place + (f.ahead count).length }
  | write {f : File α} {data : List α} (count : Nat) (few : count ≤ data.length)
      (all : count = data.length ∨ full ∨ count = 0 ∧ limit ≤ f.place + data.length) :
      Step writable limit full f (.write data) (.count count)
        ⟨overwrite f.bytes f.place (data.take count), f.place + count⟩
  | seek {f : File α} {place : Nat} (tail : List α) (reached : Nat)
      (all : reached = f.clip writable place ∨ full ∧ writable = true ∧ reached < place)
      (longer : tail.length = reached - f.bytes.length) :
      Step writable limit full f (.seek place) .done ⟨f.bytes ++ tail, reached⟩
  | truncate {f : File α} :
      Step writable limit full f .truncate .done ⟨f.bytes.take f.place, f.place⟩

section Bytes

end Bytes

end MinionSubsystem.ByteFile
