import Mathlib.Tactic.IntervalCases
import MinionSubsystem.BitStream
import MinionSubsystem.SdCrc

/-!
# Data blocks on the DAT lines

What a block of bytes looks like on the bus, independently of the host: as
nibbles on four lanes, as bits on `DAT0`, as 32-bit words in the FIFOs, with the
most significant bit first everywhere. A sequence is a function on clock or byte
numbers together with the number of its elements that are used.
-/

namespace MinionSubsystem.SdBlock

open MinionSubsystem.BitStream
open MinionSubsystem.SdCrc

set_option autoImplicit false

def blockBit (bytes : Nat → BitVec 8) (index : Nat) : Bool :=
  (bytes (index / 8)).getMsbD (index % 8)

def blockNibble (bytes : Nat → BitVec 8) (index : Nat) : BitVec 4 :=
  if index % 2 = 0 then (bytes (index / 2)).extractLsb' 4 4
  else (bytes (index / 2)).extractLsb' 0 4

/-- FIFO word `index` of a block, its first byte in bits 31:24. -/
def blockWord (bytes : Nat → BitVec 8) (index : Nat) : BitVec 32 :=
  bytes (4 * index) ++ bytes (4 * index + 1) ++ bytes (4 * index + 2) ++ bytes (4 * index + 3)

/-- Nibble `index` of a sequence of FIFO words, most significant nibble first. -/
def wordNibble (words : Nat → BitVec 32) (index : Nat) : BitVec 4 :=
  (words (index / 8)).extractLsb' (28 - 4 * (index % 8)) 4

def laneBits (dat : Nat → BitVec 4) (lane count : Nat) : List Bool :=
  (List.range count).map fun clock => (dat clock).getLsbD lane

/-- The bits on the bus in wire order: four lanes, `DAT3` first, or `DAT0` alone. -/
def wireBit (four : Bool) (dat : Nat → BitVec 4) (index : Nat) : Bool :=
  if four then (dat (index / 4)).getMsbD (index % 4) else (dat index).getLsbD 0

def bitsPerClock (four : Bool) : Nat := if four then 4 else 1

/-- A card sending on four lanes: `gap` idle clocks, the start bits, the nibbles
of `bytes`, then the 16 check bits of every lane. -/
structure CardSends (dat : Nat → BitVec 4) (gap byteCount : Nat)
    (bytes : Nat → BitVec 8) (checks : Fin 4 → BitVec 16) : Prop where
  idle : ∀ clock, clock < gap → dat clock = 0xF
  startBit : dat gap = 0
  data : ∀ index, index < 2 * byteCount → dat (gap + 1 + index) = blockNibble bytes index
  check : ∀ index, index < 16 → ∀ lane : Fin 4,
    (dat (gap + 1 + 2 * byteCount + index)).getLsbD lane = (checks lane).getMsbD index

/-- A card sending on `DAT0` alone; the other lanes are free. -/
structure CardSendsBits (dat : Nat → BitVec 4) (gap byteCount : Nat)
    (bytes : Nat → BitVec 8) (check : BitVec 16) : Prop where
  idle : ∀ clock, clock < gap → (dat clock).getLsbD 0 = true
  startBit : (dat gap).getLsbD 0 = false
  data : ∀ index, index < 8 * byteCount →
    (dat (gap + 1 + index)).getLsbD 0 = blockBit bytes index
  check : ∀ index, index < 16 →
    (dat (gap + 1 + 8 * byteCount + index)).getLsbD 0 = check.getMsbD index

@[simp] theorem lane_bits_zero (dat : Nat → BitVec 4) (lane : Nat) :
    laneBits dat lane 0 = [] := rfl

theorem lane_bits_succ (dat : Nat → BitVec 4) (lane count : Nat) :
    laneBits dat lane (count + 1) =
      laneBits dat lane count ++ [(dat count).getLsbD lane] := by
  simp [laneBits, List.range_succ]

theorem lane_bits_congr (left right : Nat → BitVec 4) (lane count : Nat)
    (same : ∀ clock, clock < count → (left clock).getLsbD lane = (right clock).getLsbD lane) :
    laneBits left lane count = laneBits right lane count := by
  apply List.map_congr_left
  intro clock member
  exact same clock (List.mem_range.mp member)

theorem block_nibble_bit (bytes : Nat → BitVec 8) (index place : Nat) (bound : place < 4) :
    (blockNibble bytes index).getMsbD place = blockBit bytes (4 * index + place) := by
  have byte : (4 * index + place) / 8 = index / 2 := by omega
  unfold blockNibble blockBit
  by_cases even : index % 2 = 0
  · have bit : (4 * index + place) % 8 = place := by omega
    rw [if_pos even, byte, bit]
    interval_cases place <;> simp [BitVec.getMsbD]
  · have bit : (4 * index + place) % 8 = place + 4 := by omega
    rw [if_neg even, byte, bit]
    interval_cases place <;> simp [BitVec.getMsbD]

theorem block_word_bit (bytes : Nat → BitVec 8) (index place : Nat) (bound : place < 32) :
    (blockWord bytes index).getMsbD place = blockBit bytes (32 * index + place) := by
  have byte : (32 * index + place) / 8 = 4 * index + place / 8 := by omega
  have bit : (32 * index + place) % 8 = place % 8 := by omega
  change (bytes (4 * index) ++ bytes (4 * index + 1) ++ bytes (4 * index + 2) ++
    bytes (4 * index + 3)).getMsbD place = _
  simp only [BitVec.getMsbD_append, blockBit, byte, bit]
  interval_cases place <;> rfl

/-- A FIFO word is the corresponding 32 bits of the block. -/
theorem block_word_of_stream (bytes : Nat → BitVec 8) (stream : Nat → Bool) (group : Nat)
    (sent : ∀ place, place < 32 →
      stream (32 * group + place) = blockBit bytes (32 * group + place)) :
    streamWord 32 stream group = blockWord bytes group := by
  have shifted : streamWord 32 stream group =
      streamWord 32 (fun place => stream (32 * group + place)) 0 := by
    simp [streamWord]
  rw [shifted]
  apply stream_word_of_wire
  intro place bound
  rw [sent place bound, block_word_bit bytes group place bound]

end MinionSubsystem.SdBlock
