import MinionSubsystem.SectorRead

/-!
# The buffers of `sd_read_sector`

`queue_block_read` compares its count with the length of `iobuf`, so whatever the
controller does `iobuf` keeps within its 512 words. `sd_read_sector` then stores as
many words as were read; its argument `max` is compared with nothing.
-/

namespace MinionSubsystem.SectorBounds

open MinionSubsystem.ByteMemory
open MinionSubsystem.MinionDriver
open MinionSubsystem.SectorRead

set_option autoImplicit false

section Bounds

variable {Device : Type} {port : SdPort Device}

theorem drain_word_bounded (iobuflen : BitVec 32) (s : Drain Device)
    (room : s.cnt.toNat ≤ iobuflen.toNat) :
    (drainWord port iobuflen s).cnt.toNat ≤ iobuflen.toNat ∧
      ∀ place, iobuflen.toNat ≤ place →
        (drainWord port iobuflen s).iobuf place = s.iobuf place := by
  rw [drainWord]
  by_cases fits : s.cnt < iobuflen
  · have below : s.cnt.toNat < iobuflen.toNat := fits
    have limit := iobuflen.isLt
    rw [if_pos fits]
    constructor
    · change (s.cnt.toNat + 1) % 2 ^ 32 ≤ _
      rw [Nat.mod_eq_of_lt (by omega)]
      exact below
    · intro place outside
      exact Function.update_of_ne (by omega) _ _
  · rw [if_neg fits]
    exact ⟨room, fun _ _ => rfl⟩

theorem drain_loop_bounded (iobuflen : BitVec 32) (fuel : Nat) (s last : Drain Device)
    (room : s.cnt.toNat ≤ iobuflen.toNat) (ends : drainLoop port iobuflen fuel s = some last) :
    last.cnt.toNat ≤ iobuflen.toNat ∧
      ∀ place, iobuflen.toNat ≤ place → last.iobuf place = s.iobuf place := by
  induction fuel generalizing s with
  | zero => cases ends
  | succ fuel ih =>
      rw [drainLoop] at ends
      split_ifs at ends with more
      · have word : (drainWord port iobuflen s).cnt.toNat ≤ iobuflen.toNat ∧ _ :=
          drain_word_bounded iobuflen s room
        rcases word with ⟨fits, kept⟩
        rcases ih (drainWord port iobuflen s) fits ends with ⟨bounded, unchanged⟩
        refine ⟨bounded, fun place outside => ?_⟩
        rw [unchanged place outside, kept place outside]
      · rw [← Option.some.inj ends]
        exact ⟨room, fun _ _ => rfl⟩

theorem queue_block_read_bounded (fuel : Nat) (iobuf : Nat → BitVec 32) (iobuflen : BitVec 32)
    (device : Device) (last : Drain Device)
    (ends : queueBlockRead port fuel iobuf iobuflen device = some last) :
    last.cnt.toNat ≤ iobuflen.toNat ∧
      ∀ place, iobuflen.toNat ≤ place → last.iobuf place = iobuf place :=
  drain_loop_bounded iobuflen fuel { device := device, iobuf := iobuf, cnt := 0 } last
    (Nat.zero_le _) ends

/-- No controller and no FIFO makes `sd_read_sector` leave `iobuf`, or store more words than
`iobuf` has. -/
theorem sd_read_sector_bounded {fuel : Nat} {sect len : BitVec 32} {buf max : Nat}
    {m last : Machine Device}
    (returns : sdReadSector port fuel sect buf max m = some (len, last)) :
    len.toNat ≤ 512 ∧ (∀ place, 512 ≤ place → last.iobuf place = m.iobuf place) ∧
      ∀ address, buf + 4 * len.toNat ≤ address → last.memory address = m.memory address := by
  simp only [sdReadSector, Option.bind_eq_bind, Option.bind_eq_some_iff] at returns
  obtain ⟨commanded, _, drained, ends, closed, _, result⟩ := returns
  rcases queue_block_read_bounded fuel m.iobuf 512 commanded drained ends with ⟨few, kept⟩
  have pair := Prod.mk.inj (Option.some.inj result)
  rw [← pair.1, ← pair.2]
  refine ⟨few, kept, fun address behind => ?_⟩
  exact store_words_frame m.memory buf _ _ address (Or.inr behind)

/-- The call returns and stores nothing from `buf + max` on and nothing behind `iobuf`,
whatever is there. -/
def StoresWithin (port : SdPort Device) (fuel : Nat) (sect : BitVec 32) (buf : Nat) (max : Int)
    (m : Machine Device) : Prop :=
  ∀ (memory : Memory) (iobuf : Nat → BitVec 32),
    ∃ len last, sdReadSector port fuel sect buf max.toNat
        { m with memory := memory, iobuf := iobuf } = some (len, last) ∧
      (∀ address : Nat, buf + max ≤ address → last.memory address = memory address) ∧
      ∀ place, 512 ≤ place → last.iobuf place = iobuf place

variable {contents : Device → List (BitVec 32)} {fuel buf : Nat} {sect : BitVec 32} {max : Int}
  {m : Machine Device} {commanded : Device}

/-- A word with no room in front of `buf + max` is stored all the same. -/
theorem stores_beyond_max (serves : ServesFifo port contents)
    (finished : performAll port (accessesOf m.statics (sectorCalls sect)) m.device =
      some commanded)
    (enough : (contents commanded).length < fuel)
    (some : contents commanded ≠ []) (more : max < 4 * min (contents commanded).length 512) :
    ¬StoresWithin port fuel sect buf max m := by
  intro within
  have filled : 0 < (contents commanded).length := List.length_pos_iff.mpr some
  have inside : max.toNat < 4 * min (contents commanded).length 512 := by omega
  have listed : max.toNat / 4 < (contents commanded).length := by omega
  have place := Nat.div_add_mod max.toNat 4
  let byte := wordByte (toCpu ((contents commanded).get ⟨max.toNat / 4, listed⟩)) (max.toNat % 4)
  obtain ⟨len, last, result, kept, _⟩ := within (fun _ => ~~~byte) m.iobuf
  obtain ⟨stores, final, same, _, _, stored, _⟩ :=
    sd_read_sector_stores serves fuel sect buf max.toNat
      { m with memory := fun _ => ~~~byte } commanded finished enough
  have final_eq : final = last :=
    congrArg Prod.snd (Option.some.inj (same.symm.trans result))
  have written := stored (max.toNat / 4) _ (List.getElem?_eq_getElem listed) (by omega)
    (max.toNat % 4) (Nat.mod_lt _ (by decide))
  rw [place, final_eq, kept (buf + max.toNat) (by omega)] at written
  have bit := congrArg (fun value => BitVec.getLsbD value 0) written
  change (~~~byte).getLsbD 0 = byte.getLsbD 0 at bit
  rw [BitVec.getLsbD_not] at bit
  cases low : byte.getLsbD 0 <;> rw [low] at bit <;> cases bit

/-- `sd_read_sector` keeps within `max` bytes if and only if the words that the FIFO holds
at the drain, 512 at most, have room there. -/
theorem stores_within_iff (port : SdPort Device) (contents : Device → List (BitVec 32))
    (serves : ServesFifo port contents) (fuel buf : Nat) (sect : BitVec 32) (max : Int)
    (m : Machine Device) (commanded : Device)
    (finished : performAll port (accessesOf m.statics (sectorCalls sect)) m.device =
      some commanded)
    (enough : (contents commanded).length < fuel) :
    StoresWithin port fuel sect buf max m ↔
      contents commanded = [] ∨ 4 * min (contents commanded).length 512 ≤ max := by
  constructor
  · intro within
    by_contra neither
    rcases not_or.mp neither with ⟨some, more⟩
    exact stores_beyond_max serves finished enough some (by omega) within
  · intro room memory iobuf
    obtain ⟨len, last, result, total, _, _, kept⟩ :=
      sd_read_sector_stores serves fuel sect buf max.toNat
        { m with memory := memory, iobuf := iobuf } commanded finished enough
    refine ⟨len, last, result, ?_, (sd_read_sector_bounded result).2.1⟩
    intro address behind
    apply kept
    rcases room with none | fits
    · rw [none]
      change address < buf ∨ buf + 0 ≤ address
      omega
    · omega

end Bounds

/-- A controller that answers at once and changes nothing. -/
private def idlePort : SdPort RxFifo where
  perform := fun _ fifo => some fifo
  sdStat := RxFifo.status
  storeRxFifo := RxFifo.store
  loadRxFifo := RxFifo.out

private theorem idle_port_serves : ServesFifo idlePort RxFifo.contents :=
  rx_fifo_serves id idlePort (fun _ => rfl) (fun _ => rfl) (fun _ => rfl)

private def filledMachine (words : Nat) : Machine RxFifo where
  device := { contents := List.replicate words 0x12345678, out := 0 }
  statics := { minionUartHostControl := 2, minionUartTransferMode := 0 }
  iobuf := fun _ => 0
  memory := fun _ => 0

private theorem filled_length (words : Nat) :
    ((filledMachine words).device.contents).length = words := List.length_replicate

theorem stores_within_iff_two_words :
    StoresWithin idlePort 600 7 0x2000 8 (filledMachine 2) ↔
      (filledMachine 2).device.contents = [] ∨
        4 * min ((filledMachine 2).device.contents.length : Int) (512 : Nat) ≤ 8 :=
  stores_within_iff idlePort RxFifo.contents idle_port_serves 600 0x2000 7 8 (filledMachine 2)
    (filledMachine 2).device rfl (by decide)

/-- One word left over from an earlier transfer and a block of 512 bytes. -/
theorem leftover_word_stored_behind :
    ¬StoresWithin idlePort 600 7 0x2000 512 (filledMachine 129) := by
  have length := filled_length 129
  have finished : performAll idlePort
      (accessesOf (filledMachine 129).statics (sectorCalls 7)) (filledMachine 129).device =
        some (filledMachine 129).device := rfl
  refine stores_beyond_max idle_port_serves finished ?_ ?_ ?_
  · rw [length]
    decide
  · exact List.length_pos_iff.mp (by rw [length]; decide)
  · rw [length]
    decide

end MinionSubsystem.SectorBounds
