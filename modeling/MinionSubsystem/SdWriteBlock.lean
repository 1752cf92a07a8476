import MinionSubsystem.SdDataWrite

/-!
# What a write sends

The frame of `SdDataWrite` together with the words the transmit FIFO delivers.
On four lanes the frame is the block with its lane checks and every word is
popped once. On one lane the host sends six bits too many, divides them into
the check word, and pops one word too many.
-/

namespace MinionSubsystem.SdWriteBlock

open MinionSubsystem.BitStream
open MinionSubsystem.ClockedRun
open MinionSubsystem.CyclicCode
open MinionSubsystem.SdBlock
open MinionSubsystem.SdCrc
open MinionSubsystem.SdDataSerialHost
open MinionSubsystem.SdDataWrite

set_option autoImplicit false

variable {four : Bool} {total byteCount depth : Nat} {words : Nat → BitVec 32}
  {start : State} {inputs : Nat → Inputs}

/-- The transmit FIFO, an assumption on the input stream: behind every clock in
which `rd` pops one of the `depth` words, that word is on `data_in` before the
next edge and stays there until the following pop. -/
def FifoServes (words : Nat → BitVec 32) (depth : Nat) (start : State)
    (inputs : Nat → Inputs) : Prop :=
  ∀ clock index, index < depth →
    clocksHigh State.rd (run step start inputs) 1 clock = index + 1 →
    (inputs clock).dataIn = words index

def popped (four : Bool) (total count : Nat) : Nat :=
  if four then min count (total - 1) / 8 + 1 else (count + 2) / 32 + 1

theorem popped_succ (positive : 0 < total) (count : Nat) :
    popped four total (count + 1) =
      popped four total count + (popsAt four total (count + 1)).toNat := by
  unfold popped popsAt
  cases four with
  | true =>
      by_cases word : (count + 1) % 8 = 0 ∧ count + 1 < total
      · simp [word.1, word.2]
        omega
      · have quiet : (decide ((count + 1) % 8 = 0) && decide (count + 1 < total)) = false := by
          simpa using word
        simp only [quiet, if_true, Bool.toNat_false]
        omega
  | false =>
      by_cases word : (count + 1) % 32 = 30
      · simp [word]
        omega
      · simp [word]
        omega

theorem pops_so_far (request : WriteRequest four byteCount start inputs)
    (positive : 0 < dataClocks four byteCount) (count : Nat)
    (bound : count ≤ dataClocks four byteCount + 17) :
    clocksHigh State.rd (run step start inputs) 1 (count + 2) =
      popped four (dataClocks four byteCount) count := by
  induction count with
  | zero =>
      have armed := (request_armed request).rd
      have started := (driving_run request positive 0 (by omega)).rd
      rw [clocks_high_succ, clocks_high_succ, clocks_high_zero, armed, started]
      cases four <;> simp [popsAt, popped, positive]
  | succ count ih =>
      have driving := (driving_run request positive (count + 1) bound).rd
      have clock : 2 + (count + 1) = 1 + (count + 2) := by omega
      have window : count + 1 + 2 = count + 2 + 1 := by omega
      rw [clock] at driving
      rw [window, clocks_high_succ, ih (by omega), driving, popped_succ positive]

/-- The pops of a whole write: none behind the frame. -/
theorem pops_of_write (request : WriteRequest four byteCount start inputs)
    (positive : 0 < dataClocks four byteCount) :
    clocksHigh State.rd (run step start inputs) 1 (dataClocks four byteCount + 20) =
      popped four (dataClocks four byteCount) (dataClocks four byteCount + 17) := by
  have held := (held_run request positive).rd
  have clock : dataClocks four byteCount + 20 = 1 + (dataClocks four byteCount + 17 + 2) := by
    omega
  have window : dataClocks four byteCount + 20 = dataClocks four byteCount + 17 + 2 + 1 := by
    omega
  rw [clock] at held
  rw [window, clocks_high_succ, pops_so_far request positive _ (Nat.le_refl _), held]
  rfl

/-- The word the host serialises from, while the FIFO has one. -/
theorem word_on_data_in (request : WriteRequest four byteCount start inputs)
    (positive : 0 < dataClocks four byteCount) (fifo : FifoServes words depth start inputs)
    (count : Nat) (bound : count ≤ dataClocks four byteCount + 17) (index : Nat)
    (current : popped four (dataClocks four byteCount) count = index + 1)
    (filled : index < depth) : (inputs (2 + count)).dataIn = words index := by
  apply fifo (2 + count) index filled
  rw [Nat.add_comm, pops_so_far request positive count bound, current]

/-- The frame as a list: start, data, sixteen check clocks, then stop nibbles. -/
theorem frame_as_list (data : Nat → BitVec 4) (stops : Nat) :
    (List.range (total + 17 + stops)).map (frameNibble four total data) =
      [startNibble four] ++ (List.range total).map data ++
        (List.range 16).map (checkNibble four (laneCrc data total)) ++
        List.replicate stops 0xF := by
  have parts : total + 17 + stops = 1 + total + 16 + stops := by omega
  rw [parts, List.range_add, List.range_add, List.range_add]
  simp only [List.map_append, List.map_map]
  have sent : (List.range total).map (frameNibble four total data ∘ fun clock => 1 + clock) =
      (List.range total).map data := by
    apply List.map_congr_left
    intro clock member
    rw [Function.comp_apply, Nat.add_comm, frame_nibble_data (List.mem_range.mp member)]
  have checked : (List.range 16).map
      (frameNibble four total data ∘ fun clock => 1 + total + clock) =
        (List.range 16).map (checkNibble four (laneCrc data total)) := by
    apply List.map_congr_left
    intro clock member
    rw [Function.comp_apply, Nat.add_comm 1 total, frame_nibble_check (List.mem_range.mp member)]
  have stopped : (List.range stops).map
      (frameNibble four total data ∘ fun clock => 1 + total + 16 + clock) =
        List.replicate stops 0xF := by
    apply List.eq_replicate_iff.mpr
    refine ⟨by simp, ?_⟩
    intro nibble member
    rcases List.mem_map.mp member with ⟨clock, _, rfl⟩
    rw [Function.comp_apply, frame_nibble_stop (by omega)]
  rw [sent, checked, stopped]
  rfl

theorem crnt_din_nibble (i : Inputs) (s : State) (bus : s.bus4bitReg = true) :
    crntDin i s = i.dataIn.extractLsb' (28 - 4 * (s.dataIndex.toNat % 8)) 4 := by
  have place : s.dataIndex.toNat % 8 < 8 := Nat.mod_lt _ (by decide)
  apply BitVec.eq_of_getLsbD_eq
  intro index bound
  simp only [crntDin, bus, if_true]
  rw [concat_bits_getLsbD _ _ (by simpa using bound) bound, BitVec.getLsbD_extractLsb']
  have first : 28 - 4 * (s.dataIndex.toNat % 8) + 1 = 29 - 4 * (s.dataIndex.toNat % 8) := by omega
  have second : 28 - 4 * (s.dataIndex.toNat % 8) + 2 = 30 - 4 * (s.dataIndex.toNat % 8) := by omega
  have third : 28 - 4 * (s.dataIndex.toNat % 8) + 3 = 31 - 4 * (s.dataIndex.toNat % 8) := by omega
  interval_cases index
  · simp
  · simp [first]
  · simp [second]
  · simp [third]

theorem four_bit_data (request : WriteRequest true byteCount start inputs)
    (fifo : FifoServes words depth start inputs) (enough : (byteCount + 3) / 4 ≤ depth)
    (count : Nat) (inside : count < 2 * byteCount) :
    sentData start inputs count = wordNibble words count := by
  have positive : 0 < dataClocks true byteCount := by
    simp only [dataClocks, if_true]
    omega
  have frame : count ≤ dataClocks true byteCount + 17 := by
    simp only [dataClocks, if_true]
    omega
  have current : popped true (dataClocks true byteCount) count = count / 8 + 1 := by
    simp only [popped, dataClocks, if_true]
    omega
  have driving := driving_run request positive count frame
  have word := word_on_data_in request positive fifo count frame (count / 8) current (by omega)
  rw [sentData, crnt_din_nibble _ _ driving.bus, driving.dataIndex, word, wordNibble,
    Nat.mod_mod_of_dvd count (by decide)]

def fourLaneFrame (words : Nat → BitVec 32) (byteCount : Nat) : List (BitVec 4) :=
  [0x0] ++ (List.range (2 * byteCount)).map (wordNibble words) ++
    (List.range 16).map (fun index => concatBits 4
      [(laneCrc (wordNibble words) (2 * byteCount) 3).getMsbD index,
        (laneCrc (wordNibble words) (2 * byteCount) 2).getMsbD index,
        (laneCrc (wordNibble words) (2 * byteCount) 1).getMsbD index,
        (laneCrc (wordNibble words) (2 * byteCount) 0).getMsbD index]) ++
    [0xF, 0xF]

/-- A write on four lanes drives the frame of the first `byteCount` bytes of the
FIFO and nothing else, and pops each of their words once. Clock 0 is the edge
that accepts the request. -/
theorem four_bit_write (byteCount depth : Nat) (words : Nat → BitVec 32) (start : State)
    (inputs : Nat → Inputs) (nonempty : 1 ≤ byteCount)
    (enough : (byteCount + 3) / 4 ≤ depth)
    (request : WriteRequest true byteCount start inputs)
    (fifo : FifoServes words depth start inputs) :
    (∀ clock, 1 ≤ clock → clock ≤ 2 * byteCount + 21 →
      ((run step start inputs clock).datOeO = true ↔
        2 ≤ clock ∧ clock < 2 * byteCount + 21)) ∧
      observed State.datDatO (run step start inputs) 2 (2 * byteCount + 19) =
        fourLaneFrame words byteCount ∧
      clocksHigh State.rd (run step start inputs) 1 (2 * byteCount + 20) =
        (byteCount + 3) / 4 := by
  have clocks : dataClocks true byteCount = 2 * byteCount := rfl
  have positive : 0 < dataClocks true byteCount := by omega
  have window := drives_iff request positive
  have frame := frame_on_the_bus request positive
  have pops := pops_of_write request positive
  rw [clocks] at window frame pops
  refine ⟨window, ?_, ?_⟩
  · have sent : (List.range (2 * byteCount)).map (sentData start inputs) =
        (List.range (2 * byteCount)).map (wordNibble words) := by
      apply List.map_congr_left
      intro count member
      exact four_bit_data request fifo enough count (List.mem_range.mp member)
    have divided : laneCrc (sentData start inputs) (2 * byteCount) =
        laneCrc (wordNibble words) (2 * byteCount) := by
      funext lane
      apply congrArg crc16
      apply lane_bits_congr
      intro count before
      rw [four_bit_data request fifo enough count before]
    rw [frame, frame_as_list _ 2, sent, divided]
    rfl
  · rw [pops]
    simp only [popped, if_true]
    omega

private def popInputs (bus4bit : Bool) (clock : Nat) : Inputs where
  rst := false
  dataIn := 0x12345678
  datDatI := 0xF
  blksize := 4
  bus4bit := bus4bit
  start := if clock = 0 then 1 else 0
  timeoutI := 0

private theorem pop_request (bus4bit : Bool) :
    WriteRequest bus4bit 4 afterReset (popInputs bus4bit) where
  idle := rfl
  running := fun clock =>
    { released := rfl
      kept := by
        change (if clock = 0 then (1 : BitVec 2) else 0) ≠ 3
        split_ifs <;> decide }
  start := rfl
  bus := rfl
  blksize := rfl

private theorem pop_fifo (bus4bit : Bool) :
    FifoServes (fun _ => 0x12345678) 1 afterReset (popInputs bus4bit) :=
  fun _ _ _ _ => rfl

theorem four_bit_write_of_word :
    (∀ clock, 1 ≤ clock → clock ≤ 2 * 4 + 21 →
      ((run step afterReset (popInputs true) clock).datOeO = true ↔
        2 ≤ clock ∧ clock < 2 * 4 + 21)) ∧
      observed State.datDatO (run step afterReset (popInputs true)) 2 (2 * 4 + 19) =
        fourLaneFrame (fun _ => 0x12345678) 4 ∧
      clocksHigh State.rd (run step afterReset (popInputs true)) 1 (2 * 4 + 20) =
        (4 + 3) / 4 :=
  four_bit_write 4 1 (fun _ => 0x12345678) afterReset (popInputs true) (by decide) (by decide)
    (pop_request true) (pop_fifo true)

theorem check_nibble_bit (crc : Fin 4 → BitVec 16) (index : Nat) :
    (checkNibble false crc index).getLsbD 0 = (crc 0).getMsbD index := by
  simp only [checkNibble, Bool.false_eq_true, if_false]
  rw [concat_bits_getLsbD _ _ (by simp) (by decide)]
  rfl

def wordBit (words : Nat → BitVec 32) (index : Nat) : Bool :=
  (words (index / 32)).getMsbD (index % 32)

def wordBits (words : Nat → BitVec 32) (count : Nat) : List Bool :=
  (List.range count).map (wordBit words)

/-- `DAT0` of a write as it should be: start bit, data, check word, then ones. -/
def oneLaneFrame (data : List Bool) (ones : Nat) : List Bool :=
  [false] ++ data ++ wireBits (crc16 data) ++ List.replicate ones true

/-- A write that sends the whole block and pops its words, whichever clock it
releases the bus in. -/
def OneBitWriteDelivers (words : Nat → BitVec 32) (byteCount : Nat) (start : State)
    (inputs : Nat → Inputs) : Prop :=
  ∃ driven ones,
    (∀ clock, 1 ≤ clock → clock ≤ driven + 2 →
      ((run step start inputs clock).datOeO = true ↔ 2 ≤ clock ∧ clock < driven + 2)) ∧
    observed (fun s => s.datDatO.getLsbD 0) (run step start inputs) 2 driven =
      oneLaneFrame (wordBits words (8 * byteCount)) ones ∧
    clocksHigh State.rd (run step start inputs) 1 (driven + 1) = byteCount / 4

/-- The same frame in terms of the nibbles on the bus. -/
theorem one_lane_frame_nibbles (dat : Nat → BitVec 4) (count ones : Nat) :
    oneLaneFrame (laneBits dat 0 count) ones =
      (List.range (count + 17 + ones)).map fun clock =>
        (frameNibble false count dat clock).getLsbD 0 := by
  have frame : (List.range (count + 17 + ones)).map (frameNibble false count dat) = _ :=
    frame_as_list dat ones
  have nibbles := congrArg (List.map fun nibble : BitVec 4 => nibble.getLsbD 0) frame
  rw [List.map_map] at nibbles
  refine Eq.trans ?_ nibbles.symm
  have checked : (List.range 16).map ((fun nibble : BitVec 4 => nibble.getLsbD 0) ∘
      checkNibble false (laneCrc dat count)) = wireBits (crc16 (laneBits dat 0 count)) := by
    apply List.map_congr_left
    intro index _
    rw [Function.comp_apply, check_nibble_bit]
    rfl
  simp only [List.map_append, List.map_map, List.map_replicate, List.map_cons, List.map_nil]
  rw [checked]
  rfl

theorem crnt_din_bit (i : Inputs) (s : State) (bus : s.bus4bitReg = false) :
    (crntDin i s).getLsbD 0 = i.dataIn.getLsbD (31 - s.dataIndex.toNat) := by
  simp only [crntDin, bus, Bool.false_eq_true, if_false]
  rw [concat_bits_getLsbD _ _ (by simp) (by decide)]
  rfl

/-- On one lane `rd` comes two bits early: the last two bits of every word are
those of the next one. -/
theorem one_bit_data (request : WriteRequest false byteCount start inputs)
    (fifo : FifoServes words depth start inputs) (count : Nat)
    (inside : count < 8 * byteCount + 6) (filled : (count + 2) / 32 < depth) :
    (sentData start inputs count).getLsbD 0 =
      (words ((count + 2) / 32)).getMsbD (count % 32) := by
  have clocks : dataClocks false byteCount = 8 * byteCount + 6 := rfl
  have place : count % 32 < 32 := Nat.mod_lt _ (by decide)
  have driving := driving_run request (by omega) count (by omega)
  have word := word_on_data_in request (by omega) fifo count (by omega) ((count + 2) / 32)
    rfl filled
  rw [sentData, crnt_din_bit _ _ driving.bus, driving.dataIndex, word,
    BitVec.getMsbD_eq_getLsbD]
  simp only [place, decide_true, Bool.true_and]

theorem one_bit_pops (request : WriteRequest false byteCount start inputs)
    (aligned : 4 ∣ byteCount) :
    clocksHigh State.rd (run step start inputs) 1 (8 * byteCount + 26) = byteCount / 4 + 1 := by
  have clocks : dataClocks false byteCount = 8 * byteCount + 6 := rfl
  have pops := pops_of_write request (by omega)
  rw [clocks] at pops
  rw [pops]
  simp only [popped, Bool.false_eq_true, if_false]
  omega

/-- The bus is released in one clock only, so the driven window is known. -/
theorem driven_clocks (request : WriteRequest false byteCount start inputs) (driven : Nat)
    (window : ∀ clock, 1 ≤ clock → clock ≤ driven + 2 →
      ((run step start inputs clock).datOeO = true ↔ 2 ≤ clock ∧ clock < driven + 2)) :
    driven = 8 * byteCount + 25 := by
  have clocks : dataClocks false byteCount = 8 * byteCount + 6 := rfl
  have actual := drives_iff request (by omega)
  rw [clocks] at actual
  rcases Nat.lt_trichotomy driven (8 * byteCount + 25) with short | same | long
  · have claimed := window (driven + 2) (by omega) (Nat.le_refl _)
    rw [actual (driven + 2) (by omega) (by omega)] at claimed
    omega
  · exact same
  · have claimed := window (8 * byteCount + 6 + 21) (by omega) (by omega)
    rw [actual _ (by omega) (Nat.le_refl _)] at claimed
    omega

/-- Whatever the FIFO delivers, the bits driven are not those of a block: if the
six extra bits are the first six of its check word, the sixteen behind them end
in six zeros where the line should be back at 1. -/
theorem one_bit_frame_never (request : WriteRequest false byteCount start inputs)
    (dat : Nat → BitVec 4) (ones : Nat) :
    observed (fun s => s.datDatO.getLsbD 0) (run step start inputs) 2 (8 * byteCount + 25) ≠
      oneLaneFrame (laneBits dat 0 (8 * byteCount)) ones := by
  intro same
  have clocks : dataClocks false byteCount = 8 * byteCount + 6 := rfl
  have frame := frame_on_the_bus request (by omega)
  rw [clocks] at frame
  have bits := congrArg (List.map fun nibble : BitVec 4 => nibble.getLsbD 0) frame
  rw [observed, List.map_map, List.map_map] at bits
  rw [one_lane_frame_nibbles] at same
  have length := congrArg List.length (bits.symm.trans same)
  simp only [List.length_map, List.length_range] at length
  rw [← length] at same
  have driven := List.map_inj_left.mp (bits.symm.trans same)
  simp only [List.mem_range, Function.comp_apply] at driven
  have sent : laneBits (sentData start inputs) 0 (8 * byteCount + 6) =
      laneBits dat 0 (8 * byteCount) ++
        (List.range 6).map (laneCrc dat (8 * byteCount) 0).getMsbD := by
    rw [laneBits, List.range_add, List.map_append, List.map_map]
    congr 1
    · apply lane_bits_congr
      intro count before
      have bit := driven (count + 1) (by omega)
      rwa [frame_nibble_data (by omega), frame_nibble_data before] at bit
    · apply List.map_congr_left
      intro index member
      have bound := List.mem_range.mp member
      have bit := driven (8 * byteCount + 1 + index) (by omega)
      rw [frame_nibble_check (by omega), check_nibble_bit, Nat.add_right_comm,
        frame_nibble_data (by omega)] at bit
      exact bit
  have shifted : laneCrc (sentData start inputs) (8 * byteCount + 6) 0 =
      laneCrc dat (8 * byteCount) 0 <<< 6 :=
    (congrArg crc16 sent).trans (residue_own_bits taps16 (laneBits dat 0 (8 * byteCount)) 6)
  have last := driven (8 * byteCount + 6 + 1 + 10) (by omega)
  rw [frame_nibble_check (by decide), check_nibble_bit, shifted, frame_nibble_stop (by omega),
    BitVec.getMsbD_shiftLeft] at last
  simp at last

private theorem word_lane_bits (words : Nat → BitVec 32) (count : Nat) :
    wordBits words count =
      laneBits (fun index => (BitVec.ofBool (wordBit words index)).setWidth 4) 0 count := by
  apply List.map_congr_left
  intro index _
  simp

/-- No write on one lane sends its block and pops its words. -/
theorem one_bit_write_never (byteCount : Nat) (words : Nat → BitVec 32) (start : State)
    (inputs : Nat → Inputs) (request : WriteRequest false byteCount start inputs) :
    ¬OneBitWriteDelivers words byteCount start inputs := by
  rintro ⟨driven, ones, window, frame, _⟩
  rw [driven_clocks request driven window, word_lane_bits] at frame
  exact one_bit_frame_never request _ ones frame

theorem one_bit_write_of_word :
    ¬OneBitWriteDelivers (fun _ => 0x12345678) 4 afterReset (popInputs false) :=
  one_bit_write_never 4 (fun _ => 0x12345678) afterReset (popInputs false) (pop_request false)

/-- One word in the FIFO for four bytes: it is popped twice. -/
theorem one_bit_write_pops_twice :
    WriteRequest false 4 afterReset (popInputs false) ∧
      FifoServes (fun _ => 0x12345678) (4 / 4) afterReset (popInputs false) ∧
      clocksHigh State.rd (run step afterReset (popInputs false)) 1 58 = 2 ∧
      ¬OneBitWriteDelivers (fun _ => 0x12345678) 4 afterReset (popInputs false) := by
  have request := pop_request false
  have pops := one_bit_pops request (by decide)
  refine ⟨request, pop_fifo false, pops, ?_⟩
  rintro ⟨driven, ones, window, _, popsClaimed⟩
  rw [driven_clocks request driven window, pops] at popsClaimed
  exact absurd popsClaimed (by decide)

end MinionSubsystem.SdWriteBlock
