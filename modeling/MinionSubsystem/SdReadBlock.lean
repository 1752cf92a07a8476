import MinionSubsystem.SdDataRead

/-!
# What a read delivers

From the phase invariants of `SdDataRead`: the words a read pushes into the
receive FIFO and the lane checks it ends with. On four lanes both are those of
the block the card sent. On one lane the words are, but the host divides six of
the check bits as data and takes six bits of the line behind the check word for
check bits.
-/

namespace MinionSubsystem.SdReadBlock

open MinionSubsystem.BitStream
open MinionSubsystem.ClockedRun
open MinionSubsystem.CyclicCode
open MinionSubsystem.SdBlock
open MinionSubsystem.SdCrc
open MinionSubsystem.SdDataSerialHost
open MinionSubsystem.SdDataRead

set_option autoImplicit false

variable {four : Bool} {byteCount gap : Nat} {start : State} {inputs : Nat → Inputs}

/-- An abort can leave a finished word pending in `IDLE`; the clock that leaves
`IDLE` pushes a zero for it. -/
def leftover (start : State) : List (BitVec 32) := if start.we then [0] else []

/-- Any clock spent in `IDLE` drops a pending word. -/
theorem idle_clock_drops_pending (i : Inputs) (s : State) (running : Running i)
    (idle : s.state = .idle) : leftover (step i s) = [] := by
  rw [step_running i s running]
  simp only [caseEdge, idle]
  rfl

theorem read_leaves_idle (request : ReadRequest four byteCount gap start inputs)
    (silent : ∀ clock, clock < gap → (inputs clock).datDatI.getLsbD 0 = true)
    (started : (inputs gap).datDatI.getLsbD 0 = false) (clock : Nat) (after : 1 ≤ clock) :
    (run step start inputs clock).state ≠ .idle := by
  by_cases waits : clock ≤ gap + 1
  · have phase := (waiting_run request silent (clock - 1) (by omega)).1.state
    rw [Nat.add_sub_cancel' after] at phase
    rw [phase]
    decide
  by_cases reads : clock ≤ gap + 2 + dataClocks four byteCount
  · have phase := (reading_run request silent started (clock - (gap + 2)) (by omega)).state
    rw [Nat.add_sub_cancel' (by omega)] at phase
    rw [phase]
    decide
  by_cases checks : clock ≤ gap + 2 + dataClocks four byteCount + 16
  · have phase := (checking_run request silent started
      (clock - (gap + 2 + dataClocks four byteCount)) (by omega)).state
    rw [Nat.add_sub_cancel' (by omega)] at phase
    rw [phase]
    decide
  · have phase := (finished_run request silent started clock (by omega)).state
    rw [phase]
    decide

/-- Behind the data no further word is pending. -/
theorem nothing_pending_after (request : ReadRequest four byteCount gap start inputs)
    (silent : ∀ clock, clock < gap → (inputs clock).datDatI.getLsbD 0 = true)
    (started : (inputs gap).datDatI.getLsbD 0 = false) (clock : Nat)
    (after : gap + 2 + dataClocks four byteCount < clock) :
    (run step start inputs clock).we = false := by
  by_cases checks : clock ≤ gap + 2 + dataClocks four byteCount + 16
  · have phase := (checking_run request silent started
      (clock - (gap + 2 + dataClocks four byteCount)) (by omega)).we (by omega)
    rw [Nat.add_sub_cancel' (by omega)] at phase
    exact phase
  · exact (finished_run request silent started clock (by omega)).we

theorem pushes_of_read (request : ReadRequest four byteCount gap start inputs)
    (silent : ∀ clock, clock < gap → (inputs clock).datDatI.getLsbD 0 = true)
    (started : (inputs gap).datDatI.getLsbD 0 = false) (later : Nat)
    (past : gap + dataClocks four byteCount + 19 ≤ later) :
    transferred push (run step start inputs) 1 later =
      leftover start ++
        (List.range (bitsPerClock four * dataClocks four byteCount / 32)).map
          (streamWord 32 (wireBit four fun clock => (inputs (gap + 1 + clock)).datDatI)) := by
  have running : ∀ clock, Running (inputs clock) := fun clock =>
    ⟨request.released clock, by rw [request.start clock]; decide⟩
  have first : (push (run step start inputs 1)).toList = leftover start := by
    have edge : run step start inputs 1 = negedge (idleEdge (inputs 0) start) := by
      rw [run_succ, run_zero, step_running _ _ (running 0)]
      simp only [caseEdge, request.idle]
    rw [edge]
    cases pendingWord : start.we <;>
      simp [push, negedge, idleEdge, sample, leftover, pendingWord]
  have delayed : transferred push (run step start inputs) 2 (later - 1) =
      transferred pending (run step start inputs) 1 (later - 1) := by
    apply transferred_delayed
    intro offset _
    have active := read_leaves_idle request silent started (1 + offset) (by omega)
    have pushed := step_pushes (inputs (1 + offset)) _ (running _) active
    rw [run_succ, push, pushed.1, pushed.2]
    cases word : (run step start inputs (1 + offset)).we <;> simp [sample, pending, word]
  have tail : transferred pending (run step start inputs) 1 (later - 1) =
      transferred pending (run step start inputs) 1 (gap + 2 + dataClocks four byteCount) := by
    have behind : gap + 2 + dataClocks four byteCount ≤ later - 1 := by omega
    obtain ⟨extra, length⟩ := Nat.exists_eq_add_of_le behind
    rw [length]
    apply transferred_silent
    intro offset _
    have quiet := nothing_pending_after request silent started
      (1 + (gap + 2 + dataClocks four byteCount) + offset) (by omega)
    simp [pending, quiet]
  have window : later = later - 1 + 1 := by omega
  rw [window, transferred_first, first, delayed, tail,
    words_pending request silent started _ (Nat.le_refl _)]

theorem four_lanes_silent {dat : Nat → BitVec 4} {bytes : Nat → BitVec 8}
    {checks : Fin 4 → BitVec 16} (card : CardSends dat gap byteCount bytes checks) :
    (∀ clock, clock < gap → (dat clock).getLsbD 0 = true) ∧ (dat gap).getLsbD 0 = false := by
  constructor
  · intro clock before
    rw [card.idle clock before]
    decide
  · rw [card.startBit]
    decide

theorem pushes_of_block (aligned : 4 ∣ byteCount) {bytes : Nat → BitVec 8}
    {checks : Fin 4 → BitVec 16} (request : ReadRequest true byteCount gap start inputs)
    (card : CardSends (fun clock => (inputs clock).datDatI) gap byteCount bytes checks)
    (later : Nat) (past : gap + 2 * byteCount + 19 ≤ later) :
    transferred push (run step start inputs) 1 later =
      leftover start ++ (List.range (byteCount / 4)).map (blockWord bytes) := by
  rcases four_lanes_silent card with ⟨silent, started⟩
  rw [pushes_of_read request silent started later (by simpa [dataClocks] using past)]
  apply congrArg
  have count : 4 * (2 * byteCount) / 32 = byteCount / 4 := by omega
  simp only [dataClocks, bitsPerClock, if_true]
  rw [count]
  apply List.map_congr_left
  intro group member
  have bound := List.mem_range.mp member
  apply block_word_of_stream
  intro place inside
  have nibble := card.data ((32 * group + place) / 4) (by omega)
  simp only [wireBit, if_true]
  rw [nibble, block_nibble_bit _ _ _ (Nat.mod_lt _ (by decide)), Nat.div_add_mod]

/-- What a read on four lanes is expected to do with the block the card sent. -/
def FourBitReadDelivers (byteCount : Nat) (bytes : Nat → BitVec 8) (checks : Fin 4 → BitVec 16)
    (start : State) (inputs : Nat → Inputs) (later : Nat) : Prop :=
  (run step start inputs later).state = .finish ∧
    transferred push (run step start inputs) 1 later =
      (List.range (byteCount / 4)).map (blockWord bytes) ∧
    ∀ lane : Fin 4, (run step start inputs later).crcLaneOk.getLsbD lane = true ↔
      checks lane = crc16 (laneBits (blockNibble bytes) lane (2 * byteCount))

theorem leftover_none (start : State) : leftover start = [] ↔ start.we = false := by
  rw [leftover]
  cases start.we <;> simp

/-- On four lanes every lane is judged by the CRC-16 of its bits. -/
theorem four_bit_lane_check {bytes : Nat → BitVec 8} {checks : Fin 4 → BitVec 16}
    (request : ReadRequest true byteCount gap start inputs)
    (card : CardSends (fun clock => (inputs clock).datDatI) gap byteCount bytes checks)
    (later : Nat) (past : gap + 2 * byteCount + 19 ≤ later) (lane : Fin 4) :
    (run step start inputs later).crcLaneOk.getLsbD lane = true ↔
      checks lane = crc16 (laneBits (blockNibble bytes) lane (2 * byteCount)) := by
  rcases four_lanes_silent card with ⟨silent, started⟩
  have finished := finished_run request silent started later (by simpa [dataClocks] using past)
  have received : streamWord 16 (fun clock =>
      (inputs (gap + 1 + (2 * byteCount + clock))).datDatI.getLsbD lane) 0 = checks lane := by
    apply stream_word_of_wire
    intro place inside
    rw [← Nat.add_assoc]
    exact card.check place inside lane
  have sent : laneBits (fun clock => (inputs (gap + 1 + clock)).datDatI) lane (2 * byteCount) =
      laneBits (blockNibble bytes) lane (2 * byteCount) := by
    apply lane_bits_congr
    intro clock before
    exact congrArg (fun nibble => nibble.getLsbD lane) (card.data clock before)
  have compared := finished.crcLaneOk lane
  simp only [dataClocks, if_true] at compared
  rw [compared, received, sent, decide_eq_true_iff]
  exact eq_comm

/-- A read on four lanes pushes the block, word by word, and judges every lane by its
CRC-16, if and only if no word of an earlier read is pending when it starts. -/
theorem four_bit_read (byteCount gap : Nat) (bytes : Nat → BitVec 8)
    (checks : Fin 4 → BitVec 16) (start : State) (inputs : Nat → Inputs)
    (aligned : 4 ∣ byteCount)
    (request : ReadRequest true byteCount gap start inputs)
    (card : CardSends (fun clock => (inputs clock).datDatI) gap byteCount bytes checks)
    (later : Nat) (past : gap + 2 * byteCount + 19 ≤ later) :
    FourBitReadDelivers byteCount bytes checks start inputs later ↔ start.we = false := by
  rcases four_lanes_silent card with ⟨silent, started⟩
  have finished := finished_run request silent started later (by simpa [dataClocks] using past)
  have pushes := pushes_of_block aligned request card later past
  rw [← leftover_none, FourBitReadDelivers, pushes]
  constructor
  · rintro ⟨_, words, _⟩
    exact List.append_left_eq_self.mp words
  · intro nothing
    rw [nothing]
    exact ⟨finished.state, rfl, four_bit_lane_check request card later past⟩

private def textInputs (clock : Nat) : Inputs where
  rst := false
  dataIn := 0
  datDatI :=
    if clock < 3 then 0xF
    else if clock = 3 then 0
    else if clock < 12 then blockNibble (fun index => BitVec.ofNat 8 (32 + index)) (clock - 4)
    else 0xF
  blksize := 4
  bus4bit := true
  start := 2
  timeoutI := 14

private theorem text_card : CardSends (fun clock => (textInputs clock).datDatI) 3 4
    (fun index => BitVec.ofNat 8 (32 + index)) (fun _ => 0xFFFF) where
  idle := fun clock before => by simp [textInputs, before]
  startBit := rfl
  data := by decide
  check := by decide

private theorem text_request (start : State) (idle : start.state = .idle) :
    ReadRequest true 4 3 start textInputs where
  idle := idle
  released := fun _ => rfl
  start := fun _ => rfl
  bus := rfl
  blksize := rfl
  ready := by decide
  patient := by decide

theorem four_bit_read_of_text :
    FourBitReadDelivers 4 (fun index => BitVec.ofNat 8 (32 + index)) (fun _ => 0xFFFF)
      afterReset textInputs 30 ↔ afterReset.we = false :=
  four_bit_read 4 3 (fun index => BitVec.ofNat 8 (32 + index)) (fun _ => 0xFFFF)
    afterReset textInputs (by decide) (text_request afterReset rfl) text_card 30 (by decide)

/-- A read of one word, aborted in the clock that completes the word. -/
private def cutShort (clock : Nat) : Inputs where
  rst := false
  dataIn := 0
  datDatI := if clock < 4 then 0xF else 0
  blksize := 4
  bus4bit := true
  start := if clock = 13 then 3 else 2
  timeoutI := 14

/-- A read that is requested right behind the abort pushes two words for a block of one. -/
theorem four_bit_read_behind_abort :
    ReadRequest true 4 3 (run step afterReset cutShort 14) textInputs ∧
      CardSends (fun clock => (textInputs clock).datDatI) 3 4
        (fun index => BitVec.ofNat 8 (32 + index)) (fun _ => 0xFFFF) ∧
      (transferred push (run step (run step afterReset cutShort 14) textInputs) 1 30).length = 2 ∧
      ¬FourBitReadDelivers 4 (fun index => BitVec.ofNat 8 (32 + index)) (fun _ => 0xFFFF)
        (run step afterReset cutShort 14) textInputs 30 := by
  have idle : (run step afterReset cutShort 14).state = .idle := by decide +kernel
  have pendingWord : (run step afterReset cutShort 14).we = true := by decide +kernel
  have request := text_request _ idle
  have pushes := pushes_of_block (by decide) request text_card 30 (by decide)
  have one : leftover (run step afterReset cutShort 14) = [0] := by
    rw [leftover, pendingWord]
    rfl
  rw [one] at pushes
  refine ⟨request, text_card, by rw [pushes]; rfl, ?_⟩
  rintro ⟨_, words, _⟩
  rw [pushes] at words
  exact absurd (congrArg List.length words) (by decide)

def blockBits (bytes : Nat → BitVec 8) (byteCount : Nat) : List Bool :=
  (List.range (8 * byteCount)).map (blockBit bytes)

/-- What `DAT0` shows in the six clocks behind the check word. -/
def lineAfterCheck (dat : Nat → BitVec 4) (gap byteCount : Nat) : BitVec 6 :=
  streamWord 6 (fun index => (dat (gap + 1 + 8 * byteCount + 16 + index)).getLsbD 0) 0

/-- The word that reaches `crc_din[0]`: the check word without its first six
bits, then six bits of the line. -/
def shiftedCheck (check : BitVec 16) (line : BitVec 6) : BitVec 16 :=
  check.extractLsb' 0 10 ++ line

theorem kept_check_bit (check : BitVec 16) (index : Nat) (bound : index < 10) :
    (check.extractLsb' 0 10).getMsbD index = check.getMsbD (6 + index) := by
  have inside : 6 + index < 16 := by omega
  have position : 9 - index < 10 := by omega
  have mirrored : 15 - (6 + index) = 9 - index := by omega
  simp only [BitVec.getMsbD, BitVec.getLsbD_extractLsb']
  simp [bound, inside, position, mirrored]

theorem shifted_check_bit (check : BitVec 16) (line : BitVec 6) (place : Nat) :
    (shiftedCheck check line).getMsbD place =
      if place < 10 then check.getMsbD (6 + place) else line.getMsbD (place - 10) := by
  change (check.extractLsb' 0 10 ++ line).getMsbD place = _
  rw [BitVec.getMsbD_append]
  by_cases checkBit : place < 10
  · rw [if_neg (by omega), if_pos checkBit, kept_check_bit check place checkBit]
  · rw [if_pos (by omega), if_neg checkBit]

theorem check_word_split (check : BitVec 16) :
    wireBits check =
      (List.range 6).map check.getMsbD ++ wireBits (check.extractLsb' 0 10) := by
  have indices : List.range 16 = List.range 6 ++ (List.range 10).map (6 + ·) := rfl
  rw [wireBits, indices, List.map_append, List.map_map]
  congr 1
  apply List.map_congr_left
  intro index member
  exact (kept_check_bit check index (List.mem_range.mp member)).symm

theorem padded_line_bit (line : BitVec 6) (place : Nat) :
    (line ++ 0#10).getMsbD place = (wireBits line).getD place false := by
  rw [BitVec.getMsbD_append]
  by_cases lineBit : place < 6
  · rw [if_neg (by omega), wire_bits_getD _ _ lineBit]
  · rw [if_pos (by omega), List.getD_eq_default _ _ (by simp; omega)]
    simp

theorem padded_line_zero (line : BitVec 6) : line ++ 0#10 = 0 ↔ line = 0 := by
  constructor
  · intro zero
    apply BitVec.eq_of_getMsbD_eq
    intro place bound
    have bit := padded_line_bit line place
    rw [wire_bits_getD _ _ bound, zero] at bit
    simpa using bit.symm
  · intro zero
    rw [zero]
    rfl

/-- The shifted comparison asks for a remainder of block and check word that the six
bits of the line would move out. -/
theorem shifted_comparison (message : List Bool) (check : BitVec 16) (line : BitVec 6) :
    crc16 (message ++ (List.range 6).map check.getMsbD) = shiftedCheck check line ↔
      crc16 (message ++ wireBits check) = line ++ 0#10 := by
  have divided := residue_check taps16 rfl (message ++ (List.range 6).map check.getMsbD)
    (shiftedCheck check line)
  have moved := feed_clears_iff taps16 (crc16 (message ++ wireBits check)) rfl (wireBits line)
    (by simp)
  have shifted : wireBits (shiftedCheck check line) =
      wireBits (check.extractLsb' 0 10) ++ wireBits line := wire_bits_append _ _
  have same : message ++ (List.range 6).map check.getMsbD ++ wireBits (shiftedCheck check line) =
      message ++ wireBits check ++ wireBits line := by
    rw [shifted, check_word_split]
    simp only [List.append_assoc]
  rw [same, residue_append] at divided
  refine eq_comm.trans (divided.symm.trans (moved.trans ?_))
  constructor
  · intro padded
    apply BitVec.eq_of_getMsbD_eq
    intro place bound
    rw [padded place bound, ← padded_line_bit]
  · intro remainder place _
    rw [remainder, ← padded_line_bit]

section OneLane

variable {bytes : Nat → BitVec 8} {check : BitVec 16}

/-- What decides `crc_lane_ok[0]` on one lane. -/
theorem one_bit_lane_check (request : ReadRequest false byteCount gap start inputs)
    (card : CardSendsBits (fun clock => (inputs clock).datDatI) gap byteCount bytes check)
    (later : Nat) (past : gap + (8 * byteCount + 6) + 19 ≤ later) :
    (run step start inputs later).crcLaneOk.getLsbD 0 = true ↔
      crc16 (blockBits bytes byteCount ++ wireBits check) =
        lineAfterCheck (fun clock => (inputs clock).datDatI) gap byteCount ++ 0#10 := by
  have finished := finished_run request card.idle card.startBit later
    (by simpa [dataClocks] using past)
  have compared := finished.crcLaneOk 0
  have divided : laneBits (fun clock => (inputs (gap + 1 + clock)).datDatI) 0
      (8 * byteCount + 6) =
        blockBits bytes byteCount ++ (List.range 6).map check.getMsbD := by
    rw [laneBits, List.range_add, List.map_append, List.map_map, blockBits]
    congr 1
    · apply List.map_congr_left
      intro index member
      exact card.data index (List.mem_range.mp member)
    · apply List.map_congr_left
      intro index member
      have bound := List.mem_range.mp member
      have sent := card.check index (by omega)
      rw [Nat.add_assoc] at sent
      exact sent
  have received : streamWord 16 (fun clock =>
      (inputs (gap + 1 + (8 * byteCount + 6 + clock))).datDatI.getLsbD 0) 0 =
        shiftedCheck check
          (lineAfterCheck (fun clock => (inputs clock).datDatI) gap byteCount) := by
    apply stream_word_of_wire
    intro place inside
    rw [shifted_check_bit check _ place]
    by_cases checkBit : place < 10
    · rw [if_pos checkBit, ← card.check (6 + place) (by omega)]
      apply congrArg (fun clock => (inputs clock).datDatI.getLsbD 0)
      omega
    · have lineBit : place - 10 < 6 := by omega
      rw [if_neg checkBit, BitVec.getMsbD_eq_getLsbD]
      simp only [lineBit, decide_true, Bool.true_and, lineAfterCheck]
      rw [stream_word_getLsbD _ _ _ (by omega)]
      apply congrArg (fun clock => (inputs clock).datDatI.getLsbD 0)
      omega
  simp only [dataClocks, Bool.false_eq_true, if_false, Fin.val_zero] at compared
  rw [compared, divided, received, decide_eq_true_iff, shifted_comparison]

/-- What a read on one lane is expected to do with the block the card sent. -/
def OneBitReadDelivers (byteCount : Nat) (bytes : Nat → BitVec 8) (check : BitVec 16)
    (start : State) (inputs : Nat → Inputs) (later : Nat) : Prop :=
  (run step start inputs later).state = .finish ∧
    transferred push (run step start inputs) 1 later =
      (List.range (byteCount / 4)).map (blockWord bytes) ∧
    ((run step start inputs later).crcLaneOk.getLsbD 0 = true ↔
      check = crc16 (blockBits bytes byteCount))

/-- When the shifted comparison still gives the verdict on the block: the line is 0
behind the check word, or the check word is wrong and the remainder of block and
check word is not just the six bits of the line followed by zeros. -/
def ShiftHarmless (byteCount : Nat) (bytes : Nat → BitVec 8) (check : BitVec 16)
    (line : BitVec 6) : Prop :=
  line = 0 ∨
    check ≠ crc16 (blockBits bytes byteCount) ∧
      crc16 (blockBits bytes byteCount ++ wireBits check) ≠ line ++ 0#10

/-- Every good block that is followed by a 1 within six clocks, as an end bit
follows it at once, is reported as corrupted. -/
theorem one_bit_read_rejects (request : ReadRequest false byteCount gap start inputs)
    (card : CardSendsBits (fun clock => (inputs clock).datDatI) gap byteCount bytes check)
    (right : check = crc16 (blockBits bytes byteCount))
    (line : lineAfterCheck (fun clock => (inputs clock).datDatI) gap byteCount ≠ 0)
    (later : Nat) (past : gap + (8 * byteCount + 6) + 19 ≤ later) :
    (run step start inputs later).crcLaneOk.getLsbD 0 = false := by
  have divisible := (residue_check taps16 rfl (blockBits bytes byteCount) check).mpr right
  rw [← Bool.not_eq_true, one_bit_lane_check request card later past]
  intro accepted
  exact line ((padded_line_zero _).mp (accepted.symm.trans divisible))

/-- The verdict on one lane is that on the block exactly when the six clocks between the
two comparisons do no harm. -/
theorem one_bit_verdict (request : ReadRequest false byteCount gap start inputs)
    (card : CardSendsBits (fun clock => (inputs clock).datDatI) gap byteCount bytes check)
    (later : Nat) (past : gap + (8 * byteCount + 6) + 19 ≤ later) :
    ((run step start inputs later).crcLaneOk.getLsbD 0 = true ↔
        check = crc16 (blockBits bytes byteCount)) ↔
      ShiftHarmless byteCount bytes check
        (lineAfterCheck (fun clock => (inputs clock).datDatI) gap byteCount) := by
  have judged := one_bit_lane_check request card later past
  have divisible := residue_check taps16 rfl (blockBits bytes byteCount) check
  rw [judged, ShiftHarmless]
  by_cases low : lineAfterCheck (fun clock => (inputs clock).datDatI) gap byteCount = 0
  · rw [(padded_line_zero _).mpr low]
    exact ⟨fun _ => Or.inl low, fun _ => divisible⟩
  · by_cases right : check = crc16 (blockBits bytes byteCount)
    · -- the remainder is 0 and cannot be the bits of the line
      have remainder : crc16 (blockBits bytes byteCount ++ wireBits check) = 0 :=
        divisible.mpr right
      have refused : ¬(0 : BitVec 16) =
          lineAfterCheck (fun clock => (inputs clock).datDatI) gap byteCount ++ 0#10 :=
        fun zero => low ((padded_line_zero _).mp zero.symm)
      rw [remainder]
      constructor
      · intro verdict
        exact absurd (verdict.mpr right) refused
      · rintro (zero | ⟨wrong, _⟩)
        · exact absurd zero low
        · exact absurd right wrong
    · constructor
      · intro verdict
        exact Or.inr ⟨right, fun accepted => right (verdict.mp accepted)⟩
      · rintro (zero | ⟨_, refused⟩)
        · exact absurd zero low
        · exact iff_of_false refused right

/-- A read on one lane delivers the block exactly when no word of an earlier read is pending
and the six clocks between the two comparisons do no harm to the verdict. -/
theorem one_bit_read_exact (byteCount gap : Nat) (bytes : Nat → BitVec 8)
    (check : BitVec 16) (start : State) (inputs : Nat → Inputs)
    (aligned : 4 ∣ byteCount)
    (request : ReadRequest false byteCount gap start inputs)
    (card : CardSendsBits (fun clock => (inputs clock).datDatI) gap byteCount bytes check)
    (later : Nat) (past : gap + (8 * byteCount + 6) + 19 ≤ later) :
    OneBitReadDelivers byteCount bytes check start inputs later ↔
      start.we = false ∧ ShiftHarmless byteCount bytes check
        (lineAfterCheck (fun clock => (inputs clock).datDatI) gap byteCount) := by
  have finished := finished_run request card.idle card.startBit later
    (by simpa [dataClocks] using past)
  have pushes := pushes_of_read request card.idle card.startBit later
    (by simpa [dataClocks] using past)
  have words : (List.range (bitsPerClock false * dataClocks false byteCount / 32)).map
      (streamWord 32 (wireBit false fun clock => (inputs (gap + 1 + clock)).datDatI)) =
        (List.range (byteCount / 4)).map (blockWord bytes) := by
    have count : 1 * (8 * byteCount + 6) / 32 = byteCount / 4 := by omega
    simp only [dataClocks, bitsPerClock, Bool.false_eq_true, if_false]
    rw [count]
    apply List.map_congr_left
    intro group member
    have bound := List.mem_range.mp member
    apply block_word_of_stream
    intro place inside
    exact card.data (32 * group + place) (by omega)
  rw [OneBitReadDelivers, pushes, words, one_bit_verdict request card later past,
    List.append_left_eq_self, leftover_none]
  exact and_iff_right finished.state

private def idleLineInputs (clock : Nat) : Inputs where
  rst := false
  dataIn := 0
  datDatI := if 3 ≤ clock ∧ clock < 52 then 0 else 0xF
  blksize := 4
  bus4bit := false
  start := 2
  timeoutI := 14

private theorem idle_line_request : ReadRequest false 4 3 afterReset idleLineInputs where
  idle := rfl
  released := fun _ => rfl
  start := fun _ => rfl
  bus := rfl
  blksize := rfl
  ready := by decide
  patient := by decide

private theorem idle_line_card :
    CardSendsBits (fun clock => (idleLineInputs clock).datDatI) 3 4 (fun _ => 0) 0 where
  idle := by
    intro clock before
    have early : ¬3 ≤ clock := by omega
    simp [idleLineInputs, early]
  startBit := rfl
  data := by decide
  check := by decide

theorem one_bit_read_of_zero_block :
    OneBitReadDelivers 4 (fun _ => 0) 0 afterReset idleLineInputs 60 ↔
      afterReset.we = false ∧ ShiftHarmless 4 (fun _ => 0) 0
        (lineAfterCheck (fun clock => (idleLineInputs clock).datDatI) 3 4) :=
  one_bit_read_exact 4 3 (fun _ => 0) 0 afterReset idleLineInputs (by decide)
    idle_line_request idle_line_card 60 (by decide)

/-- A block of four zero bytes with its right check word, on a line that returns
to 1 behind it, is reported as corrupted. -/
theorem one_bit_read_rejects_good_block :
    ReadRequest false 4 3 afterReset idleLineInputs ∧
      CardSendsBits (fun clock => (idleLineInputs clock).datDatI) 3 4 (fun _ => 0) 0 ∧
      (0 : BitVec 16) = crc16 (blockBits (fun _ => 0) 4) ∧
      (run step afterReset idleLineInputs 60).crcLaneOk.getLsbD 0 = false ∧
      ¬OneBitReadDelivers 4 (fun _ => 0) 0 afterReset idleLineInputs 60 := by
  have right : (0 : BitVec 16) = crc16 (blockBits (fun _ => 0) 4) := by decide
  have rejected : ¬(run step afterReset idleLineInputs 60).crcLaneOk.getLsbD 0 = true := by
    rw [one_bit_lane_check idle_line_request idle_line_card 60 (by decide)]
    decide +kernel
  refine ⟨idle_line_request, idle_line_card, right, by simpa using rejected, ?_⟩
  intro delivers
  exact rejected (delivers.2.2.mpr right)

end OneLane

end MinionSubsystem.SdReadBlock
