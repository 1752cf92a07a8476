import MinionSubsystem.ClockedRun
import MinionSubsystem.Uart

/-!
# The uart with `rx` wired to `tx`

A frame is a start bit, eight data bits and a stop bit, each for four ticks. The
receiver loads its divider one clock after the transmitter, in the first clock of the
start bit, and samples two ticks later and then every four. It has its byte in the
middle of the stop bit, ten ticks before the transmitter takes the next one.
-/

namespace MinionSubsystem.UartLoopback

open MinionSubsystem.ClockedRun
open MinionSubsystem.Uart

set_option autoImplicit false

def frameOut (byte : BitVec 8) : Nat → BitVec 9
  | 0 => byte ++ 0#1
  | count + 1 => Transmitter.shift (frameOut byte count)

/-- The bits of a frame: the start bit, the data, and the stop bit from then on. -/
def frameBit (byte : BitVec 8) (count : Nat) : Bool :=
  if count = 0 then false else if count ≤ 8 then byte.getLsbD (count - 1) else true

theorem shift_bit (txOut : BitVec 9) (index : Nat) (inside : index < 9) :
    (Transmitter.shift txOut).getLsbD index =
      if index < 8 then txOut.getLsbD (index + 1) else true := by
  simp only [Transmitter.shift, BitVec.getLsbD_append, BitVec.getLsbD_extractLsb']
  split_ifs with low
  · rw [decide_eq_true low, Bool.true_and, Nat.add_comm]
  · rw [show index - 8 = 0 by omega]
    rfl

theorem frame_out_bit (byte : BitVec 8) (count index : Nat) (inside : index < 9) :
    (frameOut byte count).getLsbD index = frameBit byte (index + count) := by
  induction count generalizing index with
  | zero =>
      rw [frameOut, BitVec.getLsbD_append, Nat.add_zero, frameBit]
      by_cases first : index = 0
      · rw [first]
        rfl
      · rw [if_neg (by omega), if_neg first, if_pos (by omega)]
  | succ count ih =>
      rw [frameOut, shift_bit _ _ inside]
      split_ifs with low
      · rw [ih (index + 1) (by omega), show index + 1 + count = index + (count + 1) by omega]
      · rw [frameBit, if_neg (by omega), if_neg (by omega)]

theorem frame_out_stop (byte : BitVec 8) : frameOut byte 9 = 0x1FF := by
  apply BitVec.eq_of_getLsbD_eq
  intro index inside
  have ones : ∀ place < 9, (0x1FF : BitVec 9).getLsbD place = true := by decide
  rw [frame_out_bit byte 9 index inside, ones index inside, frameBit, if_neg (by omega),
    if_neg (by omega)]

variable {inputs : Inputs}

theorem transmitter_step_running (running : inputs.rst = false) (tx : Transmitter) :
    tx.step inputs = (tx.divide inputs.baud).advance inputs := by
  rw [Transmitter.step, running, if_neg Bool.false_ne_true]

theorem transmitter_divide_tick (baud : BitVec 16) (age : Nat) (tx : Transmitter)
    (divider : tx.txClkDivider = dividerAt baud age) (tick : (age + 1) % period baud = 0) :
    tx.divide baud =
      { tx with txClkDivider := dividerAt baud (age + 1), txCountdown := tx.txCountdown - 1 } := by
  obtain ⟨zero, reload, -⟩ := divider_at_tick baud age tick
  rw [Transmitter.divide, divider, reload]
  exact if_pos zero

theorem transmitter_divide_between (baud : BitVec 16) (age : Nat) (tx : Transmitter)
    (divider : tx.txClkDivider = dividerAt baud age) (quiet : (age + 1) % period baud ≠ 0) :
    tx.divide baud = { tx with txClkDivider := dividerAt baud (age + 1) } := by
  obtain ⟨next, some, -⟩ := divider_at_between baud age quiet
  rw [Transmitter.divide, divider, next]
  exact if_neg some

/-- A frame some clocks after its byte was accepted, up to its stop bit. -/
structure Sending (baud : BitVec 16) (byte : BitVec 8) (age : Nat) (tx : Transmitter) :
    Prop where
  divider : tx.txClkDivider = dividerAt baud age
  state : tx.txState = .sending
  countdown : tx.txCountdown = BitVec.ofNat 6 (4 - age / period baud % 4)
  bits : tx.txBitsRemaining = BitVec.ofNat 4 (9 - age / period baud / 4)
  out : tx.txOut = frameOut byte (age / period baud / 4)

/-- At every fourth tick the next bit goes out. -/
theorem sending_bit (byte : BitVec 8) (age : Nat) (tx : Transmitter)
    (sending : Sending inputs.baud byte age tx) (tick : (age + 1) % period inputs.baud = 0)
    (last : age / period inputs.baud % 4 = 3) (inside : age / period inputs.baud + 1 < 40) :
    Sending inputs.baud byte (age + 1) ((tx.divide inputs.baud).advance inputs) := by
  obtain ⟨divider, state, countdown, bits, out⟩ := sending
  obtain ⟨-, -, next⟩ := divider_at_tick inputs.baud age tick
  generalize age / period inputs.baud = ticks at last inside next countdown bits out
  rw [transmitter_divide_tick inputs.baud age tx divider tick]
  have zero : tx.txCountdown - 1 = 0 := by
    rw [countdown, last]
    rfl
  have some : tx.txBitsRemaining ≠ 0 := by
    rw [bits]
    exact of_nat_ne_zero 4 _ (by omega) (by omega)
  have fewer : tx.txBitsRemaining - 1 = BitVec.ofNat 4 (9 - (ticks / 4 + 1)) := by
    rw [bits, show 9 - ticks / 4 = 9 - (ticks / 4 + 1) + 1 by omega, of_nat_pred]
  have bit : (ticks + 1) / 4 = ticks / 4 + 1 := by omega
  have first : (ticks + 1) % 4 = 0 := by omega
  simp only [Transmitter.advance, state, zero, some, if_true, ne_eq, not_false_eq_true]
  refine ⟨rfl, rfl, ?_, ?_, ?_⟩
  · rw [next, first]
    rfl
  · rw [next, bit]
    exact fewer
  · rw [next, bit]
    exact congrArg Transmitter.shift out

theorem sending_tick (byte : BitVec 8) (age : Nat) (tx : Transmitter)
    (sending : Sending inputs.baud byte age tx) (tick : (age + 1) % period inputs.baud = 0)
    (more : age / period inputs.baud % 4 ≠ 3) :
    Sending inputs.baud byte (age + 1) ((tx.divide inputs.baud).advance inputs) := by
  obtain ⟨divider, state, countdown, bits, out⟩ := sending
  obtain ⟨-, -, next⟩ := divider_at_tick inputs.baud age tick
  generalize age / period inputs.baud = ticks at more next countdown bits out
  rw [transmitter_divide_tick inputs.baud age tx divider tick]
  have phase := Nat.mod_lt ticks (by decide : 0 < 4)
  have left : 4 - ticks % 4 = 4 - (ticks + 1) % 4 + 1 := by omega
  have down : tx.txCountdown - 1 = BitVec.ofNat 6 (4 - (ticks + 1) % 4) := by
    rw [countdown, left, of_nat_pred]
  have some : tx.txCountdown - 1 ≠ 0 := by
    rw [down]
    exact of_nat_ne_zero 6 _ (by omega) (by omega)
  have bit : (ticks + 1) / 4 = ticks / 4 := by omega
  simp only [Transmitter.advance, state, some, if_false]
  refine ⟨rfl, rfl, ?_, ?_, ?_⟩
  · rw [next]
    exact down
  · rw [next, bit]
    exact bits
  · rw [next, bit]
    exact out

theorem sending_between (byte : BitVec 8) (age : Nat) (tx : Transmitter)
    (sending : Sending inputs.baud byte age tx) (quiet : (age + 1) % period inputs.baud ≠ 0) :
    Sending inputs.baud byte (age + 1) ((tx.divide inputs.baud).advance inputs) := by
  obtain ⟨divider, state, countdown, bits, out⟩ := sending
  obtain ⟨-, -, same⟩ := divider_at_between inputs.baud age quiet
  rw [transmitter_divide_between inputs.baud age tx divider quiet]
  have phase := Nat.mod_lt (age / period inputs.baud) (by decide : 0 < 4)
  have some : tx.txCountdown ≠ 0 := by
    rw [countdown]
    exact of_nat_ne_zero 6 _ (by omega) (by omega)
  simp only [Transmitter.advance, state, some, if_false]
  refine ⟨rfl, rfl, ?_, ?_, ?_⟩
  · rw [same]
    exact countdown
  · rw [same]
    exact bits
  · rw [same]
    exact out

theorem sending_step (byte : BitVec 8) (age : Nat) (tx : Transmitter)
    (running : inputs.rst = false) (sending : Sending inputs.baud byte age tx)
    (inside : (age + 1) / period inputs.baud < 40) :
    Sending inputs.baud byte (age + 1) (tx.step inputs) := by
  rw [transmitter_step_running running]
  by_cases tick : (age + 1) % period inputs.baud = 0
  · obtain ⟨-, -, next⟩ := divider_at_tick inputs.baud age tick
    by_cases last : age / period inputs.baud % 4 = 3
    · exact sending_bit byte age tx sending tick last (next ▸ inside)
    · exact sending_tick byte age tx sending tick last
  · exact sending_between byte age tx sending tick

/-- The byte is out: the line is high, and stays so until the next byte is accepted. -/
structure Quiet (tx : Transmitter) : Prop where
  out : tx.txOut = 0x1FF
  bits : tx.txState = .sending → tx.txBitsRemaining = 0

theorem Quiet.line (tx : Transmitter) (quiet : Quiet tx) : tx.line = true := by
  rw [Transmitter.line, quiet.out]
  rfl

theorem transmitter_divide_keeps (baud : BitVec 16) (tx : Transmitter) :
    (tx.divide baud).txOut = tx.txOut ∧ (tx.divide baud).txState = tx.txState ∧
      (tx.divide baud).txBitsRemaining = tx.txBitsRemaining := by
  rw [Transmitter.divide]
  split_ifs
  · exact ⟨rfl, rfl, rfl⟩
  · exact ⟨rfl, rfl, rfl⟩

theorem quiet_step (tx : Transmitter) (running : inputs.rst = false) (quiet : Quiet tx)
    (silent : tx.txState = .idle → inputs.transmit = false) : Quiet (tx.step inputs) := by
  obtain ⟨out, state, bits⟩ := transmitter_divide_keeps inputs.baud tx
  rw [transmitter_step_running running]
  have high := out.trans quiet.out
  cases phase : tx.txState with
  | idle =>
      have idle := state.trans phase
      simp only [Transmitter.advance, idle, silent phase, Bool.false_eq_true, if_false]
      exact ⟨high, fun sending => by rw [idle] at sending; cases sending⟩
  | sending =>
      have none := bits.trans (quiet.bits phase)
      simp only [Transmitter.advance, state.trans phase, none]
      split_ifs with zero some
      · exact absurd rfl some
      · exact ⟨high, nofun⟩
      · exact ⟨high, fun _ => none⟩
  | delayRestart =>
      simp only [Transmitter.advance, state.trans phase]
      refine ⟨high, fun sending => ?_⟩
      dsimp only at sending
      split_ifs at sending

theorem sending_quiet (baud : BitVec 16) (byte : BitVec 8) (age : Nat) (tx : Transmitter)
    (sending : Sending baud byte age tx) (late : 36 ≤ age / period baud)
    (inside : age / period baud < 40) : Quiet tx := by
  have stop : age / period baud / 4 = 9 := by omega
  refine ⟨?_, fun _ => ?_⟩
  · rw [sending.out, stop, frame_out_stop]
  · rw [sending.bits, stop]
    rfl

theorem accept_step (tx : Transmitter) (running : inputs.rst = false) (idle : tx.txState = .idle)
    (transmit : inputs.transmit = true) :
    Sending inputs.baud inputs.txByte 0 (tx.step inputs) := by
  obtain ⟨-, state, -⟩ := transmitter_divide_keeps inputs.baud tx
  rw [transmitter_step_running running]
  simp only [Transmitter.advance, state.trans idle, transmit, if_true]
  refine ⟨(divider_at_start inputs.baud).symm, rfl, ?_, ?_, ?_⟩
  · rw [Nat.zero_div]
    rfl
  · rw [Nat.zero_div]
    rfl
  · rw [Nat.zero_div]
    rfl

def sampled (old byte : BitVec 8) : Nat → BitVec 8
  | 0 => old
  | count + 1 => Receiver.shift (byte.getLsbD count) (sampled old byte count)

theorem receiver_shift_bit (line : Bool) (rxData : BitVec 8) (index : Nat) (inside : index < 8) :
    (Receiver.shift line rxData).getLsbD index =
      if index < 7 then rxData.getLsbD (index + 1) else line := by
  simp only [Receiver.shift, BitVec.getLsbD_append, BitVec.getLsbD_extractLsb']
  split_ifs with low
  · rw [decide_eq_true low, Bool.true_and, Nat.add_comm]
  · rw [show index - 7 = 0 by omega]
    cases line <;> rfl

theorem sampled_bit (old byte : BitVec 8) (count index : Nat) (inside : index < 8)
    (recent : 8 ≤ index + count) :
    (sampled old byte count).getLsbD index = byte.getLsbD (index + count - 8) := by
  induction count generalizing index with
  | zero => omega
  | succ count ih =>
      rw [sampled, receiver_shift_bit _ _ _ inside]
      split_ifs with low
      · rw [ih (index + 1) (by omega) (by omega),
          show index + 1 + count - 8 = index + (count + 1) - 8 by omega]
      · rw [show index + (count + 1) - 8 = count by omega]

theorem sampled_whole (old byte : BitVec 8) : sampled old byte 8 = byte := by
  apply BitVec.eq_of_getLsbD_eq
  intro index inside
  rw [sampled_bit old byte 8 index inside (by omega), Nat.add_sub_cancel]

def samplingState (ticks : Nat) : RxState :=
  if ticks < 2 then .checkStart else if ticks < 34 then .readBits else .checkStop

def samplingLeft (ticks : Nat) : Nat := if ticks < 2 then 2 - ticks else 4 - (ticks - 2) % 4

theorem sampling_left_bounds (ticks : Nat) : 1 ≤ samplingLeft ticks ∧ samplingLeft ticks ≤ 4 := by
  rw [samplingLeft]
  split_ifs <;> omega

theorem sampling_left_start (ticks : Nat) (start : ticks < 2) (due : samplingLeft ticks = 1) :
    ticks = 1 := by
  rw [samplingLeft, if_pos start] at due
  omega

theorem sampling_left_next (ticks : Nat) (pending : samplingLeft ticks ≠ 1) :
    samplingLeft (ticks + 1) = samplingLeft ticks - 1 ∧
      (ticks + 1 - 2) / 4 = (ticks - 2) / 4 ∧ samplingState (ticks + 1) = samplingState ticks := by
  simp only [samplingLeft, samplingState] at pending ⊢
  split_ifs at pending ⊢ <;> refine ⟨?_, ?_, ?_⟩ <;> first | rfl | omega

/-- A frame some clocks after the receiver has seen its start bit, up to the stop bit. -/
structure Sampling (baud : BitVec 16) (old byte : BitVec 8) (age : Nat) (rx : Receiver) :
    Prop where
  divider : rx.rxClkDivider = dividerAt baud age
  state : rx.recvState = samplingState (age / period baud)
  countdown : rx.rxCountdown = BitVec.ofNat 6 (samplingLeft (age / period baud))
  bits : 2 ≤ age / period baud →
    rx.rxBitsRemaining = BitVec.ofNat 4 (8 - (age / period baud - 2) / 4)
  data : rx.rxData = sampled old byte ((age / period baud - 2) / 4)

/-- The acknowledge input is nothing to the state machine. -/
theorem receiver_step_running (running : inputs.rst = false) (line : Bool) (rx : Receiver) :
    ∃ kept : Receiver, rx.step inputs line = (kept.divide inputs.baud).advance inputs.baud line ∧
      kept.rxClkDivider = rx.rxClkDivider ∧ kept.recvState = rx.recvState ∧
      kept.rxCountdown = rx.rxCountdown ∧ kept.rxBitsRemaining = rx.rxBitsRemaining ∧
      kept.rxData = rx.rxData := by
  rw [Receiver.step, running, if_neg Bool.false_ne_true]
  cases inputs.recvAck with
  | false => exact ⟨rx, rfl, rfl, rfl, rfl, rfl, rfl⟩
  | true => exact ⟨rx.acknowledge, rfl, rfl, rfl, rfl, rfl, rfl⟩

theorem receiver_divide_tick (baud : BitVec 16) (age : Nat) (rx : Receiver)
    (divider : rx.rxClkDivider = dividerAt baud age) (tick : (age + 1) % period baud = 0) :
    rx.divide baud =
      { rx with rxClkDivider := dividerAt baud (age + 1), rxCountdown := rx.rxCountdown - 1 } := by
  obtain ⟨zero, reload, -⟩ := divider_at_tick baud age tick
  rw [Receiver.divide, divider, reload]
  exact if_pos zero

theorem receiver_divide_between (baud : BitVec 16) (age : Nat) (rx : Receiver)
    (divider : rx.rxClkDivider = dividerAt baud age) (quiet : (age + 1) % period baud ≠ 0) :
    rx.divide baud = { rx with rxClkDivider := dividerAt baud (age + 1) } := by
  obtain ⟨next, some, -⟩ := divider_at_between baud age quiet
  rw [Receiver.divide, divider, next]
  exact if_neg some

theorem receiver_divide_keeps (baud : BitVec 16) (rx : Receiver) :
    (rx.divide baud).recvState = rx.recvState ∧ (rx.divide baud).rxData = rx.rxData := by
  rw [Receiver.divide]
  split_ifs
  · exact ⟨rfl, rfl⟩
  · exact ⟨rfl, rfl⟩

/-- Between two samples the states that wait for one do nothing. -/
theorem advance_pending (baud : BitVec 16) (line : Bool) (ticks : Nat) (rx : Receiver)
    (state : rx.recvState = samplingState ticks) (some : rx.rxCountdown ≠ 0) :
    rx.advance baud line = rx := by
  rw [samplingState] at state
  split_ifs at state
  · simp only [Receiver.advance, state, some, if_false]
  · simp only [Receiver.advance, state, some, if_false]
  · simp only [Receiver.advance, state, some, if_false]

/-- In the middle of the start bit the line is still low. -/
theorem sampling_start_bit (baud : BitVec 16) (old byte : BitVec 8) (age : Nat) (rx : Receiver)
    (sampling : Sampling baud old byte age rx) (tick : (age + 1) % period baud = 0)
    (one : age / period baud = 1) :
    Sampling baud old byte (age + 1) ((rx.divide baud).advance baud false) := by
  obtain ⟨divider, state, countdown, -, data⟩ := sampling
  obtain ⟨-, -, next⟩ := divider_at_tick baud age tick
  rw [one] at state countdown data next
  rw [receiver_divide_tick baud age rx divider tick]
  have zero : rx.rxCountdown - 1 = 0 := by
    rw [countdown]
    rfl
  simp only [Receiver.advance, state, samplingState, zero, if_true]
  refine ⟨rfl, ?_, ?_, fun _ => ?_, ?_⟩
  · rw [next]
    rfl
  · rw [next]
    rfl
  · rw [next]
    rfl
  · rw [next]
    exact data

/-- The state behind a sample goes by the bits that remain. -/
theorem sampling_state_next (ticks : Nat) (remaining : BitVec 4) (reading : ticks < 34)
    (start : ¬ticks < 2) (last : (ticks - 2) % 4 = 3)
    (counted : remaining = BitVec.ofNat 4 (8 - ((ticks - 2) / 4 + 1))) :
    (if remaining ≠ 0 then RxState.readBits else .checkStop) = samplingState (ticks + 1) := by
  rw [samplingState, if_neg (by omega : ¬ticks + 1 < 2)]
  by_cases more : ticks + 1 < 34
  · have some : remaining ≠ 0 := by
      rw [counted]
      exact of_nat_ne_zero 4 _ (by omega) (by omega)
    rw [if_pos some, if_pos more]
  · have none : remaining = 0 := by
      rw [counted, show 8 - ((ticks - 2) / 4 + 1) = 0 by omega]
      rfl
    rw [if_neg (not_not.mpr none), if_neg more]

/-- In the middle of a data bit it is shifted in. -/
theorem sampling_data_bit (baud : BitVec 16) (old byte : BitVec 8) (age : Nat) (line : Bool)
    (rx : Receiver) (sampling : Sampling baud old byte age rx)
    (tick : (age + 1) % period baud = 0) (start : ¬age / period baud < 2)
    (due : samplingLeft (age / period baud) = 1) (inside : age / period baud + 1 < 38)
    (heard : line = frameBit byte ((age / period baud + 1) / 4)) :
    Sampling baud old byte (age + 1) ((rx.divide baud).advance baud line) := by
  obtain ⟨divider, state, countdown, bits, data⟩ := sampling
  obtain ⟨-, -, next⟩ := divider_at_tick baud age tick
  generalize age / period baud = ticks at next start due inside heard state countdown bits data
  rw [receiver_divide_tick baud age rx divider tick]
  have zero : rx.rxCountdown - 1 = 0 := by
    rw [countdown, due]
    rfl
  have last : (ticks - 2) % 4 = 3 := by
    rw [samplingLeft, if_neg start] at due
    omega
  have reading : ticks < 34 := by omega
  have bit : (ticks + 1 - 2) / 4 = (ticks - 2) / 4 + 1 := by omega
  have place : (ticks + 1) / 4 = (ticks - 2) / 4 + 1 := by omega
  have read : line = byte.getLsbD ((ticks - 2) / 4) := by
    rw [heard, place, frameBit, if_neg (by omega), if_pos (by omega), Nat.add_sub_cancel]
  have fewer : rx.rxBitsRemaining - 1 = BitVec.ofNat 4 (8 - ((ticks - 2) / 4 + 1)) := by
    rw [bits (by omega), show 8 - (ticks - 2) / 4 = 8 - ((ticks - 2) / 4 + 1) + 1 by omega,
      of_nat_pred]
  have goes_on := sampling_state_next ticks (rx.rxBitsRemaining - 1) reading start last fewer
  have again : samplingLeft (ticks + 1) = 4 := by
    rw [samplingLeft, if_neg (by omega)]
    omega
  rw [samplingState, if_neg start, if_pos reading] at state
  simp only [Receiver.advance, state, zero, if_true]
  refine ⟨rfl, ?_, ?_, fun _ => ?_, ?_⟩
  · rw [next]
    exact goes_on
  · rw [next, again]
    rfl
  · rw [next, bit]
    exact fewer
  · rw [next, bit, sampled, ← read]
    exact congrArg (Receiver.shift line) data

theorem sampling_tick (baud : BitVec 16) (old byte : BitVec 8) (age : Nat) (line : Bool)
    (rx : Receiver) (sampling : Sampling baud old byte age rx)
    (tick : (age + 1) % period baud = 0) (pending : samplingLeft (age / period baud) ≠ 1) :
    Sampling baud old byte (age + 1) ((rx.divide baud).advance baud line) := by
  obtain ⟨divider, state, countdown, bits, data⟩ := sampling
  obtain ⟨-, -, next⟩ := divider_at_tick baud age tick
  generalize age / period baud = ticks at pending state countdown bits data next
  obtain ⟨positive, most⟩ := sampling_left_bounds ticks
  obtain ⟨left, bit, same⟩ := sampling_left_next ticks pending
  rw [receiver_divide_tick baud age rx divider tick]
  have down : rx.rxCountdown - 1 = BitVec.ofNat 6 (samplingLeft (ticks + 1)) := by
    rw [countdown, left, show samplingLeft ticks = samplingLeft ticks - 1 + 1 by omega,
      of_nat_pred]
    rfl
  have some : rx.rxCountdown - 1 ≠ 0 := by
    rw [down]
    exact of_nat_ne_zero 6 _ (by omega) (by omega)
  rw [advance_pending baud line ticks _ (by exact state) (by exact some)]
  refine ⟨rfl, ?_, ?_, fun late => ?_, ?_⟩
  · rw [next, same]
    exact state
  · rw [next]
    exact down
  · rw [next] at late
    rw [next, bit]
    refine bits ?_
    by_contra early
    have one : ticks = 1 := by omega
    rw [one] at pending
    exact pending rfl
  · rw [next, bit]
    exact data

theorem sampling_between (baud : BitVec 16) (old byte : BitVec 8) (age : Nat) (line : Bool)
    (rx : Receiver) (sampling : Sampling baud old byte age rx)
    (quiet : (age + 1) % period baud ≠ 0) :
    Sampling baud old byte (age + 1) ((rx.divide baud).advance baud line) := by
  obtain ⟨divider, state, countdown, bits, data⟩ := sampling
  obtain ⟨-, -, same⟩ := divider_at_between baud age quiet
  obtain ⟨positive, most⟩ := sampling_left_bounds (age / period baud)
  rw [receiver_divide_between baud age rx divider quiet]
  have some : rx.rxCountdown ≠ 0 := by
    rw [countdown]
    exact of_nat_ne_zero 6 _ (by omega) (by omega)
  rw [advance_pending baud line (age / period baud) _ (by exact state) (by exact some)]
  refine ⟨rfl, ?_, ?_, fun late => ?_, ?_⟩
  · rw [same]
    exact state
  · rw [same]
    exact countdown
  · rw [same] at late ⊢
    exact bits late
  · rw [same]
    exact data

theorem sampling_running (old byte : BitVec 8) (age : Nat) (line : Bool) (rx : Receiver)
    (running : inputs.rst = false) (sampling : Sampling inputs.baud old byte age rx) :
    ∃ kept, rx.step inputs line = (kept.divide inputs.baud).advance inputs.baud line ∧
      Sampling inputs.baud old byte age kept := by
  obtain ⟨kept, step, divider, state, countdown, bits, data⟩ :=
    receiver_step_running running line rx
  exact ⟨kept, step, divider.trans sampling.divider, state.trans sampling.state,
    countdown.trans sampling.countdown, fun late => bits.trans (sampling.bits late),
    data.trans sampling.data⟩

theorem sampling_step (old byte : BitVec 8) (age : Nat) (line : Bool) (rx : Receiver)
    (running : inputs.rst = false) (sampling : Sampling inputs.baud old byte age rx)
    (inside : (age + 1) / period inputs.baud < 38)
    (sent : (age + 1) % period inputs.baud = 0 → samplingLeft (age / period inputs.baud) = 1 →
      line = frameBit byte ((age + 1) / period inputs.baud / 4)) :
    Sampling inputs.baud old byte (age + 1) (rx.step inputs line) := by
  obtain ⟨kept, step, kept_sampling⟩ := sampling_running old byte age line rx running sampling
  rw [step]
  by_cases tick : (age + 1) % period inputs.baud = 0
  · obtain ⟨-, -, next⟩ := divider_at_tick inputs.baud age tick
    by_cases due : samplingLeft (age / period inputs.baud) = 1
    · have heard := sent tick due
      rw [next] at heard inside
      by_cases start : age / period inputs.baud < 2
      · have one : age / period inputs.baud = 1 := by
          exact sampling_left_start _ start due
        have low : line = false := by
          rw [heard, one]
          rfl
        rw [low]
        exact sampling_start_bit inputs.baud old byte age kept kept_sampling tick one
      · exact sampling_data_bit inputs.baud old byte age line kept kept_sampling tick start due
          inside heard
    · exact sampling_tick inputs.baud old byte age line kept kept_sampling tick due
  · exact sampling_between inputs.baud old byte age line kept kept_sampling tick

theorem sampling_start (byte : BitVec 8) (rx : Receiver) (running : inputs.rst = false)
    (idle : rx.recvState = .idle) :
    Sampling inputs.baud rx.rxData byte 0 (rx.step inputs false) := by
  obtain ⟨kept, step, -, sameState, -, -, sameData⟩ := receiver_step_running running false rx
  obtain ⟨state, data⟩ := receiver_divide_keeps inputs.baud kept
  rw [step]
  simp only [Receiver.advance, state.trans (sameState.trans idle), if_true]
  refine ⟨(divider_at_start inputs.baud).symm, ?_, ?_, fun late => ?_, ?_⟩
  · rw [Nat.zero_div]
    rfl
  · rw [Nat.zero_div]
    rfl
  · rw [Nat.zero_div] at late
    exact absurd late (by decide)
  · rw [Nat.zero_div]
    exact data.trans sameData

theorem receiver_idle_step (rx : Receiver) (running : inputs.rst = false)
    (idle : rx.recvState = .idle) : (rx.step inputs true).recvState = .idle := by
  obtain ⟨kept, step, -, sameState, -⟩ := receiver_step_running running true rx
  obtain ⟨state, -⟩ := receiver_divide_keeps inputs.baud kept
  have still := state.trans (sameState.trans idle)
  rw [step]
  simp only [Receiver.advance, still, Bool.true_eq_false, if_false]

/-- At its last tick the receiver looks for the stop bit. -/
theorem sampling_stop (old byte : BitVec 8) (age : Nat) (line : Bool)
    (rx : Receiver) (running : inputs.rst = false)
    (sampling : Sampling inputs.baud old byte age rx)
    (last : age + 1 = 38 * period inputs.baud) :
    (rx.step inputs line).recvState = (if line then RxState.received else .error) ∧
      (rx.step inputs line).rxData = byte ∧
      (rx.step inputs line).rxClkDivider = dividerAt inputs.baud (38 * period inputs.baud) := by
  obtain ⟨tick, ticks⟩ := divider_at_last inputs.baud age 37 last
  obtain ⟨kept, step, divider, state, countdown, -, data⟩ :=
    sampling_running old byte age line rx running sampling
  rw [ticks] at state countdown data
  have zero : kept.rxCountdown - 1 = 0 := by
    rw [countdown]
    rfl
  rw [step, receiver_divide_tick inputs.baud age kept divider tick, last]
  simp only [Receiver.advance, state, samplingState, zero, if_true]
  exact ⟨rfl, data.trans (sampled_whole old byte), rfl⟩

/-- Two ticks after it saw the line low the receiver expects it still low. -/
theorem sampling_false_start (old byte : BitVec 8) (age : Nat) (rx : Receiver)
    (running : inputs.rst = false) (sampling : Sampling inputs.baud old byte age rx)
    (last : age + 1 = 2 * period inputs.baud) : (rx.step inputs true).recvState = .error := by
  obtain ⟨tick, ticks⟩ := divider_at_last inputs.baud age 1 last
  obtain ⟨kept, step, divider, state, countdown, -, -⟩ :=
    sampling_running old byte age true rx running sampling
  rw [ticks] at state countdown
  have zero : kept.rxCountdown - 1 = 0 := by
    rw [countdown]
    rfl
  rw [step, receiver_divide_tick inputs.baud age kept divider tick]
  simp only [Receiver.advance, state, samplingState, zero, if_true]
  rfl

theorem received_step (line : Bool) (rx : Receiver) (running : inputs.rst = false)
    (received : rx.recvState = .received) :
    (rx.step inputs line).recvState = .idle ∧ (rx.step inputs line).rxByte = rx.rxData := by
  obtain ⟨kept, step, -, sameState, -, -, sameData⟩ := receiver_step_running running line rx
  obtain ⟨state, data⟩ := receiver_divide_keeps inputs.baud kept
  rw [step]
  simp only [Receiver.advance, state.trans (sameState.trans received)]
  exact ⟨trivial, data.trans sameData⟩

/-- One edge with `rx` wired to `tx`. -/
def loopback (inputs : Inputs) (uart : State) : State := step inputs uart.tx.line uart

/-- The line is high and the receiver waits. -/
structure Ready (uart : State) : Prop where
  receiver : uart.rx.recvState = .idle
  transmitter : Quiet uart.tx

structure Opening (baud : BitVec 16) (byte : BitVec 8) (uart : State) : Prop where
  receiver : uart.rx.recvState = .idle
  transmitter : Sending baud byte 0 uart.tx

/-- The transmitter is one clock ahead of the receiver. -/
structure Framing (baud : BitVec 16) (old byte : BitVec 8) (age : Nat) (uart : State) : Prop where
  receiver : Sampling baud old byte age uart.rx
  transmitter : Sending baud byte (age + 1) uart.tx

/-- The receiver has the byte; the transmitter is still busy with the stop bit. -/
structure Received (byte : BitVec 8) (uart : State) : Prop where
  receiver : uart.rx.recvState = .received
  data : uart.rx.rxData = byte
  transmitter : Quiet uart.tx
  busy : uart.tx.txState = .sending

theorem sending_line (baud : BitVec 16) (byte : BitVec 8) (age : Nat) (tx : Transmitter)
    (sending : Sending baud byte age tx) :
    tx.line = frameBit byte (age / period baud / 4) := by
  rw [Transmitter.line, sending.out, frame_out_bit _ _ 0 (by decide), Nat.zero_add]

theorem ready_step (uart : State) (running : inputs.rst = false) (ready : Ready uart)
    (silent : uart.tx.txState = .idle → inputs.transmit = false) :
    Ready (loopback inputs uart) := by
  have high := ready.transmitter.line
  rw [loopback, high]
  exact ⟨receiver_idle_step uart.rx running ready.receiver,
    quiet_step uart.tx running ready.transmitter silent⟩

theorem ready_accepts (uart : State) (running : inputs.rst = false) (ready : Ready uart)
    (idle : uart.tx.txState = .idle) (transmit : inputs.transmit = true) :
    Opening inputs.baud inputs.txByte (loopback inputs uart) := by
  have high := ready.transmitter.line
  rw [loopback, high]
  exact ⟨receiver_idle_step uart.rx running ready.receiver,
    accept_step uart.tx running idle transmit⟩

theorem opening_step (byte : BitVec 8) (uart : State) (running : inputs.rst = false)
    (opening : Opening inputs.baud byte uart) :
    Framing inputs.baud uart.rx.rxData byte 0 (loopback inputs uart) := by
  obtain ⟨positive, -⟩ := period_bounds inputs.baud
  have low : uart.tx.line = false := by
    rw [sending_line inputs.baud byte 0 uart.tx opening.transmitter, Nat.zero_div]
    rfl
  have first : (0 + 1) / period inputs.baud ≤ 0 + 1 := Nat.div_le_self _ _
  rw [loopback, low]
  exact ⟨sampling_start byte uart.rx running opening.receiver,
    sending_step byte 0 uart.tx running opening.transmitter (by omega)⟩

theorem framing_step (old byte : BitVec 8) (age : Nat) (uart : State)
    (running : inputs.rst = false) (framing : Framing inputs.baud old byte age uart)
    (inside : age + 1 < 38 * period inputs.baud) :
    Framing inputs.baud old byte (age + 1) (loopback inputs uart) := by
  obtain ⟨positive, -⟩ := period_bounds inputs.baud
  have here : (age + 1) / period inputs.baud < 38 := (Nat.div_lt_iff_lt_mul positive).mpr inside
  have ahead : (age + 1 + 1) / period inputs.baud < 40 :=
    (Nat.div_lt_iff_lt_mul positive).mpr (by omega)
  exact ⟨sampling_step old byte age uart.tx.line uart.rx running framing.receiver here
      fun _ _ => sending_line inputs.baud byte (age + 1) uart.tx framing.transmitter,
    sending_step byte (age + 1) uart.tx running framing.transmitter ahead⟩

theorem framing_last (old byte : BitVec 8) (age : Nat) (uart : State)
    (running : inputs.rst = false) (framing : Framing inputs.baud old byte age uart)
    (last : age + 1 = 38 * period inputs.baud) : Received byte (loopback inputs uart) := by
  obtain ⟨positive, -⟩ := period_bounds inputs.baud
  have high : uart.tx.line = true := by
    rw [sending_line inputs.baud byte (age + 1) uart.tx framing.transmitter, last,
      Nat.mul_div_cancel _ positive]
    rfl
  have ahead : (age + 1 + 1) / period inputs.baud < 40 :=
    (Nat.div_lt_iff_lt_mul positive).mpr (by omega)
  have late : 36 ≤ (age + 1 + 1) / period inputs.baud :=
    (Nat.le_div_iff_mul_le positive).mpr (by omega)
  have sending := sending_step byte (age + 1) uart.tx running framing.transmitter ahead
  obtain ⟨received, data, -⟩ :=
    sampling_stop old byte age true uart.rx running framing.receiver last
  rw [loopback, high]
  exact ⟨received, data, sending_quiet inputs.baud byte _ _ sending late ahead, sending.state⟩

theorem received_ready (byte : BitVec 8) (uart : State) (running : inputs.rst = false)
    (received : Received byte uart) :
    Ready (loopback inputs uart) ∧ (loopback inputs uart).rx.rxByte = byte := by
  obtain ⟨idle, data⟩ := received_step uart.tx.line uart.rx running received.receiver
  have busy : uart.tx.txState = .idle → inputs.transmit = false := by
    intro free
    cases received.busy.symm.trans free
  exact ⟨⟨idle, quiet_step uart.tx running received.transmitter busy⟩, data.trans received.data⟩

/-- The transmitter some clocks after a reset: it waits for 15 ticks. -/
structure Holding (baud : BitVec 16) (age : Nat) (tx : Transmitter) : Prop where
  divider : tx.txClkDivider = dividerAt baud age
  state : tx.txState = .delayRestart
  countdown : tx.txCountdown = BitVec.ofNat 6 (15 - age / period baud)
  out : tx.txOut = 0x1FF

theorem Holding.quiet (baud : BitVec 16) (age : Nat) (tx : Transmitter)
    (holding : Holding baud age tx) : Quiet tx :=
  ⟨holding.out, fun sending => by cases holding.state.symm.trans sending⟩

/-- Waiting is the same in a reset, from the registers that it loads, and after it. -/
theorem holding_advance (age : Nat) (tx : Transmitter) (holding : Holding inputs.baud age tx)
    (inside : (age + 1) / period inputs.baud < 15) :
    Holding inputs.baud (age + 1) ((tx.divide inputs.baud).advance inputs) := by
  obtain ⟨divider, state, countdown, out⟩ := holding
  by_cases tick : (age + 1) % period inputs.baud = 0
  · obtain ⟨-, -, next⟩ := divider_at_tick inputs.baud age tick
    rw [transmitter_divide_tick inputs.baud age tx divider tick]
    have down : tx.txCountdown - 1 = BitVec.ofNat 6 (15 - (age + 1) / period inputs.baud) := by
      rw [countdown, next, show 15 - age / period inputs.baud =
        15 - (age / period inputs.baud + 1) + 1 by omega, of_nat_pred]
    have some : tx.txCountdown - 1 ≠ 0 := by
      rw [down]
      exact of_nat_ne_zero 6 _ (by omega) (Nat.lt_of_le_of_lt (Nat.sub_le 15 _) (by decide))
    simp only [Transmitter.advance, state, some, if_true, ne_eq, not_false_eq_true]
    exact ⟨rfl, rfl, down, out⟩
  · obtain ⟨-, -, same⟩ := divider_at_between inputs.baud age tick
    rw [transmitter_divide_between inputs.baud age tx divider tick]
    rw [same] at inside
    have some : tx.txCountdown ≠ 0 := by
      rw [countdown]
      exact of_nat_ne_zero 6 _ (by omega) (Nat.lt_of_le_of_lt (Nat.sub_le 15 _) (by decide))
    simp only [Transmitter.advance, state, some, if_true, ne_eq, not_false_eq_true]
    refine ⟨rfl, rfl, ?_, out⟩
    rw [same]
    exact countdown

theorem holding_step (age : Nat) (tx : Transmitter) (running : inputs.rst = false)
    (holding : Holding inputs.baud age tx) (inside : (age + 1) / period inputs.baud < 15) :
    Holding inputs.baud (age + 1) (tx.step inputs) := by
  rw [transmitter_step_running running]
  exact holding_advance age tx holding inside

theorem reset_step (uart : State) (reset : inputs.rst = true) :
    Holding inputs.baud 1 (loopback inputs uart).tx := by
  obtain ⟨positive, -⟩ := period_bounds inputs.baud
  have start : Holding inputs.baud 0 (uart.tx.reset inputs.baud) := by
    refine ⟨(divider_at_start inputs.baud).symm, rfl, ?_, rfl⟩
    rw [Nat.zero_div]
    rfl
  have first : (0 + 1) / period inputs.baud ≤ 0 + 1 := Nat.div_le_self _ _
  have stepped := holding_advance 0 _ start (by omega)
  rw [loopback, step, Transmitter.step, reset, if_pos rfl]
  exact stepped

/-- A reset puts the receiver into its first state, and the block goes on from there. -/
theorem reset_receiver (uart : State) (reset : inputs.rst = true) :
    ∃ kept : Receiver, kept.recvState = .idle ∧
      (loopback inputs uart).rx = kept.advance inputs.baud uart.tx.line := by
  rw [loopback, step, Receiver.step, reset, if_pos rfl]
  have idle : ((uart.rx.reset inputs.baud).divide inputs.baud).recvState = .idle :=
    (receiver_divide_keeps inputs.baud _).1
  have idleAcknowledged :
      ((uart.rx.reset inputs.baud).acknowledge.divide inputs.baud).recvState = .idle :=
    (receiver_divide_keeps inputs.baud _).1
  cases inputs.recvAck with
  | false => exact ⟨_, idle, rfl⟩
  | true => exact ⟨_, idleAcknowledged, rfl⟩

theorem reset_ready (uart : State) (reset : inputs.rst = true) (high : uart.tx.line = true) :
    Ready (loopback inputs uart) := by
  obtain ⟨kept, idle, receiver⟩ := reset_receiver uart reset
  refine ⟨?_, (reset_step uart reset).quiet⟩
  rw [receiver, high]
  simp only [Receiver.advance, idle, Bool.true_eq_false, if_false]

/-- A line that is low in the clock of a reset starts the receiver. -/
theorem reset_starts_receiver (uart : State) (reset : inputs.rst = true)
    (low : uart.tx.line = false) :
    ∃ old, Sampling inputs.baud old 0 0 (loopback inputs uart).rx := by
  obtain ⟨kept, idle, receiver⟩ := reset_receiver uart reset
  refine ⟨kept.rxData, ?_⟩
  rw [receiver, low]
  simp only [Receiver.advance, idle, if_true]
  refine ⟨(divider_at_start inputs.baud).symm, ?_, ?_, fun late => ?_, ?_⟩
  · rw [Nat.zero_div]
    rfl
  · rw [Nat.zero_div]
    rfl
  · rw [Nat.zero_div] at late
    exact absurd late (by decide)
  · rw [Nat.zero_div]
    rfl

/-- What the uart is given: a baud value, and the other inputs clock by clock. -/
structure Environment where
  baud : BitVec 16
  transmit : Nat → Bool
  txByte : Nat → BitVec 8
  recvAck : Nat → Bool

def Environment.inputsAt (environment : Environment) (resets clock : Nat) : Inputs where
  rst := clock < resets
  transmit := environment.transmit clock
  txByte := environment.txByte clock
  baud := environment.baud
  recvAck := environment.recvAck clock

variable (environment : Environment) (start : State) (resets : Nat)

def trace (clock : Nat) : State := run loopback start (environment.inputsAt resets) clock

/-- The byte offered while `is_transmitting` is low. -/
def accepted (clock : Nat) : Option (BitVec 8) :=
  if (trace environment start resets clock).tx.txState = .idle ∧ environment.transmit clock then
    some (environment.txByte clock)
  else none

/-- What `rx_byte` is behind a clock in `RX_RECEIVED`. -/
def received (clock : Nat) : Option (BitVec 8) :=
  if (trace environment start resets clock).rx.recvState = .received then
    some (trace environment start resets (clock + 1)).rx.rxByte
  else none

/-- After the reset the receiver never reports an error, and it receives the bytes that were
accepted, every one once and in order. -/
def Works : Prop :=
  (∀ clock, resets ≤ clock → (trace environment start resets clock).rx.recvState ≠ .error) ∧
    ∃ delay, ∀ count,
      transferred (received environment start resets) (fun clock => clock) resets
          (delay + count) =
        transferred (accepted environment start resets) (fun clock => clock) resets count

/-- The clocks from the acceptance of a byte to its reception. -/
def latency : Nat := 38 * period environment.baud + 2

theorem trace_succ (clock : Nat) :
    trace environment start resets (clock + 1) =
      loopback (environment.inputsAt resets clock) (trace environment start resets clock) :=
  run_succ _ _ _ _

theorem running_after (clock : Nat) (after : resets ≤ clock) :
    (environment.inputsAt resets clock).rst = false :=
  decide_eq_false (by omega)

structure Accepts (clock : Nat) (byte : BitVec 8) : Prop where
  after : resets ≤ clock
  ready : Ready (trace environment start resets clock)
  accepted : accepted environment start resets clock = some byte

section Frame

variable {clock : Nat} {byte : BitVec 8}
variable (accepts : Accepts environment start resets clock byte)

include accepts

theorem accepts_opening :
    Opening environment.baud byte (trace environment start resets (clock + 1)) := by
  have running := running_after environment resets clock accepts.after
  have taken := accepts.accepted
  rw [accepted] at taken
  split_ifs at taken with offered
  rw [trace_succ, ← Option.some.inj taken]
  exact ready_accepts _ running accepts.ready offered.1 offered.2

theorem accepts_framing (age : Nat) (inside : age < 38 * period environment.baud) :
    Framing environment.baud (trace environment start resets (clock + 1)).rx.rxData byte age
      (trace environment start resets (clock + 2 + age)) := by
  have after := accepts.after
  induction age with
  | zero =>
      have opening := accepts_opening environment start resets accepts
      have running := running_after environment resets (clock + 1) (by omega)
      rw [Nat.add_zero, trace_succ environment start resets (clock + 1)]
      exact opening_step byte _ running opening
  | succ age ih =>
      have running := running_after environment resets (clock + 2 + age) (by omega)
      rw [← Nat.add_assoc, trace_succ]
      exact framing_step _ byte age _ running (ih (by omega)) inside

theorem accepts_received :
    Received byte (trace environment start resets (clock + latency environment)) := by
  obtain ⟨positive, -⟩ := period_bounds environment.baud
  have after := accepts.after
  obtain ⟨last, count⟩ : ∃ last, last + 1 = 38 * period environment.baud :=
    ⟨38 * period environment.baud - 1, by omega⟩
  have framing := accepts_framing environment start resets accepts last (by omega)
  have running := running_after environment resets (clock + 2 + last) (by omega)
  have place : clock + latency environment = clock + 2 + last + 1 := by
    rw [latency]
    omega
  rw [place, trace_succ]
  exact framing_last _ byte last _ running framing count

theorem accepts_over :
    Ready (trace environment start resets (clock + latency environment + 1)) ∧
      (trace environment start resets (clock + latency environment + 1)).rx.rxByte = byte := by
  have after := accepts.after
  have running := running_after environment resets (clock + latency environment) (by omega)
  rw [trace_succ]
  exact received_ready byte _ running (accepts_received environment start resets accepts)

/-- During a frame nothing is accepted, and it ends with the only reception. -/
theorem accepts_busy (later : Nat) (behind : clock < later)
    (within : later ≤ clock + latency environment) :
    (trace environment start resets later).tx.txState = .sending ∧
      (trace environment start resets later).rx.recvState ≠ .error ∧
      ((trace environment start resets later).rx.recvState = .received →
        later = clock + latency environment) := by
  rw [latency] at within
  by_cases first : later = clock + 1
  · have opening := accepts_opening environment start resets accepts
    rw [first]
    refine ⟨opening.transmitter.state, ?_, ?_⟩
    · rw [opening.receiver]
      decide
    · rw [opening.receiver]
      exact nofun
  · by_cases last : later = clock + latency environment
    · have done := accepts_received environment start resets accepts
      rw [last]
      refine ⟨done.busy, ?_, fun _ => rfl⟩
      rw [done.receiver]
      decide
    · rw [latency] at last
      obtain ⟨age, rfl⟩ := Nat.exists_eq_add_of_le (by omega : clock + 2 ≤ later)
      have framing := accepts_framing environment start resets accepts age (by omega)
      have state := framing.receiver.state
      refine ⟨framing.transmitter.state, ?_, ?_⟩
      · rw [state, samplingState]
        split_ifs <;> decide
      · rw [state, samplingState]
        split_ifs <;> exact nofun

end Frame

/-- At every clock the pair is ready, or in the frame of one byte. -/
theorem ready_or_framing (ready : Ready (trace environment start resets resets)) (clock : Nat)
    (after : resets ≤ clock) :
    Ready (trace environment start resets clock) ∨
      ∃ first byte, Accepts environment start resets first byte ∧
        first < clock ∧ clock ≤ first + latency environment := by
  obtain ⟨offset, rfl⟩ := Nat.exists_eq_add_of_le after
  clear after
  induction offset with
  | zero => exact .inl ready
  | succ offset ih =>
      have running := running_after environment resets (resets + offset) (by omega)
      rcases ih with free | ⟨first, byte, accepts, behind, within⟩
      · cases taken : accepted environment start resets (resets + offset) with
        | none =>
            left
            rw [← Nat.add_assoc, trace_succ]
            refine ready_step _ running free fun idle => ?_
            rw [accepted] at taken
            split_ifs at taken with offered
            exact Bool.eq_false_iff.mpr fun transmit => offered ⟨idle, transmit⟩
        | some byte =>
            right
            refine ⟨resets + offset, byte, ⟨by omega, free, taken⟩, by omega, ?_⟩
            rw [latency]
            omega
      · by_cases last : resets + offset = first + latency environment
        · left
          rw [← Nat.add_assoc, last]
          exact (accepts_over environment start resets accepts).1
        · exact .inr ⟨first, byte, accepts, by omega, by omega⟩

theorem accepted_accepts (ready : Ready (trace environment start resets resets)) (clock : Nat)
    (byte : BitVec 8) (after : resets ≤ clock)
    (taken : accepted environment start resets clock = some byte) :
    Accepts environment start resets clock byte := by
  rcases ready_or_framing environment start resets ready clock after with
    free | ⟨first, other, accepts, behind, within⟩
  · exact ⟨after, free, taken⟩
  · have busy := (accepts_busy environment start resets accepts clock behind within).1
    rw [accepted, busy] at taken
    cases taken

/-- A byte is received a fixed time after one was accepted, and at no other time. -/
theorem received_iff_accepted (ready : Ready (trace environment start resets resets))
    (clock : Nat) (after : resets ≤ clock)
    (arrived : (trace environment start resets clock).rx.recvState = .received) :
    ∃ first byte, Accepts environment start resets first byte ∧
      clock = first + latency environment := by
  rcases ready_or_framing environment start resets ready clock after with
    free | ⟨first, byte, accepts, behind, within⟩
  · cases arrived.symm.trans free.receiver
  · obtain ⟨-, -, last⟩ := accepts_busy environment start resets accepts clock behind within
    exact ⟨first, byte, accepts, last arrived⟩

theorem received_late (ready : Ready (trace environment start resets resets)) (clock : Nat)
    (after : resets ≤ clock) :
    received environment start resets (clock + latency environment) =
      accepted environment start resets clock := by
  cases taken : accepted environment start resets clock with
  | some byte =>
      have accepts := accepted_accepts environment start resets ready clock byte after taken
      have arrived := (accepts_received environment start resets accepts).receiver
      rw [received, if_pos arrived, (accepts_over environment start resets accepts).2]
  | none =>
      refine if_neg fun arrived => ?_
      obtain ⟨first, byte, accepts, same⟩ := received_iff_accepted environment start resets ready
        (clock + latency environment) (by omega) arrived
      have here : first = clock := by omega
      cases accepts.accepted.symm.trans (here ▸ taken)

theorem received_early (ready : Ready (trace environment start resets resets)) (offset : Nat)
    (early : offset < latency environment) :
    received environment start resets (resets + offset) = none := by
  refine if_neg fun arrived => ?_
  obtain ⟨first, byte, accepts, same⟩ := received_iff_accepted environment start resets ready
    (resets + offset) (by omega) arrived
  have after := accepts.after
  omega

theorem ready_works (ready : Ready (trace environment start resets resets)) :
    Works environment start resets := by
  refine ⟨fun clock after => ?_, latency environment, fun count => ?_⟩
  · rcases ready_or_framing environment start resets ready clock after with
      free | ⟨first, byte, accepts, behind, within⟩
    · rw [free.receiver]
      decide
    · exact (accepts_busy environment start resets accepts clock behind within).2.1
  · refine transferred_late _ _ _ resets (latency environment) count
      (received_early environment start resets ready) fun offset _ => ?_
    rw [← received_late environment start resets ready (resets + offset) (by omega),
      Nat.add_assoc, Nat.add_comm offset]

theorem reset_inputs (clock : Nat) (before : clock < resets) :
    (environment.inputsAt resets clock).rst = true := decide_eq_true before

/-- The second clock of a reset finds the line high. -/
theorem reset_settles (resetClocks : Nat) (long : 1 ≤ resetClocks ∨ start.tx.line = true) :
    Ready (trace environment start (resetClocks + 1) (resetClocks + 1)) := by
  have reset := reset_inputs environment (resetClocks + 1) resetClocks (Nat.lt_succ_self _)
  rw [trace_succ]
  cases resetClocks with
  | zero =>
      have high : start.tx.line = true := long.resolve_left (by decide)
      exact reset_ready start reset high
  | succ before =>
      have earlier := reset_inputs environment (before + 1 + 1) before (by omega)
      have held := reset_step (trace environment start (before + 1 + 1) before) earlier
      refine reset_ready _ reset ?_
      rw [trace_succ]
      exact held.quiet.line

/-- A reset of one clock while the line is low ends in an error. -/
theorem short_reset_fails (low : start.tx.line = false) :
    (trace environment start 1 (2 * period environment.baud + 1)).rx.recvState = .error := by
  obtain ⟨positive, -⟩ := period_bounds environment.baud
  have reset := reset_inputs environment 1 0 (by decide)
  obtain ⟨old, started⟩ := reset_starts_receiver start reset low
  have waiting : ∀ age, age < 2 * period environment.baud →
      Sampling environment.baud old 0 age (trace environment start 1 (1 + age)).rx ∧
        Holding environment.baud (age + 1) (trace environment start 1 (1 + age)).tx := by
    intro age
    induction age with
    | zero =>
        intro _
        exact ⟨started, reset_step start reset⟩
    | succ age ih =>
        intro inside
        obtain ⟨sampling, holding⟩ := ih (by omega)
        have running := running_after environment 1 (1 + age) (by omega)
        have few : (age + 1) / period environment.baud < 2 :=
          (Nat.div_lt_iff_lt_mul positive).mpr inside
        have ahead : (age + 1 + 1) / period environment.baud < 15 :=
          (Nat.div_lt_iff_lt_mul positive).mpr (by omega)
        rw [← Nat.add_assoc, trace_succ]
        constructor
        · refine sampling_step old 0 age _ _ running sampling
            (Nat.lt_of_lt_of_le few (by decide)) fun tick due => ?_
          -- the first of the two ticks is no sample
          obtain ⟨-, -, next⟩ := divider_at_tick environment.baud age tick
          have none : age / period environment.baud = 0 := by
            change (age + 1) / period environment.baud = _ at next
            rw [next] at few
            exact Nat.lt_one_iff.mp (Nat.lt_of_succ_lt_succ few)
          change samplingLeft (age / period environment.baud) = 1 at due
          rw [none] at due
          cases due
        · exact holding_step (age + 1) _ running holding ahead
  obtain ⟨last, count⟩ : ∃ last, last + 1 = 2 * period environment.baud :=
    ⟨2 * period environment.baud - 1, by omega⟩
  obtain ⟨sampling, holding⟩ := waiting last (by omega)
  have running := running_after environment 1 (1 + last) (by omega)
  have high := holding.quiet.line
  have place : 2 * period environment.baud + 1 = 1 + last + 1 := by omega
  rw [place, trace_succ, loopback, high]
  exact sampling_false_start old 0 last _ running sampling count

/-- The loopback works if and only if the reset lasts two clocks, or found the line high. -/
theorem loopback_works_iff (resetClocks : Nat) :
    Works environment start (resetClocks + 1) ↔ 1 ≤ resetClocks ∨ start.tx.line = true := by
  constructor
  · intro works
    by_contra short
    rw [not_or] at short
    have one : resetClocks = 0 := by omega
    have low : start.tx.line = false := Bool.eq_false_iff.mpr short.2
    subst one
    exact works.1 _ (Nat.le_add_left 1 _) (short_reset_fails environment start low)
  · intro long
    exact ready_works environment start (resetClocks + 1)
      (reset_settles environment start resetClocks long)

/-- All registers zero: the line is low. -/
def cleared : State where
  rx :=
    { rxClkDivider := 0, recvState := .idle, rxCountdown := 0, rxBitsRemaining := 0, rxData := 0,
      received := false, recvError := false, rxByte := 0 }
  tx :=
    { txClkDivider := 0, txOut := 0, txState := .idle, txCountdown := 0, txBitsRemaining := 0,
      txData := 0 }

def silent : Environment where
  baud := 163
  transmit := fun _ => false
  txByte := fun _ => 0
  recvAck := fun _ => false

/-- A receiver without anything to receive reports an error. -/
theorem short_reset_reports_error : ¬Works silent cleared 1 := fun works =>
  works.1 _ (Nat.le_add_left 1 _) (short_reset_fails silent cleared rfl)

end MinionSubsystem.UartLoopback
