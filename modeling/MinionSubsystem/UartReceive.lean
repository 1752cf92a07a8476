import MinionSubsystem.UartPort

/-!
# What the receive FIFO gets

`uart_rx_fifo` is written at the falling edge of every clock in which `received` is
high and `u_recv`, its copy one clock later, still low; the entry is the byte under the
error flag. The acknowledge, which is `u_recv`, clears both flags, and only a received
byte causes one: the error of a badly framed byte waits for the next good byte and is
stored with it. `errorHeld` is the flag that no acknowledge is on its way to.
-/

namespace MinionSubsystem.UartReceive

open MinionSubsystem.ClockedRun
open MinionSubsystem.Uart
open MinionSubsystem.UartLoopback
open MinionSubsystem.UartPort

set_option autoImplicit false

/-- `{recv_err, core_lsu_rx_byte}`. -/
def entry (error : Bool) (byte : BitVec 8) : BitVec 9 := BitVec.ofBool error ++ byte

/-- The write port of `uart_rx_fifo` in a clock, a write if `wr_en` is high. -/
def fifoWrite (s : Soc) : Option (BitVec 9) :=
  if s.uart.rx.received && !s.port.uRecv then some (entry s.uart.rx.recvError s.uart.rx.rxByte)
  else none

def errorHeld (s : Soc) : Bool :=
  s.uart.rx.recvError && !s.uart.rx.received && !s.port.uRecv

theorem receiver_flags (inputs : Uart.Inputs) (line : Bool) (rx : Receiver)
    (running : inputs.rst = false) :
    (rx.step inputs line).received =
        (decide (rx.recvState = .received) || rx.received && !inputs.recvAck) ∧
      (rx.step inputs line).recvError =
        (decide (rx.recvState = .error) || rx.recvError && !inputs.recvAck) := by
  have divided : ∀ kept : Receiver, (kept.divide inputs.baud).received = kept.received ∧
      (kept.divide inputs.baud).recvError = kept.recvError := by
    intro kept
    rw [Receiver.divide]
    split_ifs <;> exact ⟨rfl, rfl⟩
  have advanced : ∀ kept : Receiver,
      (kept.advance inputs.baud line).received =
          (decide (kept.recvState = .received) || kept.received) ∧
        (kept.advance inputs.baud line).recvError =
          (decide (kept.recvState = .error) || kept.recvError) := by
    intro kept
    cases state : kept.recvState with
    | idle | checkStart | readBits | checkStop =>
        simp only [Receiver.advance, state]
        split_ifs <;> exact ⟨rfl, rfl⟩
    | delayRestart | error | received =>
        simp only [Receiver.advance, state]
        exact ⟨rfl, rfl⟩
  rw [Receiver.step, running, if_neg Bool.false_ne_true]
  cases ack : inputs.recvAck with
  | false =>
      have state := (receiver_divide_keeps inputs.baud rx).1
      rw [if_neg Bool.false_ne_true, (advanced _).1, (advanced _).2, (divided _).1, (divided _).2,
        state]
      simp
  | true =>
      have state := (receiver_divide_keeps inputs.baud rx.acknowledge).1
      rw [if_pos rfl, (advanced _).1, (advanced _).2, (divided _).1, (divided _).2, state,
        Bool.not_true, Bool.and_false, Bool.and_false]
      exact ⟨rfl, rfl⟩

variable {i : BusInputs} {s : Soc}

theorem step_flags (released : i.rstn = true) :
    (step i s).uart.rx.received =
        (decide (s.uart.rx.recvState = .received) || s.uart.rx.received && !s.port.uRecv) ∧
      (step i s).uart.rx.recvError =
        (decide (s.uart.rx.recvState = .error) || s.uart.rx.recvError && !s.port.uRecv) ∧
      (step i s).port.uRecv = s.uart.rx.received := by
  rw [step_released released]
  have flags := receiver_flags (uartInputs i s.port) i.rx s.uart.rx
    (uart_inputs_running released s.port)
  exact ⟨flags.1, flags.2, clocked_recv s.uart.rx.received i.write s.port⟩

/-- A clock that ends no frame writes nothing and keeps the error that is held. -/
theorem quiet_clock (released : i.rstn = true) (good : s.uart.rx.recvState ≠ .received)
    (bad : s.uart.rx.recvState ≠ .error) :
    fifoWrite (step i s) = none ∧ errorHeld (step i s) = errorHeld s := by
  obtain ⟨received, recvError, uRecv⟩ := step_flags (s := s) released
  rw [decide_eq_false good, Bool.false_or] at received
  rw [decide_eq_false bad, Bool.false_or] at recvError
  rw [fifoWrite, errorHeld, errorHeld, received, recvError, uRecv]
  cases s.uart.rx.received <;> cases s.uart.rx.recvError <;> cases s.port.uRecv <;>
    exact ⟨rfl, rfl⟩

theorem silent_flags (silent : fifoWrite s = none) :
    (s.uart.rx.received && !s.port.uRecv) = false := by
  rw [fifoWrite] at silent
  split_ifs at silent with writes
  exact Bool.eq_false_iff.mpr writes

theorem step_receiver (released : i.rstn = true) :
    (step i s).uart.rx = s.uart.rx.step (uartInputs i s.port) i.rx := by
  rw [step_released released]
  rfl

/-- A frame as it is sent: a byte under a start bit, the bit at the place of the stop bit,
and the clocks of idle line behind them. -/
structure LineFrame where
  byte : BitVec 8
  stop : Bool
  gap : Nat

def LineFrame.bit (frame : LineFrame) (index : Nat) : Bool :=
  if index < 9 then frameBit frame.byte index else frame.stop

def LineFrame.clocks (baud : BitVec 16) (frame : LineFrame) : Nat :=
  40 * period baud + frame.gap

/-- The line carries the frame from `clock` on, in the bit time of the uart. -/
structure OnLine (baud : BitVec 16) (inputs : Nat → BusInputs) (clock : Nat)
    (frame : LineFrame) : Prop where
  sent : ∀ age, age < 40 * period baud →
    (inputs (clock + age)).rx = frame.bit (age / period baud / 4)
  idle : ∀ age, 40 * period baud ≤ age → age < frame.clocks baud → (inputs (clock + age)).rx = true

/-- The receiver is idle; the flags may still wait for the acknowledge of a byte. -/
structure Awaiting (baud : BitVec 16) (error : Bool) (s : Soc) : Prop where
  receiver : s.uart.rx.recvState = .idle
  uBaud : s.port.uBaud = baud
  held : errorHeld s = error

structure Hearing (baud : BitVec 16) (old byte : BitVec 8) (error : Bool) (age : Nat) (s : Soc) :
    Prop where
  sampling : Sampling baud old byte age s.uart.rx
  uBaud : s.port.uBaud = baud
  held : errorHeld s = error
  silent : fifoWrite s = none
  received : 1 ≤ age → s.uart.rx.received = false
  uRecv : 2 ≤ age → s.port.uRecv = false

/-- The stop bit has been sampled. -/
structure Heard (baud : BitVec 16) (byte : BitVec 8) (stop error : Bool) (s : Soc) : Prop where
  state : s.uart.rx.recvState = if stop then .received else .error
  data : s.uart.rx.rxData = byte
  divider : s.uart.rx.rxClkDivider = dividerAt baud (38 * period baud)
  uBaud : s.port.uBaud = baud
  recvError : s.uart.rx.recvError = error
  received : s.uart.rx.received = false
  uRecv : s.port.uRecv = false

theorem Heard.silent {baud : BitVec 16} {byte : BitVec 8} {stop error : Bool}
    (heard : Heard baud byte stop error s) : fifoWrite s = none := by
  rw [fifoWrite, heard.received]
  rfl

theorem sampling_state_apart (ticks : Nat) :
    samplingState ticks ≠ .received ∧ samplingState ticks ≠ .error := by
  rw [samplingState]
  split_ifs <;> exact ⟨by decide, by decide⟩

/-- A sample before the last one is of a data bit or the start bit. -/
theorem sample_before_stop (ticks : Nat) (due : samplingLeft ticks = 1) (inside : ticks + 1 < 38) :
    (ticks + 1) / 4 < 9 := by
  rw [samplingLeft] at due
  split_ifs at due <;> omega

section Frame

variable {baud : BitVec 16} {old : BitVec 8} {error : Bool} {age : Nat} {frame : LineFrame}

theorem hearing_starts (byte : BitVec 8) (running : Running i) (awaiting : Awaiting baud error s)
    (low : i.rx = false) : Hearing baud s.uart.rx.rxData byte error 0 (step i s) := by
  obtain ⟨idle, rfl, held⟩ := awaiting
  have good : s.uart.rx.recvState ≠ .received := by rw [idle]; decide
  have bad : s.uart.rx.recvState ≠ .error := by rw [idle]; decide
  obtain ⟨silent, kept⟩ := quiet_clock running.released good bad
  refine ⟨?_, step_baud running, kept.trans held, silent, by omega, by omega⟩
  rw [step_receiver running.released, low]
  exact sampling_start byte s.uart.rx (uart_inputs_running running.released s.port) idle

theorem hearing_clock (running : Running i) (hearing : Hearing baud old frame.byte error age s)
    (inside : age + 1 < 38 * period baud)
    (line : i.rx = frame.bit ((age + 1) / period baud / 4)) :
    Hearing baud old frame.byte error (age + 1) (step i s) := by
  obtain ⟨sampling, rfl, held, before, received, -⟩ := hearing
  obtain ⟨positive, -⟩ := period_bounds s.port.uBaud
  have apart := sampling_state_apart (age / period s.port.uBaud)
  rw [← sampling.state] at apart
  obtain ⟨silent, kept⟩ := quiet_clock running.released apart.1 apart.2
  obtain ⟨nextReceived, _, nextURecv⟩ := step_flags (s := s) running.released
  rw [decide_eq_false apart.1, Bool.false_or] at nextReceived
  have here : (age + 1) / period s.port.uBaud < 38 :=
    (Nat.div_lt_iff_lt_mul positive).mpr inside
  refine ⟨?_, step_baud running, kept.trans held, silent, fun _ => ?_, fun late => ?_⟩
  · rw [step_receiver running.released]
    have released := uart_inputs_running running.released s.port
    apply sampling_step old frame.byte age i.rx s.uart.rx released sampling here
    intro tick due
    obtain ⟨-, -, next⟩ := divider_at_tick s.port.uBaud age tick
    rw [next] at here
    have place : (age / period s.port.uBaud + 1) / 4 < 9 := sample_before_stop _ due here
    change i.rx = frameBit frame.byte ((age + 1) / period s.port.uBaud / 4)
    rw [line, LineFrame.bit, next, if_pos place]
  · rw [nextReceived]
    exact silent_flags before
  · rw [nextURecv, received (by omega)]

theorem hearing_last (running : Running i) (hearing : Hearing baud old frame.byte error age s)
    (last : age + 1 = 38 * period baud) (line : i.rx = frame.stop) :
    Heard baud frame.byte frame.stop error (step i s) := by
  obtain ⟨sampling, rfl, held, before, received, uRecv⟩ := hearing
  obtain ⟨positive, -⟩ := period_bounds s.port.uBaud
  have apart := sampling_state_apart (age / period s.port.uBaud)
  rw [← sampling.state] at apart
  obtain ⟨nextReceived, nextError, nextURecv⟩ := step_flags (s := s) running.released
  rw [decide_eq_false apart.1, Bool.false_or, silent_flags before] at nextReceived
  rw [decide_eq_false apart.2, Bool.false_or, uRecv (by omega), Bool.not_false,
    Bool.and_true] at nextError
  rw [received (by omega)] at nextURecv
  rw [errorHeld, received (by omega), uRecv (by omega), Bool.not_false, Bool.and_true,
    Bool.and_true] at held
  obtain ⟨state, data, divider⟩ := sampling_stop old frame.byte age i.rx s.uart.rx
    (uart_inputs_running running.released s.port) sampling last
  rw [← step_receiver running.released] at state data divider
  rw [line] at state
  exact
    { state := state
      data := data
      divider := divider
      uBaud := step_baud running
      recvError := nextError.trans held
      received := nextReceived
      uRecv := nextURecv }

/-- A received byte is written with the error that was held, and takes it away. -/
theorem heard_good (running : Running i) (heard : Heard baud frame.byte true error s) :
    fifoWrite (step i s) = some (entry error frame.byte) ∧ Awaiting baud false (step i s) := by
  obtain ⟨state, data, -, uBaud, recvError, received, uRecv⟩ := heard
  obtain ⟨nextReceived, nextError, nextURecv⟩ := step_flags (s := s) running.released
  rw [if_pos rfl] at state
  rw [state] at nextReceived nextError
  rw [recvError, uRecv] at nextError
  rw [received] at nextURecv
  obtain ⟨idle, byte⟩ := received_step i.rx s.uart.rx
    (uart_inputs_running running.released s.port) state
  rw [← step_receiver running.released] at idle byte
  have high : (step i s).uart.rx.received = true := nextReceived
  have flag : (step i s).uart.rx.recvError = error := by
    rw [nextError]
    simp
  refine ⟨?_, idle, (step_baud running).trans uBaud, ?_⟩
  · rw [fifoWrite, high, nextURecv, flag, byte, data]
    rfl
  · rw [errorHeld, high, flag]
    simp

/-- A clock of idle line, whatever is written to the port. -/
theorem idle_clock (released : i.rstn = true) (awaiting : Awaiting baud error s)
    (high : i.rx = true) :
    fifoWrite (step i s) = none ∧ Awaiting (step i s).port.uBaud error (step i s) := by
  obtain ⟨idle, -, held⟩ := awaiting
  have good : s.uart.rx.recvState ≠ .received := by rw [idle]; decide
  have bad : s.uart.rx.recvState ≠ .error := by rw [idle]; decide
  obtain ⟨silent, kept⟩ := quiet_clock released good bad
  refine ⟨silent, ?_, rfl, kept.trans held⟩
  rw [step_receiver released, high]
  exact receiver_idle_step s.uart.rx (uart_inputs_running released s.port) idle

theorem awaiting_idle (running : Running i) (awaiting : Awaiting baud error s)
    (high : i.rx = true) : fifoWrite (step i s) = none ∧ Awaiting baud error (step i s) := by
  have clock := idle_clock running.released awaiting high
  rw [step_baud running, awaiting.uBaud] at clock
  exact clock

/-- The receiver waits for eight ticks; `since` is the tick count it started at. -/
structure Restarting (baud : BitVec 16) (since age : Nat) (rx : Receiver) : Prop where
  state : rx.recvState = .delayRestart
  divider : rx.rxClkDivider = dividerAt baud age
  countdown : rx.rxCountdown = BitVec.ofNat 6 (8 - (age / period baud - since))

theorem error_step {inputs : Uart.Inputs} (age : Nat) (line : Bool) (rx : Receiver)
    (running : inputs.rst = false) (state : rx.recvState = .error)
    (divider : rx.rxClkDivider = dividerAt inputs.baud age) :
    Restarting inputs.baud ((age + 1) / period inputs.baud) (age + 1) (rx.step inputs line) := by
  obtain ⟨kept, step, sameDivider, sameState, -⟩ := receiver_step_running running line rx
  have current := sameState.trans state
  rw [step]
  by_cases tick : (age + 1) % period inputs.baud = 0
  · rw [receiver_divide_tick inputs.baud age kept (sameDivider.trans divider) tick]
    simp only [Receiver.advance, current]
    refine ⟨rfl, rfl, ?_⟩
    rw [Nat.sub_self]
    rfl
  · rw [receiver_divide_between inputs.baud age kept (sameDivider.trans divider) tick]
    simp only [Receiver.advance, current]
    refine ⟨rfl, rfl, ?_⟩
    rw [Nat.sub_self]
    rfl

theorem restarting_step {inputs : Uart.Inputs} (since : Nat) (line : Bool) (rx : Receiver)
    (running : inputs.rst = false) (restarting : Restarting inputs.baud since age rx)
    (started : since ≤ age / period inputs.baud) (waits : age / period inputs.baud < since + 8) :
    if (age + 1) / period inputs.baud < since + 8 then
      Restarting inputs.baud since (age + 1) (rx.step inputs line)
    else (rx.step inputs line).recvState = .idle := by
  obtain ⟨kept, step, sameDivider, sameState, sameCountdown, -⟩ :=
    receiver_step_running running line rx
  have state := sameState.trans restarting.state
  have divider := sameDivider.trans restarting.divider
  have countdown := sameCountdown.trans restarting.countdown
  rw [step]
  by_cases tick : (age + 1) % period inputs.baud = 0
  · obtain ⟨-, -, next⟩ := divider_at_tick inputs.baud age tick
    rw [receiver_divide_tick inputs.baud age kept divider tick, next]
    generalize age / period inputs.baud = ticks at next started waits countdown
    have down : kept.rxCountdown - 1 = BitVec.ofNat 6 (8 - (ticks + 1 - since)) := by
      rw [countdown, show 8 - (ticks - since) = 8 - (ticks + 1 - since) + 1 by omega, of_nat_pred]
    simp only [Receiver.advance, state]
    by_cases more : ticks + 1 < since + 8
    · have pending : kept.rxCountdown - 1 ≠ 0 := by
        rw [down]
        exact of_nat_ne_zero 6 _ (by omega) (by omega)
      simp only [more, pending, if_true, ne_eq, not_false_eq_true]
      exact ⟨rfl, rfl, by rw [next]; exact down⟩
    · have ended : kept.rxCountdown - 1 = 0 := by
        rw [down, show 8 - (ticks + 1 - since) = 0 by omega]
        rfl
      simp only [more, ended, if_false, ne_eq, not_true_eq_false]
  · obtain ⟨-, -, same⟩ := divider_at_between inputs.baud age tick
    have some : kept.rxCountdown ≠ 0 := by
      rw [countdown]
      exact of_nat_ne_zero 6 _ (by omega) (by omega)
    rw [receiver_divide_between inputs.baud age kept divider tick, same, if_pos waits]
    simp only [Receiver.advance, state, some, if_true, ne_eq, not_false_eq_true]
    exact ⟨rfl, rfl, by rw [same]; exact countdown⟩

/-- From the error to the end of the frame: the wait, and then an idle receiver. -/
structure Pausing (baud : BitVec 16) (since age : Nat) (s : Soc) : Prop where
  receiver : if age / period baud < since + 8 then Restarting baud since age s.uart.rx
    else s.uart.rx.recvState = .idle
  uBaud : s.port.uBaud = baud
  held : errorHeld s = true

theorem heard_bad (running : Running i) (heard : Heard baud frame.byte false error s) :
    fifoWrite (step i s) = none ∧
      Pausing baud ((38 * period baud + 1) / period baud) (38 * period baud + 1) (step i s) := by
  obtain ⟨state, -, divider, rfl, recvError, received, uRecv⟩ := heard
  obtain ⟨nextReceived, nextError, nextURecv⟩ := step_flags (s := s) running.released
  rw [if_neg Bool.false_ne_true] at state
  rw [state, received] at nextReceived
  rw [state] at nextError
  rw [received] at nextURecv
  have low : (step i s).uart.rx.received = false := nextReceived
  have flag : (step i s).uart.rx.recvError = true := nextError
  have restarting := error_step (38 * period s.port.uBaud) i.rx s.uart.rx
    (uart_inputs_running running.released s.port) state divider
  rw [← step_receiver running.released] at restarting
  refine ⟨?_, ?_, step_baud running, ?_⟩
  · rw [fifoWrite, low]
    rfl
  · rw [if_pos (Nat.lt_add_of_pos_right (by decide))]
    exact restarting
  · rw [errorHeld, flag, low, nextURecv]
    rfl

theorem pausing_clock {since : Nat} (running : Running i) (pausing : Pausing baud since age s)
    (started : since ≤ age / period baud)
    (high : since + 8 ≤ age / period baud → i.rx = true) :
    fifoWrite (step i s) = none ∧ Pausing baud since (age + 1) (step i s) := by
  obtain ⟨receiver, rfl, held⟩ := pausing
  have released := uart_inputs_running running.released s.port
  by_cases waits : age / period s.port.uBaud < since + 8
  · rw [if_pos waits] at receiver
    have good : s.uart.rx.recvState ≠ .received := by rw [receiver.state]; decide
    have bad : s.uart.rx.recvState ≠ .error := by rw [receiver.state]; decide
    obtain ⟨silent, kept⟩ := quiet_clock running.released good bad
    refine ⟨silent, ?_, step_baud running, kept.trans held⟩
    have next := restarting_step since i.rx s.uart.rx released receiver started waits
    rw [← step_receiver running.released] at next
    exact next
  · rw [if_neg waits] at receiver
    have awaiting : Awaiting s.port.uBaud true s := ⟨receiver, rfl, held⟩
    obtain ⟨silent, idle, uBaud, kept⟩ := awaiting_idle running awaiting (high (by omega))
    refine ⟨silent, ?_, uBaud, kept⟩
    have later : age / period s.port.uBaud ≤ (age + 1) / period s.port.uBaud :=
      Nat.div_le_div_right (Nat.le_succ age)
    rw [if_neg (by omega)]
    exact idle

end Frame

/-- The frames come one behind the other, the first at `clock`. -/
def Carries (baud : BitVec 16) (inputs : Nat → BusInputs) : Nat → List LineFrame → Prop
  | _, [] => True
  | clock, frame :: frames =>
      OnLine baud inputs clock frame ∧ Carries baud inputs (clock + frame.clocks baud) frames

def pushed (baud : BitVec 16) (start : Soc) (inputs : Nat → BusInputs) (clock : Nat)
    (frame : LineFrame) : List (BitVec 9) :=
  transferred fifoWrite (run step start inputs) (clock + 1) (frame.clocks baud)

section Run

variable {baud : BitVec 16} {error : Bool} {frame : LineFrame} {start : Soc}
  {inputs : Nat → BusInputs} {clock : Nat}

theorem hearing_run (running : ∀ clock, Running (inputs clock))
    (awaiting : Awaiting baud error (run step start inputs clock))
    (line : OnLine baud inputs clock frame) (age : Nat) (inside : age < 38 * period baud) :
    Hearing baud (run step start inputs clock).uart.rx.rxData frame.byte error age
      (run step start inputs (clock + 1 + age)) := by
  obtain ⟨positive, -⟩ := period_bounds baud
  induction age with
  | zero =>
      have low := line.sent 0 (by omega)
      rw [Nat.zero_div] at low
      exact hearing_starts frame.byte (running clock) awaiting low
  | succ age ih =>
      have hearing := ih (by omega)
      have bit := line.sent (age + 1) (by omega)
      rw [← Nat.add_assoc, Nat.add_right_comm] at bit
      exact hearing_clock (running (clock + 1 + age)) hearing inside bit

theorem heard_run (running : ∀ clock, Running (inputs clock))
    (awaiting : Awaiting baud error (run step start inputs clock))
    (line : OnLine baud inputs clock frame) :
    Heard baud frame.byte frame.stop error
      (run step start inputs (clock + 1 + 38 * period baud)) := by
  obtain ⟨positive, -⟩ := period_bounds baud
  obtain ⟨age, last⟩ : ∃ age, 38 * period baud = age + 1 := ⟨38 * period baud - 1, by omega⟩
  have hearing := hearing_run running awaiting line age (by omega)
  have bit := line.sent (38 * period baud) (by omega)
  rw [Nat.mul_div_cancel _ positive] at bit
  have place : clock + 38 * period baud = clock + 1 + age := by omega
  rw [place] at bit
  rw [last]
  exact hearing_last (running (clock + 1 + age)) hearing last.symm bit

theorem silent_before_stop (running : ∀ clock, Running (inputs clock))
    (awaiting : Awaiting baud error (run step start inputs clock))
    (line : OnLine baud inputs clock frame) :
    transferred fifoWrite (run step start inputs) (clock + 1) (38 * period baud + 1) = [] := by
  have silent := transferred_silent fifoWrite (run step start inputs) (clock + 1) 0
    (38 * period baud + 1)
  rw [Nat.zero_add, Nat.add_zero] at silent
  apply silent
  intro offset bound
  by_cases hearing : offset < 38 * period baud
  · exact (hearing_run running awaiting line offset hearing).silent
  · obtain rfl : offset = 38 * period baud := by omega
    exact (heard_run running awaiting line).silent

/-- Idle line behind a state in which the receiver waits. -/
theorem awaiting_run (running : ∀ clock, Running (inputs clock)) (count : Nat)
    (awaiting : Awaiting baud error (run step start inputs clock))
    (high : ∀ offset, offset < count → (inputs (clock + offset)).rx = true) :
    Awaiting baud error (run step start inputs (clock + count)) ∧
      transferred fifoWrite (run step start inputs) (clock + 1) count = [] := by
  induction count with
  | zero => exact ⟨awaiting, rfl⟩
  | succ count ih =>
      obtain ⟨waits, nothing⟩ := ih fun offset bound => high offset (by omega)
      obtain ⟨silent, still⟩ :=
        awaiting_idle (running (clock + count)) waits (high count (Nat.lt_succ_self _))
      refine ⟨still, ?_⟩
      rw [transferred_succ, nothing, Nat.add_right_comm, run_succ, silent]
      rfl

theorem good_frame (running : ∀ clock, Running (inputs clock))
    (awaiting : Awaiting baud error (run step start inputs clock))
    (line : OnLine baud inputs clock frame) (good : frame.stop = true) :
    pushed baud start inputs clock frame = [entry error frame.byte] ∧
      Awaiting baud false (run step start inputs (clock + frame.clocks baud)) := by
  obtain ⟨positive, -⟩ := period_bounds baud
  have heard := heard_run running awaiting line
  rw [good] at heard
  obtain ⟨written, awaits⟩ := heard_good (running (clock + 1 + 38 * period baud)) heard
  have high : ∀ offset, offset < 2 * period baud - 2 + frame.gap →
      (inputs (clock + 1 + 38 * period baud + 1 + offset)).rx = true := by
    intro offset bound
    have place : clock + 1 + 38 * period baud + 1 + offset =
        clock + (38 * period baud + 2 + offset) := by omega
    rw [place]
    by_cases sends : 38 * period baud + 2 + offset < 40 * period baud
    · have least : 38 ≤ (38 * period baud + 2 + offset) / period baud :=
        (Nat.le_div_iff_mul_le positive).mpr (by omega)
      rw [line.sent _ sends, LineFrame.bit, if_neg (by omega), good]
    · exact line.idle _ (by omega) (by rw [LineFrame.clocks]; omega)
  obtain ⟨rests, nothing⟩ := awaiting_run running _ awaits high
  have whole : frame.clocks baud =
      38 * period baud + 1 + 1 + (2 * period baud - 2 + frame.gap) := by
    rw [LineFrame.clocks]
    omega
  constructor
  · have before := silent_before_stop running awaiting line
    have stop : clock + 1 + (38 * period baud + 1) = clock + 1 + 38 * period baud + 1 := by omega
    have behind : clock + 1 + (38 * period baud + 1 + 1) =
        clock + 1 + 38 * period baud + 1 + 1 := by omega
    rw [pushed, whole, transferred_add, transferred_succ, before, stop, run_succ, written, behind,
      nothing]
    rfl
  · have place : clock + frame.clocks baud =
        clock + 1 + 38 * period baud + 1 + (2 * period baud - 2 + frame.gap) := by omega
    rw [place]
    exact rests

theorem pausing_run (running : ∀ clock, Running (inputs clock))
    (awaiting : Awaiting baud error (run step start inputs clock))
    (line : OnLine baud inputs clock frame) (bad : frame.stop = false) (waited : Nat)
    (bound : 38 * period baud + 1 + waited < frame.clocks baud) :
    Pausing baud ((38 * period baud + 1) / period baud) (38 * period baud + 1 + waited)
        (run step start inputs (clock + 1 + 38 * period baud + 1 + waited)) ∧
      transferred fifoWrite (run step start inputs) (clock + 1 + 38 * period baud + 1)
        (waited + 1) = [] := by
  obtain ⟨positive, -⟩ := period_bounds baud
  induction waited with
  | zero =>
      have heard := heard_run running awaiting line
      rw [bad] at heard
      obtain ⟨silent, pausing⟩ := heard_bad (running (clock + 1 + 38 * period baud)) heard
      refine ⟨pausing, ?_⟩
      rw [transferred_succ, transferred_zero, Nat.add_zero, run_succ, silent]
      rfl
  | succ waited ih =>
      obtain ⟨pausing, nothing⟩ := ih (by omega)
      have started : (38 * period baud + 1) / period baud ≤
          (38 * period baud + 1 + waited) / period baud :=
        Nat.div_le_div_right (Nat.le_add_right _ _)
      have base : 38 ≤ (38 * period baud + 1) / period baud :=
        (Nat.le_div_iff_mul_le positive).mpr (by omega)
      have high : (38 * period baud + 1) / period baud + 8 ≤
          (38 * period baud + 1 + waited) / period baud →
            (inputs (clock + 1 + 38 * period baud + 1 + waited)).rx = true := by
        intro passed
        have late : 46 * period baud ≤ 38 * period baud + 1 + waited :=
          (Nat.le_div_iff_mul_le positive).mp (by omega)
        have place : clock + 1 + 38 * period baud + 1 + waited =
            clock + (38 * period baud + 2 + waited) := by omega
        rw [place]
        exact line.idle _ (by omega) (by omega)
      obtain ⟨silent, next⟩ := pausing_clock
        (running (clock + 1 + 38 * period baud + 1 + waited)) pausing started high
      refine ⟨next, ?_⟩
      rw [transferred_succ, nothing, ← Nat.add_assoc, run_succ, silent]
      rfl

/-- A pause of two bit times is enough for the receiver. -/
theorem bad_frame (running : ∀ clock, Running (inputs clock))
    (awaiting : Awaiting baud error (run step start inputs clock))
    (line : OnLine baud inputs clock frame) (bad : frame.stop = false)
    (pause : 8 * period baud ≤ frame.gap) :
    pushed baud start inputs clock frame = [] ∧
      Awaiting baud true (run step start inputs (clock + frame.clocks baud)) := by
  obtain ⟨positive, -⟩ := period_bounds baud
  obtain ⟨waited, whole⟩ : ∃ waited, frame.clocks baud = 38 * period baud + 1 + (waited + 1) :=
    ⟨frame.clocks baud - (38 * period baud + 2), by rw [LineFrame.clocks]; omega⟩
  obtain ⟨pausing, nothing⟩ := pausing_run running awaiting line bad waited (by omega)
  have before := silent_before_stop running awaiting line
  have length : 48 * period baud ≤ 38 * period baud + 1 + (waited + 1) := by
    rw [← whole, LineFrame.clocks]
    omega
  constructor
  · rw [pushed, whole, transferred_add, before]
    exact nothing
  · have ended : ¬(38 * period baud + 1 + waited) / period baud <
        (38 * period baud + 1) / period baud + 8 := by
      have since : (38 * period baud + 1) / period baud + 8 =
          (38 * period baud + 1 + 8 * period baud) / period baud :=
        (Nat.add_mul_div_right _ _ positive).symm
      rw [since, Nat.not_lt]
      exact Nat.div_le_div_right (by omega)
    have receiver := pausing.receiver
    rw [if_neg ended] at receiver
    have place : clock + frame.clocks baud = clock + 1 + 38 * period baud + 1 + waited := by omega
    rw [place]
    exact ⟨receiver, pausing.uBaud, pausing.held⟩

end Run

/-- The entries of a sequence of frames, `error` being held in front of it. -/
def entries : Bool → List LineFrame → List (BitVec 9)
  | _, [] => []
  | error, frame :: frames =>
      if frame.stop then entry error frame.byte :: entries false frames else entries true frames

def framesClocks (baud : BitVec 16) (frames : List LineFrame) : Nat :=
  (frames.map (LineFrame.clocks baud)).sum

/-- In the time of every well framed byte this byte is written, without the error bit, and
nothing else. -/
def Delivers (baud : BitVec 16) (start : Soc) (inputs : Nat → BusInputs) :
    Nat → List LineFrame → Prop
  | _, [] => True
  | clock, frame :: frames =>
      (frame.stop = true → pushed baud start inputs clock frame = [entry false frame.byte]) ∧
        Delivers baud start inputs (clock + frame.clocks baud) frames

/-- No well framed byte comes behind a badly framed one. -/
def GoodFirst (frames : List LineFrame) : Prop :=
  frames.Pairwise fun earlier later => later.stop = true → earlier.stop = true

/-- Behind every badly framed byte the line is idle for two bit times. -/
def Paused (baud : BitVec 16) (frames : List LineFrame) : Prop :=
  ∀ frame ∈ frames, frame.stop = false → 8 * period baud ≤ frame.gap

theorem entry_error {error other : Bool} {byte : BitVec 8}
    (same : entry error byte = entry other byte) : error = other := by
  have flag : ∀ held : Bool, (entry held byte).getLsbD 8 = held := by
    intro held
    rw [entry, BitVec.getLsbD_append, if_neg (by decide)]
    cases held <;> rfl
  rw [← flag error, same, flag]

section Sequences

variable {baud : BitVec 16} {error : Bool} {start : Soc} {inputs : Nat → BusInputs}
  {clock : Nat} {frames : List LineFrame}

theorem delivers_bad (allBad : ∀ frame ∈ frames, frame.stop = false) :
    Delivers baud start inputs clock frames := by
  induction frames generalizing clock with
  | nil => trivial
  | cons frame frames ih =>
      have bad := allBad frame List.mem_cons_self
      refine ⟨fun good => ?_, ih fun later member => allBad later (List.mem_cons_of_mem _ member)⟩
      rw [bad] at good
      cases good

/-- Whatever comes behind them, well framed bytes are written as they are until the first
badly framed one. -/
theorem good_first_delivers (running : ∀ clock, Running (inputs clock))
    (awaiting : Awaiting baud false (run step start inputs clock))
    (carries : Carries baud inputs clock frames) (goodFirst : GoodFirst frames) :
    Delivers baud start inputs clock frames := by
  induction frames generalizing clock with
  | nil => trivial
  | cons frame frames ih =>
      obtain ⟨line, rest⟩ := carries
      obtain ⟨head, tail⟩ := List.pairwise_cons.mp goodFirst
      cases stop : frame.stop with
      | true =>
          obtain ⟨written, awaits⟩ := good_frame running awaiting line stop
          exact ⟨fun _ => written, ih awaits rest tail⟩
      | false =>
          refine delivers_bad fun later member => ?_
          rcases List.mem_cons.mp member with rfl | behind
          · exact stop
          · refine Bool.eq_false_iff.mpr fun good => ?_
            rw [head later behind good] at stop
            cases stop

/-- With the pauses every frame finds the receiver waiting. -/
theorem paused_entries (running : ∀ clock, Running (inputs clock))
    (awaiting : Awaiting baud error (run step start inputs clock))
    (carries : Carries baud inputs clock frames) (paused : Paused baud frames) :
    transferred fifoWrite (run step start inputs) (clock + 1) (framesClocks baud frames) =
      entries error frames := by
  induction frames generalizing clock error with
  | nil => rfl
  | cons frame frames ih =>
      obtain ⟨line, rest⟩ := carries
      have others : Paused baud frames := fun later member =>
        paused later (List.mem_cons_of_mem _ member)
      have whole : framesClocks baud (frame :: frames) =
          frame.clocks baud + framesClocks baud frames := by
        rw [framesClocks, List.map_cons, List.sum_cons]
        rfl
      rw [whole, transferred_add, Nat.add_right_comm, entries]
      cases stop : frame.stop with
      | true =>
          obtain ⟨written, awaits⟩ := good_frame running awaiting line stop
          rw [pushed] at written
          rw [written, ih awaits rest others]
          rfl
      | false =>
          have pause := paused frame List.mem_cons_self stop
          obtain ⟨nothing, awaits⟩ := bad_frame running awaiting line stop pause
          rw [pushed] at nothing
          rw [nothing, ih awaits rest others]
          rfl

theorem paused_delivers_iff (running : ∀ clock, Running (inputs clock))
    (awaiting : Awaiting baud error (run step start inputs clock))
    (carries : Carries baud inputs clock frames) (paused : Paused baud frames) :
    Delivers baud start inputs clock frames ↔
      (error = true → ∀ frame ∈ frames, frame.stop = false) ∧ GoodFirst frames := by
  induction frames generalizing clock error with
  | nil => simp [Delivers, GoodFirst]
  | cons frame frames ih =>
      obtain ⟨line, rest⟩ := carries
      have others : Paused baud frames := fun later member =>
        paused later (List.mem_cons_of_mem _ member)
      rw [Delivers, GoodFirst, List.pairwise_cons]
      cases stop : frame.stop with
      | true =>
          obtain ⟨written, awaits⟩ := good_frame running awaiting line stop
          rw [written, ih awaits rest others]
          constructor
          · rintro ⟨same, -, tail⟩
            have clean : error = false := entry_error (List.singleton_inj.mp (same rfl))
            exact ⟨fun held => absurd held (Bool.eq_false_iff.mp clean), fun _ _ _ => rfl, tail⟩
          · rintro ⟨early, -, tail⟩
            refine ⟨fun _ => ?_, nofun, tail⟩
            cases error with
            | false => rfl
            | true =>
                have bad := early rfl frame List.mem_cons_self
                rw [stop] at bad
                cases bad
      | false =>
          have pause := paused frame List.mem_cons_self stop
          obtain ⟨nothing, awaits⟩ := bad_frame running awaiting line stop pause
          rw [ih awaits rest others]
          constructor
          · rintro ⟨-, early, tail⟩
            have allBad : ∀ later ∈ frames, later.stop = false := early rfl
            refine ⟨fun _ later member => ?_, fun later member good => ?_, tail⟩
            · rcases List.mem_cons.mp member with rfl | behind
              · exact stop
              · exact allBad later behind
            · rw [allBad later member] at good
              exact good
          · rintro ⟨-, head, tail⟩
            refine ⟨nofun, fun _ later member => ?_, tail⟩
            exact Bool.eq_false_iff.mpr fun good => Bool.false_ne_true (head later member good)

end Sequences

/-- Well framed bytes are written once, in order and without the error bit as long as no
badly framed one has come before. Where the line pauses behind a badly framed byte, the FIFO
is given `entries`, and so a well framed byte behind a badly framed one never comes clean. -/
theorem receive_fifo_entries (baud : BitVec 16) (start : Soc) (inputs : Nat → BusInputs)
    (frames : List LineFrame) (running : ∀ clock, Running (inputs clock))
    (awaiting : Awaiting baud false start) (carries : Carries baud inputs 0 frames) :
    (GoodFirst frames → Delivers baud start inputs 0 frames) ∧
      (Paused baud frames →
        transferred fifoWrite (run step start inputs) 1 (framesClocks baud frames) =
            entries false frames ∧
          (Delivers baud start inputs 0 frames ↔ GoodFirst frames)) := by
  refine ⟨good_first_delivers running awaiting carries, fun paused => ?_⟩
  have written := paused_entries running awaiting carries paused
  rw [Nat.zero_add] at written
  refine ⟨written, (paused_delivers_iff running awaiting carries paused).trans ?_⟩
  exact and_iff_right nofun

def lineOf (baud : BitVec 16) : List LineFrame → Nat → Bool
  | [], _ => true
  | frame :: frames, age =>
      if age < 40 * period baud then frame.bit (age / period baud / 4)
      else if age < frame.clocks baud then true
      else lineOf baud frames (age - frame.clocks baud)

theorem line_of_carries (baud : BitVec 16) (inputs : Nat → BusInputs) (frames : List LineFrame)
    (clock : Nat) (line : ∀ age, (inputs (clock + age)).rx = lineOf baud frames age) :
    Carries baud inputs clock frames := by
  induction frames generalizing clock with
  | nil => trivial
  | cons frame frames ih =>
      refine ⟨⟨fun age inside => ?_, fun age after inside => ?_⟩, ih _ fun age => ?_⟩
      · rw [line, lineOf, if_pos inside]
      · rw [line, lineOf, if_neg (by omega), if_pos inside]
      · have past : ¬frame.clocks baud + age < 40 * period baud := by
          rw [LineFrame.clocks]
          omega
        rw [Nat.add_assoc, line, lineOf, if_neg past, if_neg (by omega), Nat.add_sub_cancel_left]

/-- A reset with the line idle leaves a receiver that waits, and 87 in the baud register. -/
theorem reset_awaits (i : BusInputs) (s : Soc) (asserted : i.rstn = false) (high : i.rx = true) :
    Awaiting 87 false (step i s) := by
  have next : step i s =
      { port := Port.reset, uart := Uart.step (uartInputs i Port.reset) i.rx s.uart } := by
    simp only [UartPort.step, asserted, Bool.false_eq_true, if_false]
  have divided : ∀ kept : Receiver, (kept.divide 87).recvError = kept.recvError ∧
      (kept.divide 87).recvState = kept.recvState := by
    intro kept
    rw [Receiver.divide]
    split_ifs <;> exact ⟨rfl, rfl⟩
  obtain ⟨clean, idle⟩ := divided (s.uart.rx.reset 87)
  have receiver : (step i s).uart.rx = (s.uart.rx.reset 87).divide 87 := by
    rw [next]
    simp only [Uart.step, Receiver.step, uartInputs, asserted, high, Bool.not_false, if_true]
    have stays : ∀ rx : Receiver, rx.recvState = .idle → rx.advance 87 true = rx := by
      intro rx state
      simp only [Receiver.advance, state, Bool.true_eq_false, if_false]
    exact stays _ idle
  refine ⟨?_, ?_, ?_⟩
  · rw [receiver]
    exact idle
  · rw [next]
    rfl
  · rw [errorHeld, receiver, clean]
    rfl

private def carriedInputs (frames : List LineFrame) (clock : Nat) : BusInputs where
  rstn := true
  rx := lineOf 87 frames clock
  write := none

private theorem carried_running (frames : List LineFrame) (clock : Nat) :
    Running (carriedInputs frames clock) := ⟨rfl, nofun⟩

private theorem carried_frames (frames : List LineFrame) :
    Carries 87 (carriedInputs frames) 0 frames :=
  line_of_carries 87 (carriedInputs frames) frames 0 fun age => by rw [Nat.zero_add]; rfl

private def resetSoc : Soc :=
  step { rstn := false, rx := true, write := none }
    { port := Port.reset
      uart :=
        { rx :=
            { rxClkDivider := 0, recvState := .error, rxCountdown := 0, rxBitsRemaining := 0,
              rxData := 0, received := true, recvError := true, rxByte := 0 }
          tx :=
            { txClkDivider := 0, txOut := 0, txState := .sending, txCountdown := 0,
              txBitsRemaining := 0, txData := 0 } } }

private theorem reset_soc_awaits : Awaiting 87 false resetSoc := reset_awaits _ _ rfl rfl

private def goodFrame (byte : BitVec 8) : LineFrame where
  byte := byte
  stop := true
  gap := 0

private def badFrame (byte : BitVec 8) : LineFrame where
  byte := byte
  stop := false
  gap := 696

theorem receive_fifo_entries_of_two :
    (GoodFirst [goodFrame 0x41, goodFrame 0x42] →
        Delivers 87 resetSoc (carriedInputs [goodFrame 0x41, goodFrame 0x42]) 0
          [goodFrame 0x41, goodFrame 0x42]) ∧
      (Paused 87 [goodFrame 0x41, goodFrame 0x42] →
        transferred fifoWrite
              (run step resetSoc (carriedInputs [goodFrame 0x41, goodFrame 0x42])) 1
              (framesClocks 87 [goodFrame 0x41, goodFrame 0x42]) =
            entries false [goodFrame 0x41, goodFrame 0x42] ∧
          (Delivers 87 resetSoc (carriedInputs [goodFrame 0x41, goodFrame 0x42]) 0
              [goodFrame 0x41, goodFrame 0x42] ↔
            GoodFirst [goodFrame 0x41, goodFrame 0x42])) :=
  receive_fifo_entries 87 resetSoc _ _ (carried_running _) reset_soc_awaits (carried_frames _)

/-- The byte behind a badly framed one is stored with the error of that one. -/
theorem good_byte_marked :
    Carries 87 (carriedInputs [badFrame 0x41, goodFrame 0x42]) 0
        [badFrame 0x41, goodFrame 0x42] ∧
      Awaiting 87 false resetSoc ∧
      ¬Delivers 87 resetSoc (carriedInputs [badFrame 0x41, goodFrame 0x42]) 0
        [badFrame 0x41, goodFrame 0x42] := by
  refine ⟨carried_frames _, reset_soc_awaits, fun delivers => ?_⟩
  have pause : period 87 = 87 := rfl
  have paused : Paused 87 [badFrame 0x41, goodFrame 0x42] := by
    intro frame member bad
    rcases List.mem_cons.mp member with rfl | behind
    · rw [pause]
      decide
    · rw [List.mem_singleton.mp behind] at bad
      cases bad
  have goodFirst := ((paused_delivers_iff (carried_running _) reset_soc_awaits
    (carried_frames _) paused).mp delivers).2
  have stop := (List.pairwise_cons.mp goodFirst).1 (goodFrame 0x42) (List.mem_singleton.mpr rfl) rfl
  cases stop

end MinionSubsystem.UartReceive
