import MinionSubsystem.UartLoopback

/-!
# The uart behind its registers

The registers `minion_soc` keeps around the uart. They take their inputs from the
registers of the same edge, so the uart sees a write one clock later and `u_recv` is
`received` one clock late. The reset of these registers is asynchronous: while `rstn`
is low the uart sees their reset values. `rx` is the line `uart_maj`.
-/

namespace MinionSubsystem.UartPort

open MinionSubsystem.ClockedRun
open MinionSubsystem.Uart
open MinionSubsystem.UartLoopback

set_option autoImplicit false

structure Port where
  uTrans : Bool
  uRecv : Bool
  uBaud : BitVec 16
  uTxByte : BitVec 8

structure Soc where
  port : Port
  uart : Uart.State

/-- `write` is a write access to the port: `core_lsu_addr[5:2]` and `core_lsu_wdata`. -/
structure BusInputs where
  rstn : Bool
  rx : Bool
  write : Option (BitVec 4 × BitVec 32)

def Port.reset : Port where
  uTrans := false
  uRecv := false
  uBaud := 87
  uTxByte := 0

def Port.clocked (received : Bool) (write : Option (BitVec 4 × BitVec 32)) (port : Port) : Port :=
  let port := { port with uRecv := received, uTrans := false }
  match write with
  | some (0, wdata) => { port with uTrans := true, uTxByte := wdata.extractLsb' 0 8 }
  | some (1, wdata) => { port with uBaud := wdata.extractLsb' 0 16 }
  | _ => port

def uartInputs (i : BusInputs) (port : Port) : Uart.Inputs where
  rst := !i.rstn
  transmit := port.uTrans
  txByte := port.uTxByte
  baud := port.uBaud
  recvAck := port.uRecv

def step (i : BusInputs) (s : Soc) : Soc :=
  let port := if i.rstn then s.port else Port.reset
  { port := if i.rstn then port.clocked s.uart.rx.received i.write else Port.reset
    uart := Uart.step (uartInputs i port) i.rx s.uart }

/-- A clock that neither resets nor writes the baud register. -/
structure Running (i : BusInputs) : Prop where
  released : i.rstn = true
  kept : ∀ wdata, i.write ≠ some (1, wdata)

variable {i : BusInputs} {s : Soc}

theorem step_released (released : i.rstn = true) :
    step i s = { port := s.port.clocked s.uart.rx.received i.write
                 uart := Uart.step (uartInputs i s.port) i.rx s.uart } := by
  simp only [step, released, if_true]

theorem uart_inputs_running (released : i.rstn = true) (port : Port) :
    (uartInputs i port).rst = false := by
  simp [uartInputs, released]

theorem clocked_recv (received : Bool) (write : Option (BitVec 4 × BitVec 32)) (port : Port) :
    (port.clocked received write).uRecv = received := by
  unfold Port.clocked
  split <;> rfl

theorem clocked_baud (received : Bool) (port : Port) (running : Running i) :
    (port.clocked received i.write).uBaud = port.uBaud := by
  unfold Port.clocked
  split
  · rfl
  · rename_i wdata written
    exact absurd written (running.kept wdata)
  · rfl

theorem clocked_write_baud (received : Bool) (port : Port) (wdata : BitVec 32)
    (written : i.write = some (1, wdata)) :
    (port.clocked received i.write).uBaud = wdata.extractLsb' 0 16 := by
  rw [written]
  rfl

theorem step_baud (running : Running i) : (step i s).port.uBaud = s.port.uBaud := by
  rw [step_released running.released]
  exact clocked_baud s.uart.rx.received s.port running

/-- The bit of the frame that is on `tx`: 0 the start bit, 9 the first stop bit. -/
def bitOnTx (tx : Transmitter) : Option Nat :=
  if tx.txState = .sending then some (9 - tx.txBitsRemaining.toNat) else none

theorem sending_bit_on_tx (baud : BitVec 16) (byte : BitVec 8) (age : Nat) (tx : Transmitter)
    (sending : Sending baud byte age tx) (inside : age / period baud < 40) :
    bitOnTx tx = some (age / period baud / 4) := by
  have remaining : tx.txBitsRemaining.toNat = 9 - age / period baud / 4 := by
    rw [sending.bits, BitVec.toNat_ofNat]
    exact Nat.mod_eq_of_lt (Nat.lt_of_le_of_lt (Nat.sub_le 9 _) (by decide))
  rw [bitOnTx, if_pos sending.state, remaining]
  generalize age / period baud = ticks at inside
  congr 1
  omega

/-- Behind the first stop bit no bit of the frame is left. -/
theorem sending_over (inputs : Uart.Inputs) (byte : BitVec 8) (age : Nat) (tx : Transmitter)
    (running : inputs.rst = false) (sending : Sending inputs.baud byte age tx)
    (last : age + 1 = 40 * period inputs.baud) : bitOnTx (tx.step inputs) = none := by
  obtain ⟨tick, ticks⟩ := divider_at_last inputs.baud age 39 last
  obtain ⟨divider, state, countdown, bits, -⟩ := sending
  rw [ticks] at countdown bits
  have zero : tx.txCountdown - 1 = 0 := by
    rw [countdown]
    rfl
  have none : tx.txBitsRemaining = 0 := bits
  rw [transmitter_step_running running, transmitter_divide_tick inputs.baud age tx divider tick]
  simp only [Transmitter.advance, state, zero, none, if_true, ne_eq, not_true_eq_false, if_false]
  rfl

theorem period_value (baud : BitVec 16) (some : 1 ≤ baud.toNat) :
    period baud ≤ baud.toNat ∧ (period baud = baud.toNat ↔ baud.toNat ≤ 2048) := by
  have low : (baud.setWidth 11).toNat = baud.toNat % 2048 := BitVec.toNat_setWidth _ _
  rw [period]
  split_ifs with zero
  · have none : baud.toNat % 2048 = 0 := by
      rw [← low, zero]
      rfl
    omega
  · have rest : baud.toNat % 2048 ≠ 0 := by
      rw [← low]
      exact fun none => zero (BitVec.eq_of_toNat_eq none)
    rw [low]
    omega

/-- `baud` is written to the register at clock 0 and left there; at clock `accept` the
transmitter is idle and takes `byte`. -/
structure Transmission (baud : BitVec 16) (byte : BitVec 8) (accept : Nat) (start : Soc)
    (inputs : Nat → BusInputs) : Prop where
  released : (inputs 0).rstn = true
  written : ∃ wdata, (inputs 0).write = some (1, wdata) ∧ wdata.extractLsb' 0 16 = baud
  running : ∀ clock, 0 < clock → clock ≤ accept + 40 * baud.toNat → Running (inputs clock)
  later : 0 < accept
  idle : (run step start inputs accept).uart.tx.txState = .idle
  transmit : (run step start inputs accept).port.uTrans = true
  byte : (run step start inputs accept).port.uTxByte = byte

def txAt (accept : Nat) (start : Soc) (inputs : Nat → BusInputs) (age : Nat) : Transmitter :=
  (run step start inputs (accept + 1 + age)).uart.tx

/-- Start bit, data bits and first stop bit are on `tx` for `4 * baud` clocks each. -/
def HeldForBaud (baud : BitVec 16) (byte : BitVec 8) (tx : Nat → Transmitter) : Prop :=
  ∀ index, index ≤ 9 → ∀ age, age ≤ 40 * baud.toNat →
    (bitOnTx (tx age) = some index ↔
      4 * baud.toNat * index ≤ age ∧ age < 4 * baud.toNat * (index + 1)) ∧
      (bitOnTx (tx age) = some index → (tx age).line = frameBit byte index)

section Transmissions

variable {baud : BitVec 16} {byte : BitVec 8} {accept : Nat} {start : Soc}
  {inputs : Nat → BusInputs}

theorem transmission_baud (transmission : Transmission baud byte accept start inputs)
    (clock : Nat) (inside : clock ≤ accept + 40 * baud.toNat) :
    (run step start inputs (clock + 1)).port.uBaud = baud := by
  induction clock with
  | zero =>
      obtain ⟨wdata, written, low⟩ := transmission.written
      have first : run step start inputs (0 + 1) = step (inputs 0) start := rfl
      rw [first, step_released transmission.released]
      exact (clocked_write_baud start.uart.rx.received start.port wdata written).trans low
  | succ clock ih =>
      have running := transmission.running (clock + 1) (Nat.succ_pos _) inside
      rw [run_succ, step_baud running]
      exact ih (by omega)

/-- A clock of the transmission is one of the uart, with the baud value of the register. -/
theorem transmission_clock (transmission : Transmission baud byte accept start inputs)
    (clock : Nat) (after : 0 < clock) (inside : clock ≤ accept + 40 * baud.toNat) :
    ∃ i : Uart.Inputs, i.rst = false ∧ i.baud = baud ∧
      i.transmit = (run step start inputs clock).port.uTrans ∧
      i.txByte = (run step start inputs clock).port.uTxByte ∧
      (run step start inputs (clock + 1)).uart.tx =
        (run step start inputs clock).uart.tx.step i := by
  have running := transmission.running clock after inside
  have kept := transmission_baud transmission (clock - 1) (by omega)
  rw [Nat.sub_add_cancel after] at kept
  refine ⟨uartInputs (inputs clock) (run step start inputs clock).port,
    uart_inputs_running running.released _, kept, rfl, rfl, ?_⟩
  rw [run_succ, step_released running.released]
  rfl

theorem sending_run (transmission : Transmission baud byte accept start inputs) (age : Nat)
    (bound : age ≤ 40 * baud.toNat) (inside : age < 40 * period baud) :
    Sending baud byte age (txAt accept start inputs age) := by
  obtain ⟨positive, -⟩ := period_bounds baud
  induction age with
  | zero =>
      obtain ⟨i, running, kept, transmit, taken, next⟩ :=
        transmission_clock transmission accept transmission.later (by omega)
      have accepted := accept_step _ running transmission.idle
        (transmit.trans transmission.transmit)
      rw [← next, kept, taken, transmission.byte] at accepted
      exact accepted
  | succ age ih =>
      obtain ⟨i, running, kept, -, -, next⟩ :=
        transmission_clock transmission (accept + 1 + age) (by omega) (by omega)
      have sending := ih (by omega) (by omega)
      rw [← kept] at sending inside positive ⊢
      have stepped := sending_step byte age _ running sending
        ((Nat.div_lt_iff_lt_mul positive).mpr inside)
      have place : txAt accept start inputs (age + 1) =
          (txAt accept start inputs age).step i := next
      rw [place]
      exact stepped

theorem frame_over (transmission : Transmission baud byte accept start inputs)
    (fits : period baud = baud.toNat) :
    bitOnTx (txAt accept start inputs (40 * baud.toNat)) = none := by
  obtain ⟨positive, -⟩ := period_bounds baud
  obtain ⟨age, last⟩ : ∃ age, 40 * baud.toNat = age + 1 := ⟨40 * baud.toNat - 1, by omega⟩
  have sending := sending_run transmission age (by omega) (by omega)
  obtain ⟨i, running, kept, -, -, next⟩ :=
    transmission_clock transmission (accept + 1 + age) (by omega) (by omega)
  rw [← kept] at sending
  have finished := sending_over i byte age _ running sending (by rw [kept, fits, last])
  have place : txAt accept start inputs (age + 1) = (txAt accept start inputs age).step i := next
  rw [last, place]
  exact finished

/-- With the reduced divider the second bit comes early. -/
theorem second_bit_early (transmission : Transmission baud byte accept start inputs)
    (some : 1 ≤ baud.toNat) (long : 2048 < baud.toNat) :
    ¬HeldForBaud baud byte (txAt accept start inputs) := by
  intro held
  obtain ⟨positive, -⟩ := period_bounds baud
  obtain ⟨most, exactly⟩ := period_value baud some
  have less : period baud ≠ baud.toNat := fun same => absurd (exactly.mp same) (by omega)
  have sending := sending_run transmission (4 * period baud) (by omega) (by omega)
  have second := sending_bit_on_tx baud byte _ _ sending
    (by rw [Nat.mul_div_cancel _ positive]; decide)
  rw [Nat.mul_div_cancel _ positive] at second
  have first := (held 0 (by decide) (4 * period baud) (by omega)).1.mpr (by omega)
  rw [second] at first
  exact absurd first (by decide)

end Transmissions

/-- Every bit takes `4 * baud` clocks if and only if `baud` fits the divider, whose zero
stands for 2048. -/
theorem held_for_baud_iff (baud : BitVec 16) (byte : BitVec 8) (accept : Nat) (start : Soc)
    (inputs : Nat → BusInputs) (some : 1 ≤ baud.toNat)
    (transmission : Transmission baud byte accept start inputs) :
    HeldForBaud baud byte (txAt accept start inputs) ↔ baud.toNat ≤ 2048 := by
  obtain ⟨positive, -⟩ := period_bounds baud
  constructor
  · intro held
    by_contra long
    exact second_bit_early transmission some (by omega) held
  · intro fits index bit age bound
    have same := (period_value baud some).2.mpr fits
    by_cases inside : age < 40 * baud.toNat
    · have sending := sending_run transmission age bound (by omega)
      have ticks : age / period baud < 40 := (Nat.div_lt_iff_lt_mul positive).mpr (by omega)
      have shown := sending_bit_on_tx baud byte age _ sending ticks
      have line := sending_line baud byte age _ sending
      rw [shown, line]
      constructor
      · have opens : 4 * baud.toNat * index = index * (baud.toNat * 4) := by
          rw [Nat.mul_comm 4, Nat.mul_comm]
        have closes : 4 * baud.toNat * (index + 1) = index * (baud.toNat * 4) + baud.toNat * 4 := by
          rw [Nat.mul_succ, opens, Nat.mul_comm 4]
        rw [Option.some_inj, same, Nat.div_div_eq_div_mul, Nat.div_eq_iff (by omega), opens, closes]
        omega
      · intro here
        rw [Option.some.inj here]
    · have last : age = 40 * baud.toNat := by omega
      rw [last, frame_over transmission same]
      refine ⟨iff_of_false (by simp) ?_, fun none => by cases none⟩
      have most : 4 * baud.toNat * (index + 1) ≤ 4 * baud.toNat * 10 :=
        Nat.mul_le_mul_left _ (by omega)
      omega

private def writtenInputs (baud : BitVec 16) (clock : Nat) : BusInputs where
  rstn := true
  rx := true
  write :=
    if clock = 0 then some (1, baud.setWidth 32)
    else if clock = 1 then some (0, 0x55)
    else none

private def idleSoc : Soc where
  port := Port.reset
  uart :=
    { rx :=
        { rxClkDivider := 0, recvState := .idle, rxCountdown := 0, rxBitsRemaining := 0,
          rxData := 0, received := false, recvError := false, rxByte := 0 }
      tx :=
        { txClkDivider := 0, txOut := 0x1FF, txState := .idle, txCountdown := 0,
          txBitsRemaining := 0, txData := 0 } }

private theorem written_transmission (baud : BitVec 16)
    (idle : (run step idleSoc (writtenInputs baud) 2).uart.tx.txState = .idle) :
    Transmission baud 0x55 2 idleSoc (writtenInputs baud) where
  released := rfl
  written := ⟨baud.setWidth 32, rfl, by
    apply BitVec.eq_of_getLsbD_eq
    intro index inside
    have low : index < 32 := by omega
    simp [inside, low]⟩
  running := by
    intro clock after _
    refine ⟨rfl, fun wdata => ?_⟩
    simp only [writtenInputs, Nat.ne_of_gt after, if_false]
    split_ifs <;> simp
  later := by decide
  idle := idle
  transmit := rfl
  byte := rfl

theorem held_for_baud_iff_of_two :
    HeldForBaud 2 0x55 (txAt 2 idleSoc (writtenInputs 2)) ↔ (2 : BitVec 16).toNat ≤ 2048 :=
  held_for_baud_iff 2 0x55 2 idleSoc (writtenInputs 2) (by decide)
    (written_transmission 2 rfl)

/-- The value 2049 gives bits of four clocks. -/
theorem wide_baud_cut :
    Transmission 2049 0x55 2 idleSoc (writtenInputs 2049) ∧
      ¬HeldForBaud 2049 0x55 (txAt 2 idleSoc (writtenInputs 2049)) :=
  ⟨written_transmission 2049 rfl,
    second_bit_early (written_transmission 2049 rfl) (by decide) (by decide)⟩

end MinionSubsystem.UartPort
