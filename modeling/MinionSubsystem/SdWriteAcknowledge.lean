import MinionSubsystem.SdWriteWait

/-!
# The write acknowledge

Behind the frame the card answers on `DAT0` with a start bit, three status bits and
an end bit, and holds the line low while it is busy. `Listening` is the wait for the
start bit, `Capturing` the four clocks of `WRITE_CRC`, `Busy` the wait behind them.
The host reads a registered copy of the line and is always one clock behind it; the
clock numbers of the card are those of the line.
-/

namespace MinionSubsystem.SdWriteAcknowledge

open MinionSubsystem.BitStream
open MinionSubsystem.ClockedRun
open MinionSubsystem.SdDataSerialHost
open MinionSubsystem.SdDataWrite
open MinionSubsystem.SdWriteWait

set_option autoImplicit false

def dat0 (inputs : Nat → Inputs) (clock : Nat) : Bool := (inputs clock).datDatI.getLsbD 0

/-- What the host has registered of `DAT0`. -/
def sampled (s : State) : Bool := s.datDatReg.getLsbD 0

/-- The token: a start bit, three status bits, an end bit. -/
structure Token where
  status : Fin 3 → Bool
  stop : Bool

def Token.bit (token : Token) : Nat → Bool
  | 0 => false
  | 1 => token.status 0
  | 2 => token.status 1
  | 3 => token.status 2
  | _ => token.stop

def Token.crcS (token : Token) : BitVec 5 :=
  concatBits 5 [false, token.status 0, token.status 1, token.status 2, token.stop]

structure Listening (total count : Nat) (s : State) : Prop where
  state : s.state = .writeDat
  transfCnt : s.transfCnt.toNat = count
  dataCycles : s.dataCycles.toNat = total + 2
  crcStatus : s.crcStatus = 0
  datOeO : total + 20 ≤ count → s.datOeO = false

structure Capturing (token : Token) (taken : Nat) (s : State) : Prop where
  state : s.state = .writeCrc
  crcStatus : s.crcStatus.toNat = taken
  crcS : ∀ index, index ≤ taken → s.crcS.getLsbD (4 - index) = token.bit index
  datOeO : s.datOeO = false

structure Busy (token : Token) (busyInt : Bool) (s : State) : Prop where
  state : s.state = .writeBusy
  busyInt : s.busyInt = busyInt
  crcS : s.crcS = token.crcS
  datOeO : s.datOeO = false

variable {four : Bool} {total count : Nat} {token : Token} {i : Inputs} {s : State}

theorem write_dat_keeps_status (running : Running i) (writing : s.state = .writeDat) :
    (step i s).crcStatus = s.crcStatus := by
  rw [step_running i s running]
  simp only [negedge, caseEdge, writing, writeDatEdge]
  split_ifs <;> rfl

theorem listening_clock (running : Running i) (listening : Listening total count s)
    (behind : total + 19 ≤ count) (room : count + 1 < 2 ^ 16) (high : sampled s = true) :
    Listening total (count + 1) (step i s) := by
  have released := waiting_clock running listening.state listening.transfCnt
    listening.dataCycles behind high
  have counted := released.transfCnt
  rw [Nat.mod_eq_of_lt room] at counted
  exact
    { state := released.state
      transfCnt := counted
      dataCycles := released.dataCycles
      crcStatus := (write_dat_keeps_status running listening.state).trans listening.crcStatus
      datOeO := fun _ => released.datOeO }

theorem token_clock (running : Running i) (listening : Listening total count s)
    (behind : total + 19 ≤ count) (low : sampled s = false) :
    Capturing token 0 (step i s) := by
  have branch : caseEdge i s = writeRelease i s := by
    rcases frame_guards listening.transfCnt listening.dataCycles with
      ⟨first, sends, data, releases⟩
    simp only [caseEdge, listening.state, writeDatEdge]
    rw [if_neg (by rw [first]; omega), if_neg (by rw [sends]; omega),
      if_pos (releases.mpr behind)]
  rw [step_running i s running, branch]
  exact
    { state := by
        change (if sampled s then s.state else .writeCrc) = _
        rw [low]
        rfl
      crcStatus := congrArg BitVec.toNat listening.crcStatus
      crcS := by
        intro index none
        rw [Nat.le_zero.mp none]
        change (setBit s.crcS 4 (sampled s)).getLsbD 4 = _
        rw [low, set_bit_getLsbD]
        rfl
      datOeO := rfl }

theorem capture_clock {taken : Nat} (running : Running i) (capturing : Capturing token taken s)
    (more : taken < 3) (bit : sampled s = token.bit (taken + 1)) :
    Capturing token (taken + 1) (step i s) := by
  have counted := capturing.crcStatus
  have branch : caseEdge i s = writeCrcEdge i s := by simp only [caseEdge, capturing.state]
  have early : ¬s.crcStatus = 3 := by
    intro last
    rw [last] at counted
    change 3 = taken at counted
    omega
  rw [step_running i s running, branch]
  exact
    { state := by
        change (if s.crcStatus = 3 then HostState.writeBusy else s.state) = _
        rw [if_neg early]
        exact capturing.state
      crcStatus := by
        change (s.crcStatus + 1).toNat = _
        rw [BitVec.toNat_add, counted]
        exact Nat.mod_eq_of_lt (by change taken + 1 < 8; omega)
      crcS := by
        intro index bound
        change (setBit s.crcS (3 - s.crcStatus.toNat % 4) (sampled s)).getLsbD (4 - index) = _
        rw [set_bit_getLsbD, counted]
        by_cases newest : index = taken + 1
        · rw [if_pos (by omega), bit, newest]
        · rw [if_neg (by omega)]
          exact capturing.crcS index (by omega)
      datOeO := rfl }

/-- The end bit completes `crc_s`; `busy_int` is set whatever the line says. -/
theorem capture_last (running : Running i) (capturing : Capturing token 3 s)
    (bit : sampled s = token.stop) : Busy token true (step i s) := by
  have counted := capturing.crcStatus
  have branch : caseEdge i s = writeCrcEdge i s := by simp only [caseEdge, capturing.state]
  have last : s.crcStatus = 3 := BitVec.eq_of_toNat_eq counted
  rw [step_running i s running, branch]
  exact
    { state := by
        change (if s.crcStatus = 3 then HostState.writeBusy else s.state) = _
        rw [if_pos last]
      busyInt := rfl
      crcS := by
        change setBit s.crcS (3 - s.crcStatus.toNat % 4) (sampled s) = _
        apply BitVec.eq_of_getLsbD_eq
        intro index inside
        have earlier := capturing.crcS (4 - index)
        rw [set_bit_getLsbD, counted, Token.crcS,
          concat_bits_getLsbD _ _ (by simpa using inside) inside]
        interval_cases index
        · rw [if_pos (by decide), bit]
          rfl
        · exact earlier (by decide)
        · exact earlier (by decide)
        · exact earlier (by decide)
        · exact earlier (by decide)
      datOeO := rfl }

theorem busy_clock {busyInt : Bool} (running : Running i) (busy : Busy token busyInt s)
    (waits : busyInt = true) : Busy token (!sampled s) (step i s) := by
  have branch : caseEdge i s = writeBusyEdge i s := by simp only [caseEdge, busy.state]
  rw [step_running i s running, branch]
  exact
    { state := by
        change (if s.busyInt then s.state else HostState.finish) = _
        rw [busy.busyInt, waits]
        exact busy.state
      busyInt := rfl
      crcS := busy.crcS
      datOeO := busy.datOeO }

theorem ready_clock (running : Running i) (ready : Busy token false s) :
    (step i s).state = .finish ∧ (step i s).crcS = token.crcS ∧ (step i s).datOeO = false := by
  have branch : caseEdge i s = writeBusyEdge i s := by simp only [caseEdge, ready.state]
  rw [step_running i s running, branch]
  refine ⟨?_, ready.crcS, ready.datOeO⟩
  change (if s.busyInt then s.state else HostState.finish) = _
  rw [ready.busyInt]
  rfl

/-- The card leaves `DAT0` high until it acknowledges, `delay` clocks after the first
clock the host listens to. -/
structure Acknowledges (total delay : Nat) (token : Token) (inputs : Nat → Inputs) : Prop where
  high : ∀ clock, total + 19 ≤ clock → clock < total + 19 + delay → dat0 inputs clock = true
  token : ∀ index, index < 5 → dat0 inputs (total + 19 + delay + index) = token.bit index

/-- The card holds `DAT0` low behind the token, for `busy` clocks at least. -/
def BusyFor (total delay busy : Nat) (inputs : Nat → Inputs) : Prop :=
  ∀ clock, total + 24 + delay ≤ clock → clock < total + 24 + delay + busy →
    dat0 inputs clock = false

section Run

variable {byteCount delay busy last : Nat} {start : State} {inputs : Nat → Inputs}

theorem sampled_run (write : WriteUntil four byteCount last start inputs) {clock line : Nat}
    (next : clock = line + 1) (before : line < last) :
    sampled (run step start inputs clock) = dat0 inputs line := by
  subst next
  rw [sampled, run_succ, step_samples _ _ (write.running line before)]
  rfl

theorem framing_keeps_status (write : WriteUntil four byteCount last start inputs) (count : Nat)
    (bound : count ≤ dataClocks four byteCount + 19) (before : 1 + count ≤ last) :
    (run step start inputs (1 + count)).crcStatus = 0 := by
  induction count with
  | zero =>
      have branch : caseEdge (inputs 0) start = idleEdge (inputs 0) start := by
        simp only [caseEdge, write.idle]
      have first : run step start inputs (1 + 0) = step (inputs 0) start := rfl
      rw [first, step_running _ _ (write.running 0 (by omega)), branch]
      rfl
  | succ count ih =>
      have framing := framing_run write count (by omega) (by omega)
      have kept := write_dat_keeps_status (write.running (1 + count) (by omega)) framing.state
      exact kept.trans (ih (by omega) (by omega))

theorem listening_run (write : WriteUntil four byteCount last start inputs)
    (card : Acknowledges (dataClocks four byteCount) delay token inputs)
    (short : delay < 2 ^ 16 - (dataClocks four byteCount + 2) - 17) (waited : Nat)
    (bound : waited ≤ delay) (before : dataClocks four byteCount + 20 + waited ≤ last) :
    Listening (dataClocks four byteCount) (dataClocks four byteCount + 19 + waited)
      (run step start inputs (dataClocks four byteCount + 20 + waited)) := by
  have room := write_room write
  induction waited with
  | zero =>
      have place : dataClocks four byteCount + 20 + 0 =
          1 + (dataClocks four byteCount + 19) := by omega
      rw [place]
      have framing := framing_run write (dataClocks four byteCount + 19) (Nat.le_refl _) (by omega)
      exact
        { state := framing.state
          transfCnt := framing.transfCnt
          dataCycles := framing.dataCycles
          crcStatus := framing_keeps_status write _ (Nat.le_refl _) (by omega)
          datOeO := fun released => by omega }
  | succ waited ih =>
      have listening := ih (by omega) (by omega)
      have high : sampled (run step start inputs (dataClocks four byteCount + 20 + waited)) =
          dat0 inputs (dataClocks four byteCount + 19 + waited) :=
        sampled_run write (by omega) (by omega)
      rw [card.high _ (by omega) (by omega)] at high
      have running := write.running (dataClocks four byteCount + 20 + waited) (by omega)
      have next := listening_clock running listening (by omega) (by omega) high
      exact next

theorem capturing_run (write : WriteUntil four byteCount last start inputs)
    (card : Acknowledges (dataClocks four byteCount) delay token inputs)
    (short : delay < 2 ^ 16 - (dataClocks four byteCount + 2) - 17) (taken : Nat)
    (bound : taken ≤ 3) (before : dataClocks four byteCount + 21 + delay + taken ≤ last) :
    Capturing token taken
      (run step start inputs (dataClocks four byteCount + 21 + delay + taken)) := by
  induction taken with
  | zero =>
      have listening := listening_run write card short delay (Nat.le_refl _) (by omega)
      have low : sampled (run step start inputs (dataClocks four byteCount + 20 + delay)) =
          dat0 inputs (dataClocks four byteCount + 19 + delay) :=
        sampled_run write (by omega) (by omega)
      have next : dataClocks four byteCount + 21 + delay + 0 =
          dataClocks four byteCount + 20 + delay + 1 := by omega
      have startBit : dat0 inputs (dataClocks four byteCount + 19 + delay) = false :=
        card.token 0 (by decide)
      rw [startBit] at low
      rw [next]
      exact token_clock (write.running _ (by omega)) listening (by omega) low
  | succ taken ih =>
      have capturing := ih (by omega) (by omega)
      have bit : sampled (run step start inputs (dataClocks four byteCount + 21 + delay + taken)) =
          dat0 inputs (dataClocks four byteCount + 19 + delay + (taken + 1)) :=
        sampled_run write (by omega) (by omega)
      have running := write.running (dataClocks four byteCount + 21 + delay + taken) (by omega)
      rw [card.token _ (by omega)] at bit
      have next := capture_clock running capturing (by omega) bit
      exact next

theorem busy_run (write : WriteUntil four byteCount last start inputs)
    (card : Acknowledges (dataClocks four byteCount) delay token inputs)
    (short : delay < 2 ^ 16 - (dataClocks four byteCount + 2) - 17)
    (low : BusyFor (dataClocks four byteCount) delay busy inputs) (held : Nat)
    (bound : held ≤ busy) (before : dataClocks four byteCount + 25 + delay + held ≤ last) :
    Busy token true (run step start inputs (dataClocks four byteCount + 25 + delay + held)) := by
  induction held with
  | zero =>
      have capturing := capturing_run write card short 3 (Nat.le_refl _) (by omega)
      have bit : sampled (run step start inputs (dataClocks four byteCount + 21 + delay + 3)) =
          dat0 inputs (dataClocks four byteCount + 19 + delay + 4) :=
        sampled_run write (by omega) (by omega)
      rw [card.token 4 (by decide)] at bit
      have next : dataClocks four byteCount + 25 + delay + 0 =
          dataClocks four byteCount + 21 + delay + 3 + 1 := by omega
      rw [next]
      exact capture_last (write.running _ (by omega)) capturing bit
  | succ held ih =>
      have busy := ih (by omega) (by omega)
      have bit : sampled (run step start inputs (dataClocks four byteCount + 25 + delay + held)) =
          dat0 inputs (dataClocks four byteCount + 24 + delay + held) :=
        sampled_run write (by omega) (by omega)
      rw [low _ (by omega) (by omega)] at bit
      have running := write.running (dataClocks four byteCount + 25 + delay + held) (by omega)
      have next := busy_clock running busy rfl
      rw [bit] at next
      exact next

/-- One clock later `busy_int` shows the first sample behind the busy clocks. -/
theorem polled_run (write : WriteUntil four byteCount last start inputs)
    (card : Acknowledges (dataClocks four byteCount) delay token inputs)
    (short : delay < 2 ^ 16 - (dataClocks four byteCount + 2) - 17)
    (low : BusyFor (dataClocks four byteCount) delay busy inputs)
    (before : dataClocks four byteCount + 26 + delay + busy ≤ last) :
    Busy token (!dat0 inputs (dataClocks four byteCount + 24 + delay + busy))
      (run step start inputs (dataClocks four byteCount + 26 + delay + busy)) := by
  have busyRun := busy_run write card short low busy (Nat.le_refl _) (by omega)
  have bit : sampled (run step start inputs (dataClocks four byteCount + 25 + delay + busy)) =
      dat0 inputs (dataClocks four byteCount + 24 + delay + busy) :=
    sampled_run write (by omega) (by omega)
  have next : dataClocks four byteCount + 26 + delay + busy =
      dataClocks four byteCount + 25 + delay + busy + 1 := by omega
  rw [← bit, next]
  exact busy_clock (write.running _ (by omega)) busyRun rfl

/-- The clocks from the first one the host listens in to the last one it waits in. -/
theorem waiting_clocks (write : WriteUntil four byteCount last start inputs)
    (card : Acknowledges (dataClocks four byteCount) delay token inputs)
    (short : delay < 2 ^ 16 - (dataClocks four byteCount + 2) - 17)
    (low : BusyFor (dataClocks four byteCount) delay busy inputs) (clock : Nat)
    (after : dataClocks four byteCount + 20 ≤ clock)
    (bound : clock < dataClocks four byteCount + 27 + delay + busy) (before : clock ≤ last) :
    (run step start inputs clock).state ≠ .finish ∧
      (dataClocks four byteCount + 21 ≤ clock → (run step start inputs clock).datOeO = false) ∧
      (dataClocks four byteCount + 25 + delay ≤ clock →
        (run step start inputs clock).crcS = token.crcS) := by
  by_cases listens : clock ≤ dataClocks four byteCount + 20 + delay
  · obtain ⟨waited, rfl⟩ := Nat.exists_eq_add_of_le after
    have listening := listening_run write card short waited (by omega) before
    refine ⟨?_, fun released => listening.datOeO (by omega), fun taken => by omega⟩
    rw [listening.state]
    decide
  by_cases captures : clock ≤ dataClocks four byteCount + 24 + delay
  · obtain ⟨taken, rfl⟩ := Nat.exists_eq_add_of_le
      (by omega : dataClocks four byteCount + 21 + delay ≤ clock)
    have capturing := capturing_run write card short taken (by omega) before
    refine ⟨?_, fun _ => capturing.datOeO, fun taken => by omega⟩
    rw [capturing.state]
    decide
  by_cases polls : clock ≤ dataClocks four byteCount + 25 + delay + busy
  · obtain ⟨held, rfl⟩ := Nat.exists_eq_add_of_le
      (by omega : dataClocks four byteCount + 25 + delay ≤ clock)
    have busyRun := busy_run write card short low held (by omega) before
    refine ⟨?_, fun _ => busyRun.datOeO, fun _ => busyRun.crcS⟩
    rw [busyRun.state]
    decide
  · have place : clock = dataClocks four byteCount + 26 + delay + busy := by omega
    rw [place] at before ⊢
    have polled := polled_run write card short low before
    refine ⟨?_, fun _ => polled.datOeO, fun _ => polled.crcS⟩
    rw [polled.state]
    decide

/-- The clock behind them: `FINISH`, or one more clock of waiting. -/
theorem deciding_clock (write : WriteUntil four byteCount last start inputs)
    (card : Acknowledges (dataClocks four byteCount) delay token inputs)
    (short : delay < 2 ^ 16 - (dataClocks four byteCount + 2) - 17)
    (low : BusyFor (dataClocks four byteCount) delay busy inputs)
    (before : dataClocks four byteCount + 27 + delay + busy ≤ last) :
    ((run step start inputs (dataClocks four byteCount + 27 + delay + busy)).state = .finish ↔
      dat0 inputs (dataClocks four byteCount + 24 + delay + busy) = true) ∧
      (run step start inputs (dataClocks four byteCount + 27 + delay + busy)).datOeO = false ∧
      (run step start inputs (dataClocks four byteCount + 27 + delay + busy)).crcS =
        token.crcS := by
  have polled := polled_run write card short low (by omega)
  have running := write.running (dataClocks four byteCount + 26 + delay + busy) (by omega)
  have next : dataClocks four byteCount + 27 + delay + busy =
      dataClocks four byteCount + 26 + delay + busy + 1 := by omega
  rw [next, run_succ]
  cases released : dat0 inputs (dataClocks four byteCount + 24 + delay + busy) with
  | true =>
      rw [released] at polled
      rcases ready_clock running polled with ⟨finished, recorded, off⟩
      exact ⟨iff_of_true finished rfl, off, recorded⟩
  | false =>
      rw [released] at polled
      have waits := busy_clock running polled rfl
      refine ⟨iff_of_false ?_ (by decide), waits.datOeO, waits.crcS⟩
      rw [waits.state]
      decide

end Run

/-- What a write makes of the token and of `busy` low clocks behind it, as long as it is
neither reset nor aborted. Clock `total + 27 + delay + busy` decides: it is `FINISH` once
the line was high. -/
structure Acknowledged (total delay busy last : Nat) (token : Token) (start : State)
    (inputs : Nat → Inputs) : Prop where
  recorded : ∀ clock, total + 25 + delay ≤ clock → clock ≤ total + 27 + delay + busy →
    clock ≤ last → (run step start inputs clock).crcS = token.crcS
  waits : ∀ clock, total + 20 ≤ clock → clock < total + 27 + delay + busy → clock ≤ last →
    (run step start inputs clock).state ≠ .finish
  ready : ∀ clock, total + 20 ≤ clock → clock ≤ total + 27 + delay + busy → clock ≤ last →
    (run step start inputs clock).state = .finish →
      ∃ earlier, total + 20 ≤ earlier ∧ earlier < clock ∧
        (run step start inputs earlier).state = .writeBusy ∧
        sampled (run step start inputs earlier) = true
  finishes : total + 27 + delay + busy ≤ last →
    dat0 inputs (total + 24 + delay + busy) = true →
      (run step start inputs (total + 27 + delay + busy)).state = .finish
  off : ∀ clock, total + 21 ≤ clock → clock ≤ total + 27 + delay + busy → clock ≤ last →
    (run step start inputs clock).datOeO = false

/-- Every token is recorded and every busy time waited for, if the token comes before
`transf_cnt` is used up. -/
theorem write_acknowledged (four : Bool) (byteCount delay busy last : Nat) (token : Token)
    (start : State) (inputs : Nat → Inputs) (write : WriteUntil four byteCount last start inputs)
    (short : delay < 2 ^ 16 - (dataClocks four byteCount + 2) - 17)
    (card : Acknowledges (dataClocks four byteCount) delay token inputs)
    (low : BusyFor (dataClocks four byteCount) delay busy inputs) :
    Acknowledged (dataClocks four byteCount) delay busy last token start inputs where
  recorded := by
    intro clock taken bound before
    by_cases waiting : clock < dataClocks four byteCount + 27 + delay + busy
    · exact (waiting_clocks write card short low clock (by omega) waiting before).2.2 taken
    · obtain rfl : clock = dataClocks four byteCount + 27 + delay + busy := by omega
      exact (deciding_clock write card short low before).2.2
  waits := fun clock after waiting before =>
    (waiting_clocks write card short low clock after waiting before).1
  ready := by
    intro clock after bound before finished
    by_cases waiting : clock < dataClocks four byteCount + 27 + delay + busy
    · exact absurd finished (waiting_clocks write card short low clock after waiting before).1
    · obtain rfl : clock = dataClocks four byteCount + 27 + delay + busy := by omega
      have released := (deciding_clock write card short low before).1.mp finished
      have busyRun := busy_run write card short low busy (Nat.le_refl _) (by omega)
      have bit : sampled (run step start inputs (dataClocks four byteCount + 25 + delay + busy)) =
          dat0 inputs (dataClocks four byteCount + 24 + delay + busy) :=
        sampled_run write (by omega) (by omega)
      exact ⟨_, by omega, by omega, busyRun.state, bit.trans released⟩
  finishes := fun before released => (deciding_clock write card short low before).1.mpr released
  off := by
    intro clock after bound before
    by_cases waiting : clock < dataClocks four byteCount + 27 + delay + busy
    · exact (waiting_clocks write card short low clock (by omega) waiting before).2.1 after
    · obtain rfl : clock = dataClocks four byteCount + 27 + delay + busy := by omega
      exact (deciding_clock write card short low before).2.1

/-- Four bytes on four lanes; the card accepts them after three clocks and is busy for two. -/
private def acceptedInputs (clock : Nat) : Inputs where
  rst := false
  dataIn := 0
  datDatI :=
    if clock = 30 ∨ clock = 31 ∨ clock = 33 ∨ clock = 35 ∨ clock = 36 then 0xE else 0xF
  blksize := 4
  bus4bit := true
  start := 1
  timeoutI := 14

/-- The status 010 of a block without CRC error. -/
private def acceptedToken : Token where
  status := fun index => index = 1
  stop := true

theorem write_acknowledged_accepted :
    Acknowledged 8 3 2 40 acceptedToken afterReset acceptedInputs :=
  write_acknowledged true 4 3 2 40 acceptedToken afterReset acceptedInputs
    { idle := rfl
      write := rfl
      bus := rfl
      blksize := rfl
      running := fun _ _ => ⟨rfl, by
        change (1 : BitVec 2) ≠ 3
        decide⟩ }
    (by decide)
    { high := by
        intro clock after before
        change 27 ≤ clock at after
        change clock < 30 at before
        have early : ¬(clock = 30 ∨ clock = 31 ∨ clock = 33 ∨ clock = 35 ∨ clock = 36) := by
          omega
        simp [dat0, acceptedInputs, early]
      token := by decide }
    (by
      intro clock after before
      change 35 ≤ clock at after
      change clock < 37 at before
      have late : clock = 35 ∨ clock = 36 := by omega
      rcases late with rfl | rfl <;> rfl)

end MinionSubsystem.SdWriteAcknowledge
