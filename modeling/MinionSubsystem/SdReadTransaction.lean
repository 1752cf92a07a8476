import MinionSubsystem.SdCmdTiming
import MinionSubsystem.SdController

/-!
# When a read transaction completes

A read is a command with data: the command host starts the data host through
`start_data_o`, in `READ` only. The data host always comes to an end once it is
started, by the rank below; the command host does whether it is answered or
not. So a transaction completes if and only if its command is answered.
-/

namespace MinionSubsystem.SdReadTransaction

open MinionSubsystem.ClockedRun
open MinionSubsystem.SdController

set_option autoImplicit false

section DataHost

open SdDataSerialHost

def checksLeft (s : State) : Nat := (s.crcC.toNat + 1) % 32

inductive Phase (total : Nat) (s : State) : Prop where
  | waiting : s.state = .readWait → Phase total s
  | reading : s.state = .readDat → checksLeft s ≤ 16 →
      s.transfCnt.toNat + checksLeft s ≤ total + 16 → Phase total s
  | finished : s.state = .finish → Phase total s

structure Working (total : Nat) (s : State) : Prop where
  dataCycles : s.dataCycles.toNat = total + 2
  phase : Phase total s

def rank (total : Nat) (timeout : BitVec 32) (s : State) : Nat :=
  match s.state with
  | .readWait => timeout.toNat - s.waitRegO.toNat + total + 18
  | .readDat => total - s.transfCnt.toNat + checksLeft s + 1
  | .idle | .writeDat | .writeCrc | .writeBusy | .finish => 0

variable {total : Nat} {timeout : BitVec 32} {i : Inputs} {s : State}

theorem waiting_progress (running : Running i) (limit : i.timeoutI = timeout)
    (cycles : s.dataCycles.toNat = total + 2) (waits : s.state = .readWait) :
    Working total (step i s) ∧
      rank total timeout (step i s) < rank total timeout s := by
  rw [step_running i s running]
  have edge : caseEdge i s = readWaitEdge i s := by simp only [caseEdge, waits]
  have now : rank total timeout s = timeout.toNat - s.waitRegO.toNat + total + 18 := by
    simp only [rank, waits]
  rw [edge, now]
  by_cases started : 3 ≤ s.waitRegO ∧ s.datDatReg.getLsbD 0 = false
  · have next : (negedge (readWaitEdge i s)).state = .readDat := if_pos started
    have fresh : checksLeft (negedge (readWaitEdge i s)) = 16 := rfl
    have zero : (negedge (readWaitEdge i s)).transfCnt.toNat = 0 := rfl
    refine ⟨⟨cycles, .reading next (by omega) (by omega)⟩, ?_⟩
    simp only [rank, next, fresh, zero]
    omega
  · have later : (negedge (readWaitEdge i s)).state =
        if i.timeoutI ≤ s.waitRegO then .finish else s.state := if_neg started
    have bound := timeout.isLt
    by_cases late : i.timeoutI ≤ s.waitRegO
    · rw [if_pos late] at later
      refine ⟨⟨cycles, .finished later⟩, ?_⟩
      simp only [rank, later]
      omega
    · rw [if_neg late, waits] at later
      rw [BitVec.le_def, limit] at late
      have waited : (negedge (readWaitEdge i s)).waitRegO.toNat = s.waitRegO.toNat + 1 := by
        change (s.waitRegO + 1).toNat = _
        rw [BitVec.toNat_add]
        change (s.waitRegO.toNat + 1) % 2 ^ 32 = _
        exact Nat.mod_eq_of_lt (by omega)
      refine ⟨⟨cycles, .waiting later⟩, ?_⟩
      simp only [rank, later, waited]
      omega

theorem reading_progress (running : Running i) (room : total < 2 ^ 15)
    (cycles : s.dataCycles.toNat = total + 2) (reads : s.state = .readDat)
    (checks : checksLeft s ≤ 16) (inside : s.transfCnt.toNat + checksLeft s ≤ total + 16) :
    Working total (step i s) ∧
      rank total timeout (step i s) < rank total timeout s := by
  rw [step_running i s running]
  have edge : caseEdge i s = readDatEdge i s := by simp only [caseEdge, reads]
  have now : rank total timeout s = total - s.transfCnt.toNat + checksLeft s + 1 := by
    simp only [rank, reads]
  have counted : (s.transfCnt + 1).toNat = s.transfCnt.toNat + 1 :=
    counter_succ _ (by omega)
  have guard : wide s.transfCnt < wide s.dataCycles - 2 ↔ s.transfCnt.toNat < total := by
    rw [wide_lt_sub _ _ _ (by rw [cycles]; simp), cycles]
    rfl
  rw [edge, now]
  by_cases data : s.transfCnt.toNat < total
  · have branch : readDatEdge i s = readData i s := if_pos (guard.mpr data)
    have state : (negedge (readData i s)).state = .readDat := reads
    have position : (negedge (readData i s)).transfCnt.toNat = s.transfCnt.toNat + 1 := counted
    have left : checksLeft (negedge (readData i s)) = checksLeft s := rfl
    rw [branch]
    refine ⟨⟨cycles, .reading state (by omega) (by omega)⟩, ?_⟩
    simp only [rank, state, position, left]
    omega
  have past : ¬wide s.transfCnt < wide s.dataCycles - 2 := fun early => data (guard.mp early)
  by_cases done : s.crcC = 0x1F
  · have branch : readDatEdge i s = readDone i s := by
      rw [readDatEdge, if_neg past, if_neg (not_not.mpr done)]
    have state : (negedge (readDone i s)).state = .finish := rfl
    rw [branch]
    refine ⟨⟨cycles, .finished state⟩, ?_⟩
    simp only [rank, state]
    omega
  · have branch : readDatEdge i s = readCheck i s := by
      rw [readDatEdge, if_neg past, if_pos done]
    have state : (negedge (readCheck i s)).state = .readDat := reads
    have position : (negedge (readCheck i s)).transfCnt.toNat = s.transfCnt.toNat + 1 := counted
    have fewer : checksLeft (negedge (readCheck i s)) + 1 = checksLeft s := by
      have bound := s.crcC.isLt
      have pending : s.crcC.toNat ≠ 31 := by
        intro last
        exact done (BitVec.eq_of_toNat_eq last)
      change ((s.crcC - 1).toNat + 1) % 32 + 1 = (s.crcC.toNat + 1) % 32
      rw [BitVec.toNat_sub]
      simp
      omega
    rw [branch]
    refine ⟨⟨cycles, .reading state (by omega) (by omega)⟩, ?_⟩
    simp only [rank, state, position]
    omega

/-- A read that has begun is in `FINISH` within the rank. -/
theorem read_finishes (start : State) (inputs : Nat → Inputs) (room : total < 2 ^ 15)
    (running : ∀ clock, Running (inputs clock))
    (limit : ∀ clock, (inputs clock).timeoutI = timeout) (working : Working total start) :
    ∃ clock, clock ≤ rank total timeout start ∧
      (run step start inputs clock).state = .finish := by
  refine run_reaches step start inputs (Working total) (rank total timeout)
    (fun s => s.state = .finish) working ?_
  intro clock works
  cases works.phase with
  | waiting state =>
      exact Or.inr (waiting_progress (running clock) (limit clock) works.dataCycles state)
  | reading state checks inside =>
      exact Or.inr
        (reading_progress (running clock) room works.dataCycles state checks inside)
  | finished state => exact Or.inl state

/-- `FINISH` is left only when `start` is withdrawn. -/
theorem finish_held (start : State) (inputs : Nat → Inputs)
    (running : ∀ clock, Running (inputs clock)) (held : ∀ clock, (inputs clock).start ≠ 0)
    (finished : start.state = .finish) (later : Nat) :
    (run step start inputs (later + 1)).state = .finish ∧
      (run step start inputs (later + 1)).finishO = true := by
  have one : ∀ (i : Inputs) (s : State), Running i → i.start ≠ 0 → s.state = .finish →
      (step i s).state = .finish ∧ (step i s).finishO = true := by
    intro i s runs asked state
    rw [step_running i s runs]
    simp only [caseEdge, state, finishEdge, negedge, asked, if_false]
    exact ⟨trivial, trivial⟩
  induction later with
  | zero => exact one _ _ (running 0) (held 0) finished
  | succ later ih => exact one _ _ (running (later + 1)) (held (later + 1)) ih.1

/-- A host in `IDLE` that is not started stays there and takes `finish_o` back. -/
theorem idle_rests (quiet : i.start = 0) (idle : s.state = .idle) :
    (step i s).state = .idle ∧ (step i s).finishO = false := by
  cases cleared : i.rst with
  | true =>
      rw [step, if_pos cleared]
      exact ⟨rfl, rfl⟩
  | false =>
      rw [step_running i s ⟨cleared, by rw [quiet]; decide⟩]
      simp only [caseEdge, idle, idleEdge, negedge, quiet]
      exact ⟨rfl, trivial⟩

/-- A read accepted by `IDLE` has at most this rank. -/
theorem idle_begins_read (timeout : BitVec 32) (running : Running i) (idle : s.state = .idle)
    (read : i.start = 2) :
    Working (dataClocks i.bus4bit i.blksize.toNat) (step i s) ∧
      rank (dataClocks i.bus4bit i.blksize.toNat) timeout (step i s) ≤
        timeout.toNat + dataClocks i.bus4bit i.blksize.toNat + 18 := by
  rw [step_running i s running]
  have edge : caseEdge i s = idleEdge i s := by simp only [caseEdge, idle]
  have cycles := idle_data_cycles i s
  have state : (negedge (idleEdge i s)).state = .readWait := by
    simp only [negedge, idleEdge, read]
    rfl
  rw [edge]
  refine ⟨⟨cycles, .waiting state⟩, ?_⟩
  simp only [rank, state]
  omega

end DataHost

/-- A command with response and data, data start being a read, is started with both
hosts at rest. -/
structure ReadStarted (c : Controller) : Prop where
  cmdIdle : c.cmdHost.state = .idle
  startData : c.cmdHost.startDataO = false
  dataIdle : c.dataHost.state = .idle
  cmdRst : c.regs.sdCmdRst = true
  dataRst : c.regs.sdDataRst = true
  started : c.regs.sdCmdStart = true
  response : SdCmdSerialHost.withResponse c.regs.sdCmdSetting = true
  data : SdCmdSerialHost.withData c.regs.sdCmdSetting = true
  read : c.regs.sdDataStart.extractLsb' 0 2 = 2

/-- The card pulls `CMD` low in a clock in which the host listens. -/
def CommandAnswered (c : Controller) (lines : Nat → CardLines) : Prop :=
  ∃ wait, SdCmdTiming.StartBit c.regs.sdCmdTimeout
    (fun clock => (lines clock).sdCmdToHostDly) wait

/-- Both `finish` bits, as `sd_transaction_wait(0x500)` polls them. -/
def Completed (c : Controller) : Prop :=
  c.cmdHost.finishO = true ∧ c.dataHost.finishO = true

def blockClocks (regs : Registers) : Nat :=
  SdDataSerialHost.dataClocks (regs.sdDataStart.getLsbD 2) regs.sdBlksize.toNat

def readBound (regs : Registers) : Nat :=
  2 * regs.sdCmdTimeout.toNat + blockClocks regs + 200

section Transaction

variable {c : Controller} {lines : Nat → CardLines}

theorem regs_run (c : Controller) (lines : Nat → CardLines) (clock : Nat) :
    (run sdClkEdge c lines clock).regs = c.regs := by
  induction clock with
  | zero => rfl
  | succ clock ih => exact ih

def cmdStream (c : Controller) (lines : Nat → CardLines) (clock : Nat) :
    SdCmdSerialHost.Inputs :=
  cmdInputs (lines clock) c

def dataStream (c : Controller) (lines : Nat → CardLines) (clock : Nat) :
    SdDataSerialHost.Inputs :=
  dataInputs (lines clock) (run sdClkEdge c lines clock)

theorem cmd_host_run (c : Controller) (lines : Nat → CardLines) (clock : Nat) :
    (run sdClkEdge c lines clock).cmdHost =
      run SdCmdSerialHost.step c.cmdHost (cmdStream c lines) clock := by
  induction clock with
  | zero => rfl
  | succ clock ih =>
      have inputs : cmdInputs (lines clock) (run sdClkEdge c lines clock) =
          cmdStream c lines clock := by
        simp only [cmdStream, cmdInputs, regs_run]
      rw [run_succ, run_succ, ← ih, ← inputs]
      rfl

theorem data_host_run (c : Controller) (lines : Nat → CardLines) (clock : Nat) :
    (run sdClkEdge c lines clock).dataHost =
      run SdDataSerialHost.step c.dataHost (dataStream c lines) clock := by
  induction clock with
  | zero => rfl
  | succ clock ih =>
      rw [run_succ, run_succ, ← ih]
      rfl

theorem command_held (started : ReadStarted c) :
    SdCmdTiming.CommandHeld c.regs.sdCmdSetting c.regs.sdCmdTimeout c.cmdHost
      (cmdStream c lines) where
  idle := started.cmdIdle
  released := by
    intro clock
    simp only [cmdStream, cmdInputs, started.cmdRst]
    rfl
  started := fun _ => started.started
  settingI := fun _ => rfl
  timeoutI := fun _ => rfl

/-- The data host is started for as long as `start_data_o` is high. -/
theorem data_stream_start (started : ReadStarted c) (clock : Nat) :
    (dataStream c lines clock).start =
      if (run sdClkEdge c lines clock).cmdHost.startDataO then 2 else 0 := by
  simp only [dataStream, dataInputs, regs_run, started.read]

theorem data_stream_running (started : ReadStarted c) (clock : Nat) :
    SdDataSerialHost.Running (dataStream c lines clock) where
  released := by
    simp only [dataStream, dataInputs, regs_run, started.dataRst]
    rfl
  kept := by
    rw [data_stream_start started]
    split_ifs <;> decide

/-- Until `start_data_o` has been high, the data host rests. -/
theorem data_host_rests (started : ReadStarted c) (clock : Nat)
    (low : ∀ earlier, earlier < clock →
      (run sdClkEdge c lines earlier).cmdHost.startDataO = false) :
    (run sdClkEdge c lines clock).dataHost.state = .idle ∧
      (1 ≤ clock → (run sdClkEdge c lines clock).dataHost.finishO = false) := by
  induction clock with
  | zero => exact ⟨started.dataIdle, fun after => absurd after (by decide)⟩
  | succ clock ih =>
      have resting := (ih fun earlier before => low earlier (by omega)).1
      have quiet : (dataStream c lines clock).start = 0 := by
        rw [data_stream_start started, low clock (Nat.lt_succ_self clock)]
        rfl
      have rests := idle_rests quiet resting
      exact ⟨rests.1, fun _ => rests.2⟩

/-- A silent card leaves the data host in `IDLE` for good. -/
theorem silent_never_completes (started : ReadStarted c)
    (silent : ¬CommandAnswered c lines) (clock : Nat) (after : 1 ≤ clock) :
    ¬Completed (run sdClkEdge c lines clock) := by
  have unheard : ∀ wait, ¬SdCmdTiming.StartBit c.regs.sdCmdTimeout
      (fun clock => (cmdStream c lines clock).cmdDatI) wait :=
    fun wait heard => silent ⟨wait, heard⟩
  have low : ∀ earlier, (run sdClkEdge c lines earlier).cmdHost.startDataO = false := by
    intro earlier
    cases earlier with
    | zero => exact started.startData
    | succ earlier =>
        rw [cmd_host_run]
        exact SdCmdTiming.start_data_unanswered (command_held started) started.response unheard
          (earlier + 1) (Nat.succ_pos earlier)
  rintro ⟨_, finished⟩
  have rests := (data_host_rests started clock fun earlier _ => low earlier).2 after
  rw [rests] at finished
  exact absurd finished (by decide)

theorem first_answer (answered : CommandAnswered c lines) :
    ∃ wait, SdCmdTiming.Answered c.regs.sdCmdTimeout (cmdStream c lines) wait := by
  classical
  exact ⟨Nat.find answered, Nat.find_spec answered, fun _ before => Nat.find_min answered before⟩

theorem data_stream_clocks (c : Controller) (lines : Nat → CardLines) (clock : Nat) :
    SdDataSerialHost.dataClocks (dataStream c lines clock).bus4bit
      (dataStream c lines clock).blksize.toNat = blockClocks c.regs := by
  simp only [dataStream, dataInputs, regs_run]
  rfl

theorem block_clocks_room (regs : Registers) : blockClocks regs < 2 ^ 15 := by
  have small := regs.sdBlksize.isLt
  unfold blockClocks SdDataSerialHost.dataClocks
  split_ifs <;> omega

/-- The data host, from the clock that starts it. -/
theorem started_data_finishes (started : ReadStarted c) (first : Nat)
    (low : ∀ clock, clock < first → (run sdClkEdge c lines clock).cmdHost.startDataO = false)
    (high : ∀ clock, first ≤ clock → (run sdClkEdge c lines clock).cmdHost.startDataO = true)
    (clock : Nat) (after : first + c.regs.sdCmdTimeout.toNat + blockClocks c.regs + 20 ≤ clock) :
    (run sdClkEdge c lines clock).dataHost.finishO = true := by
  have running : ∀ later, SdDataSerialHost.Running (dataStream c lines later) :=
    data_stream_running started
  have asked : ∀ later, first ≤ later → (dataStream c lines later).start = 2 := by
    intro later past
    rw [data_stream_start started, high later past]
    rfl
  have limit : ∀ later, (dataStream c lines later).timeoutI = c.regs.sdCmdTimeout := by
    intro later
    simp only [dataStream, dataInputs, regs_run]
  have resting := (data_host_rests started first low).1
  have begun := idle_begins_read c.regs.sdCmdTimeout (running first) resting
    (asked first (Nat.le_refl _))
  rw [data_stream_clocks] at begun
  obtain ⟨near, bound, state⟩ := read_finishes _
    (fun later => dataStream c lines (first + 1 + later)) (block_clocks_room c.regs)
    (fun later => running (first + 1 + later)) (fun later => limit (first + 1 + later)) begun.1
  have entered : (run sdClkEdge c lines (first + 1)).dataHost =
      SdDataSerialHost.step (dataStream c lines first) (run sdClkEdge c lines first).dataHost := rfl
  rw [← entered, data_host_run, ← run_add] at state
  have held := finish_held _ (fun later => dataStream c lines (first + 1 + near + later))
    (fun later => running (first + 1 + near + later))
    (fun later => by
      rw [asked _ (by omega)]
      decide)
    state (clock - (first + 1 + near) - 1)
  have place : first + 1 + near + (clock - (first + 1 + near) - 1 + 1) = clock := by omega
  rw [← run_add, place, ← data_host_run] at held
  exact held.2

/-- An answered read has both `finish` bits set from the bound on. -/
theorem answered_completes (started : ReadStarted c) (answered : CommandAnswered c lines)
    (clock : Nat) (after : readBound c.regs ≤ clock) :
    Completed (run sdClkEdge c lines clock) := by
  obtain ⟨wait, first⟩ := first_answer answered
  have command : SdCmdTiming.CommandHeld _ _ c.cmdHost (cmdStream c lines) := command_held started
  have inTime := first.startBit.2.1
  have length := SdCmdTiming.resp_len_bound c.regs.sdCmdSetting
  have raised : ∀ later, 1 ≤ later → (run sdClkEdge c lines later).cmdHost.startDataO =
      decide (52 + wait + SdCmdSerialHost.respLen c.regs.sdCmdSetting < later) := by
    intro later past
    rw [cmd_host_run, SdCmdTiming.start_data_answered command started.response first later past,
      started.data, Bool.and_true]
  unfold readBound at after
  constructor
  · rw [cmd_host_run]
    exact SdCmdTiming.answered_finishes command started.response first clock (by omega)
  · apply started_data_finishes started
      (53 + wait + SdCmdSerialHost.respLen c.regs.sdCmdSetting)
    · intro earlier before
      cases earlier with
      | zero => exact started.startData
      | succ earlier =>
          rw [raised _ (Nat.succ_pos earlier), decide_eq_false_iff_not]
          omega
    · intro later past
      rw [raised _ (by omega), decide_eq_true_iff]
      omega
    · omega

end Transaction

/-- Within the bound both `finish` bits are set, and they stay set. -/
def ReadCompletes (c : Controller) (lines : Nat → CardLines) : Prop :=
  ∃ clock, 1 ≤ clock ∧ clock ≤ readBound c.regs ∧
    ∀ later, clock ≤ later → Completed (run sdClkEdge c lines later)

/-- A read transaction completes within the bound if and only if the card answers its
command in time; otherwise it never does. -/
theorem read_completes_iff (c : Controller) (lines : Nat → CardLines)
    (started : ReadStarted c) :
    (ReadCompletes c lines ↔ CommandAnswered c lines) ∧
      (¬CommandAnswered c lines →
        ∀ clock, 1 ≤ clock → ¬Completed (run sdClkEdge c lines clock)) := by
  have never : ¬CommandAnswered c lines →
      ∀ clock, 1 ≤ clock → ¬Completed (run sdClkEdge c lines clock) :=
    silent_never_completes started
  refine ⟨?_, never⟩
  constructor
  · rintro ⟨clock, after, _, completed⟩
    by_contra silent
    exact never silent clock after (completed clock (Nat.le_refl _))
  · intro answered
    have positive : 1 ≤ readBound c.regs := by
      unfold readBound
      omega
    exact ⟨readBound c.regs, positive, Nat.le_refl _, answered_completes started answered⟩

/-- A sector read on four lanes, as `sd_read_sector` sets it up. -/
private def sectorRead : Controller where
  regs :=
    { powerUp.regs with
      sdBlksize := 512
      sdDataStart := 6
      sdCmdI := 17
      sdCmdSetting := 5
      sdCmdStart := true
      sdClkRst := true
      sdDataRst := true
      sdCmdRst := true
      sdCmdTimeout := 500 }
  cmdHost := { SdCmdSerialHost.reset with state := .idle }
  dataHost := SdDataSerialHost.afterReset

private def absentCard (_ : Nat) : CardLines where
  sdCmdToHostDly := true
  sdDatToHostDly := 0xF
  dataOutTxFifo := 0

private theorem sector_read_started : ReadStarted sectorRead := by
  constructor <;> decide

theorem read_completes_iff_absent :
    (ReadCompletes sectorRead absentCard ↔ CommandAnswered sectorRead absentCard) ∧
      (¬CommandAnswered sectorRead absentCard →
        ∀ clock, 1 ≤ clock → ¬Completed (run sdClkEdge sectorRead absentCard clock)) :=
  read_completes_iff sectorRead absentCard sector_read_started

/-- Without a card the driver polls for ever. -/
theorem absent_card_never_completes :
    ReadStarted sectorRead ∧ ¬ReadCompletes sectorRead absentCard ∧
      ∀ clock, 1 ≤ clock → ¬Completed (run sdClkEdge sectorRead absentCard clock) := by
  have silent : ¬CommandAnswered sectorRead absentCard := by
    rintro ⟨wait, _, _, low⟩
    exact absurd low (by simp [absentCard])
  have never : ∀ clock, 1 ≤ clock → ¬Completed (run sdClkEdge sectorRead absentCard clock) :=
    silent_never_completes sector_read_started silent
  refine ⟨sector_read_started, ?_, never⟩
  rintro ⟨clock, after, _, completed⟩
  exact never clock after (completed clock (Nat.le_refl _))

end MinionSubsystem.SdReadTransaction
