import MinionSubsystem.DriverHandshake
import MinionSubsystem.ReadMap

/-!
# What `MINION_UART_INT_STATUS` tells about a command

The command host leaves `READ_WAIT` at a start bit or by timeout; the driver
guesses which from the final `wait_reg_o` and its own copy of the timeout. The
run of driver and controller is watched for both: how the host left `READ_WAIT`
for the latest command, and what the copy is.
-/

namespace MinionSubsystem.IntStatus

open MinionSubsystem.ClockedRun
open MinionSubsystem.DriverHandshake
open MinionSubsystem.MinionDriver
open MinionSubsystem.ReadMap
open MinionSubsystem.SdController

set_option autoImplicit false

def uartIntResponse : BitVec 32 := 0x00000001

def uartIntDataAvail : BitVec 32 := 0x00000020

def uartIntError : BitVec 32 := 0x00008000

/-- `minion_uart_read(host, MINION_UART_INT_STATUS)`; the comparison is unsigned. -/
def minionUartReadIntStatus (timeoutControl : BitVec 32) (soc : Soc) : BitVec 32 :=
  if sdResp soc 4 < timeoutControl then uartIntResponse ||| uartIntDataAvail else uartIntError

/-- How the command host left `READ_WAIT`: at a start bit, after so many clocks there,
or because the timeout register was reached. -/
inductive Departure where
  | answered (waited : Nat)
  | timedOut (timeout : BitVec 32)
  deriving DecidableEq, Repr

/-- The driver's `minion_uart_timeout_control`, and of the latest command whether it
expects a response, the clocks it spent in `READ_WAIT` and how it left. -/
structure History where
  timeoutControl : BitVec 32
  expects : Bool
  waited : Nat
  departure : Option Departure

structure Watched where
  observed : Observed
  history : History

def expectsResponse (val : BitVec 32) : Bool := val &&& uartCmdRespMask ≠ 0

def watchCall (val : BitVec 32) (reg : UartRegister) (past : History) : History :=
  match reg with
  | .timeoutControl => { past with timeoutControl := val }
  | .softwareReset => { past with timeoutControl := 1000 }
  | .command => { past with expects := expectsResponse val, waited := 0, departure := none }
  | _ => past

def watchWait (timeout : BitVec 32) (old new : SdCmdSerialHost.State) (past : History) : History :=
  match old.state, new.state with
  | .readWait, .read => { past with departure := some (.answered past.waited) }
  | .readWait, .finishRdWr => { past with departure := some (.timedOut timeout) }
  | .readWait, _ => { past with waited := past.waited + 1 }
  | _, _ => past

/-- `board_mmc_power_init` resets the controller; there is no latest command behind it. -/
def watchHistory (event : Event) (old new : System) (past : History) : History :=
  match event with
  | .minionUartWrite val reg => if old.pending = [] then watchCall val reg past else past
  | .boardMmcPowerInit => if old.pending = [] then { past with expects := false } else past
  | .access _ => past
  | .sdClk _ =>
      watchWait old.controller.regs.sdCmdTimeout old.controller.cmdHost new.controller.cmdHost past

def watch (event : Event) (w : Watched) : Watched where
  observed := observe event w.observed
  history := watchHistory event w.observed.system (observe event w.observed).system w.history

def powerUp : Watched where
  observed := DriverHandshake.powerUp
  history :=
    { timeoutControl := 0
      expects := false
      waited := 0
      departure := none }

def socOf (others : Soc) (w : Watched) : Soc :=
  { others with controller := w.observed.system.controller }

/-- The value of `wait_reg_o` behind a departure: the clock of leaving is counted too. -/
def finalWait : Departure → Nat
  | .answered waited => (waited + 1) % 2 ^ 32
  | .timedOut timeout => (timeout.toNat + 1) % 2 ^ 32

/-- The status has the `RESPONSE` bit exactly after a start bit and is `INT_ERROR`
exactly after a timeout. -/
def StatusTells (others : Soc) (w : Watched) (departure : Departure) : Prop :=
  (minionUartReadIntStatus w.history.timeoutControl (socOf others w) &&& uartIntResponse ≠ 0 ↔
      ∃ waited, departure = .answered waited) ∧
    (minionUartReadIntStatus w.history.timeoutControl (socOf others w) = uartIntError ↔
      ∃ timeout, departure = .timedOut timeout)

def CopySeparates (timeoutControl : BitVec 32) : Departure → Prop
  | .answered waited => (waited + 1) % 2 ^ 32 < timeoutControl.toNat
  | .timedOut timeout => timeoutControl.toNat ≤ (timeout.toNat + 1) % 2 ^ 32

theorem int_status_response (timeoutControl : BitVec 32) (soc : Soc) :
    minionUartReadIntStatus timeoutControl soc &&& uartIntResponse ≠ 0 ↔
      sdResp soc 4 < timeoutControl := by
  unfold minionUartReadIntStatus
  split_ifs with early
  · exact iff_of_true (by decide) early
  · exact iff_of_false (by decide) early

theorem int_status_error (timeoutControl : BitVec 32) (soc : Soc) :
    minionUartReadIntStatus timeoutControl soc = uartIntError ↔
      ¬sdResp soc 4 < timeoutControl := by
  unfold minionUartReadIntStatus
  split_ifs with early
  · exact iff_of_false (by decide) (fun late => late early)
  · exact iff_of_true rfl early

theorem status_tells_iff (others : Soc) (w : Watched) (departure : Departure)
    (wait : w.observed.system.controller.cmdHost.waitRegO.toNat = finalWait departure) :
    StatusTells others w departure ↔ CopySeparates w.history.timeoutControl departure := by
  have word : sdResp (socOf others w) 4 = w.observed.system.controller.cmdHost.waitRegO :=
    sd_resp_selects (socOf others w) 4 (by decide)
  rw [StatusTells, int_status_response, int_status_error, word, BitVec.lt_def, wait]
  cases departure with
  | answered waited => simp [finalWait, CopySeparates]
  | timedOut timeout => simp [finalWait, CopySeparates]

def Progress (timeout : BitVec 32) (h : SdCmdSerialHost.State) (past : History) : Prop :=
  match h.state with
  | .init | .idle | .setupCrc | .write => past.waited = 0 ∧ past.departure = none
  | .readWait =>
      h.waitRegO.toNat = past.waited ∧ past.waited ≤ timeout.toNat ∧ past.departure = none
  | .read | .finishRdWr =>
      ∃ departure, past.departure = some departure ∧ h.waitRegO.toNat = finalWait departure

/-- An access of a call behind the transaction: it neither starts nor resets the host. -/
def Quiet (op : Operation) : Prop :=
  ∀ sel data, op = .write sel data → sel ≠ 6 ∧ (sel = 5 → data = 0)

inductive Tracks (w : Watched) : Prop where
  | silent (expects : w.history.expects = false)
  | asking (ops : List Operation) (v : Statics) (mask : BitVec 32)
      (pending : w.observed.system.pending =
        ops ++ sdCmdStart 1 :: .waitAll mask :: sdTransactionFinish v mask)
      (finish : mask.getLsbD 8 = true)
      (prepares : ∀ op ∈ ops, Prepares op)
      (start : w.observed.system.controller.regs.sdCmdStart = false)
      (setting : SdCmdSerialHost.withResponse
        (regsAfter ops w.observed.system.controller.regs).sdCmdSetting = true)
      (resting : Resting w.observed.system.controller.cmdHost)
      (waited : w.history.waited = 0)
      (departure : w.history.departure = none)
  | serving (v : Statics) (mask : BitVec 32)
      (pending : w.observed.system.pending = .waitAll mask :: sdTransactionFinish v mask)
      (finish : mask.getLsbD 8 = true)
      (start : w.observed.system.controller.regs.sdCmdStart = true)
      (setting : SdCmdSerialHost.withResponse
        w.observed.system.controller.regs.sdCmdSetting = true)
      (progress : Progress w.observed.system.controller.regs.sdCmdTimeout
        w.observed.system.controller.cmdHost w.history)
      (finished : w.observed.system.controller.cmdHost.finishO = true →
        w.observed.system.controller.cmdHost.state = .finishRdWr)
  | told (departure : Departure)
      (known : w.history.departure = some departure)
      (wait : w.observed.system.controller.cmdHost.waitRegO.toNat = finalWait departure)
      (quiet : ∀ op ∈ w.observed.system.pending, Quiet op)
      (released : w.observed.system.controller.regs.sdCmdRst = true)
      (host : w.observed.system.controller.cmdHost.state = .finishRdWr ∨
        w.observed.system.controller.cmdHost.state = .idle ∧
          w.observed.system.controller.regs.sdCmdStart = false)

section Host

open SdCmdSerialHost

variable {i : Inputs} {h : State} {past : History}

theorem watch_wait_elsewhere (timeout : BitVec 32) (new : State) (past : History)
    (elsewhere : h.state ≠ .readWait) : watchWait timeout h new past = past := by
  unfold watchWait
  split
  · exact absurd ‹_› elsewhere
  · exact absurd ‹_› elsewhere
  · exact absurd ‹_› elsewhere
  · rfl

/-- One clock in `READ_WAIT`: a start bit, the timeout, or one clock more. -/
theorem read_wait_edge (released : i.rst = false) (waiting : h.state = .readWait)
    (progress : Progress i.timeoutI h past) :
    Progress i.timeoutI (step i h) (watchWait i.timeoutI h (step i h) past) := by
  simp only [Progress, waiting] at progress
  rcases progress with ⟨count, bound, none⟩
  have next : (step i h).state = nextState i h := by rw [step_running i h released]
  have wait : (step i h).waitRegO.toNat = (past.waited + 1) % 2 ^ 32 := by
    rw [step_running i h released]
    simp only [outEdge, waiting, readWaitEdge, BitVec.toNat_add, count]
    rfl
  simp only [nextState, waiting] at next
  split_ifs at next with answer late
  · simp only [Progress, watchWait, waiting, next]
    exact ⟨.answered past.waited, rfl, wait⟩
  · have reached : past.waited = i.timeoutI.toNat := by
      rw [BitVec.le_def, count] at late
      exact Nat.le_antisymm bound late
    simp only [Progress, watchWait, waiting, next]
    refine ⟨.timedOut i.timeoutI, rfl, ?_⟩
    rw [wait, reached]
    rfl
  · have early : past.waited < i.timeoutI.toNat := by
      rw [BitVec.le_def, count] at late
      exact Nat.lt_of_not_le late
    have room : past.waited + 1 < 2 ^ 32 := by
      have limit := i.timeoutI.isLt
      omega
    simp only [Progress, watchWait, waiting, next]
    exact ⟨wait.trans (Nat.mod_eq_of_lt room), early, none⟩

theorem progress_edge (start : i.startI = true) (setting : withResponse i.settingI = true)
    (held : i.rst = true → h = reset) (progress : Progress i.timeoutI h past) :
    Progress i.timeoutI (step i h) (watchWait i.timeoutI h (step i h) past) := by
  cases released : i.rst with
  | true =>
      have initial : h.state = .init := by rw [held released]; rfl
      rw [step_reset released, watch_wait_elsewhere _ _ past (by simp [initial])]
      simpa only [Progress, initial, reset] using progress
  | false =>
      have next : (step i h).state = nextState i h := by rw [step_running i h released]
      have wait : (step i h).waitRegO = (outEdge i h).waitRegO := by
        rw [step_running i h released]
      cases state : h.state with
      | readWait => exact read_wait_edge released state progress
      | init =>
          rw [watch_wait_elsewhere _ _ past (by simp [state])]
          simp only [Progress, state] at progress
          simp only [nextState, state] at next
          split_ifs at next <;> simpa only [Progress, next] using progress
      | idle =>
          rw [watch_wait_elsewhere _ _ past (by simp [state])]
          simp only [Progress, state] at progress
          simp only [nextState, state, start, if_true] at next
          simpa only [Progress, next] using progress
      | setupCrc =>
          rw [watch_wait_elsewhere _ _ past (by simp [state])]
          simp only [Progress, state] at progress
          simp only [nextState, state] at next
          simpa only [Progress, next] using progress
      | write =>
          rw [watch_wait_elsewhere _ _ past (by simp [state])]
          simp only [Progress, state] at progress
          simp only [nextState, state, setting, and_true] at next
          simp only [outEdge, state, writeEdge] at wait
          split_ifs at next with sent
          · simp only [Progress, next]
            refine ⟨?_, ?_, progress.2⟩
            · rw [wait, progress.1]
              rfl
            · rw [progress.1]
              exact Nat.zero_le _
          · simpa only [Progress, next] using progress
      | read =>
          rw [watch_wait_elsewhere _ _ past (by simp [state])]
          simp only [Progress, state] at progress
          simp only [nextState, state] at next
          simp only [outEdge, state, readEdge] at wait
          split_ifs at next <;> simpa only [Progress, next, wait] using progress
      | finishRdWr =>
          rw [watch_wait_elsewhere _ _ past (by simp [state])]
          simp only [Progress, state] at progress
          simp only [nextState, state, start, if_true] at next
          simp only [outEdge, state, finishRdWrEdge] at wait
          simpa only [Progress, next, wait] using progress

/-- A started host shows `finish_o` in `FINISH_RD_WR` only. -/
theorem finish_stays_local (start : i.startI = true)
    (finished : h.finishO = true → h.state = .finishRdWr) :
    (step i h).finishO = true → (step i h).state = .finishRdWr := by
  cases released : i.rst with
  | true =>
      rw [step_reset released]
      intro raised
      exact absurd raised (by decide)
  | false =>
      rw [step_running i h released]
      by_cases done : h.state = .finishRdWr
      · intro _
        simp only [nextState, done, start, if_true]
      · intro raised
        have low : h.finishO = false := by
          cases current : h.finishO with
          | false => rfl
          | true => exact absurd (finished current) done
        have kept : (outEdge i h).finishO = false := by
          cases state : h.state with
          | finishRdWr => exact absurd state done
          | write =>
              simp only [outEdge, state, writeEdge, writeDrive]
              split_ifs <;> exact low
          | init | setupCrc | readWait | read =>
              simp only [outEdge, state]
              exact low
          | idle =>
              simp only [outEdge, state]
              rfl
        exact absurd (kept.symm.trans raised) (by decide)

/-- Behind a command the host keeps `wait_reg_o` until it is started again. -/
theorem told_edge (released : i.rst = false)
    (host : h.state = .finishRdWr ∨ h.state = .idle ∧ i.startI = false) :
    (step i h).waitRegO = h.waitRegO ∧
      ((step i h).state = .finishRdWr ∨ (step i h).state = .idle ∧ i.startI = false) := by
  rw [step_running i h released]
  rcases host with done | ⟨idle, quiet⟩
  · refine ⟨by simp only [outEdge, done, finishRdWrEdge], ?_⟩
    simp only [nextState, done]
    cases start : i.startI with
    | true => exact Or.inl rfl
    | false => exact Or.inr ⟨rfl, rfl⟩
  · refine ⟨by simp only [outEdge, idle, idleEdge], Or.inr ⟨?_, quiet⟩⟩
    simp only [nextState, idle, quiet, Bool.false_eq_true, if_false]

end Host

section Steps

variable {w : Watched}

theorem quiet_finish (v : Statics) (mask : BitVec 32) :
    ∀ op ∈ sdTransactionFinish v mask, Quiet op := by
  intro op member sel data write
  simp only [sdTransactionFinish, List.mem_cons, List.not_mem_nil, or_false] at member
  rcases member with rfl | rfl | rfl
  · cases write
    exact ⟨by decide, fun _ => rfl⟩
  · cases write
    exact ⟨by decide, fun other => absurd other (by decide)⟩
  · cases write

/-- Other calls of `minion_uart_write` than `COMMAND` leave the command host alone. -/
theorem quiet_call (v : Statics) (val : BitVec 32) (reg : UartRegister)
    (other : reg ≠ .command) : ∀ op ∈ MinionDriver.minionUartWrite v val reg, Quiet op := by
  intro op member sel data write
  obtain ⟨written, value, same, notStart, notReset⟩ :=
    uart_write_selects v val reg other op member
  obtain ⟨rfl, rfl⟩ := Operation.write.inj (same.symm.trans write)
  exact ⟨notReset, fun start => absurd start notStart⟩

theorem response_setting_expects (val : BitVec 32) (expects : expectsResponse val = true) :
    (responseSetting (val &&& 255)).getLsbD 0 = true := by
  have flags : val &&& 255 &&& uartCmdRespMask = val &&& uartCmdRespMask := by
    rw [BitVec.and_assoc]
    rfl
  have bound : (val &&& uartCmdRespMask).toNat < 4 := by
    rw [BitVec.toNat_and]
    exact Nat.lt_succ_of_le Nat.and_le_right
  have nonzero : (val &&& uartCmdRespMask).toNat ≠ 0 := by
    intro zero
    have none : val &&& uartCmdRespMask = 0 := BitVec.eq_of_toNat_eq zero
    simp [expectsResponse, none] at expects
  have kinds : (val &&& uartCmdRespMask).toNat = 1 ∨ (val &&& uartCmdRespMask).toNat = 2 ∨
      (val &&& uartCmdRespMask).toNat = 3 := by omega
  unfold responseSetting
  rw [flags]
  rcases kinds with long | short | busy
  · rw [long]
    rfl
  · rw [short]
    rfl
  · rw [busy]
    rfl

/-- The setting a command writes asks for a response when the command expects one. -/
theorem setting_expects (v : Statics) (val : BitVec 32) (cmd : Operation) (regs : Registers)
    (expects : expectsResponse val = true) :
    SdCmdSerialHost.withResponse
      (regsAfter [cmd, sdCmdSetting v (val &&& 255)] regs).sdCmdSetting = true := by
  have low := response_setting_expects val expects
  simp only [regsAfter, List.foldl_cons, List.foldl_nil, sdCmdSetting, sdSetting, storeRegister,
    SdCmdSerialHost.withResponse, BitVec.getLsbD_extractLsb']
  split_ifs <;> simpa using low

theorem tracks_sd_clk (lines : CardLines) (held : HeldInReset w.observed.system.controller)
    (tracks : Tracks w) : Tracks (watch (.sdClk lines) w) := by
  have inReset : (cmdInputs lines w.observed.system.controller).rst = true →
      w.observed.system.controller.cmdHost = SdCmdSerialHost.reset := by
    intro asserted
    apply held
    simpa [cmdInputs] using asserted
  have elsewhere : w.observed.system.controller.cmdHost.state ≠ .readWait →
      (watch (.sdClk lines) w).history = w.history :=
    watch_wait_elsewhere _ _ _
  cases tracks with
  | silent expects =>
      apply Tracks.silent
      simp only [watch, watchHistory, watchWait]
      split <;> exact expects
  | asking ops v mask pending finish prepares start setting resting waited departure =>
      have outside : w.observed.system.controller.cmdHost.state ≠ .readWait := by
        rcases resting.1 with initial | idle
        · simp [initial]
        · simp [idle]
      have same := elsewhere outside
      exact .asking ops v mask pending finish prepares start setting (resting_edge start resting)
        (by rw [same]; exact waited) (by rw [same]; exact departure)
  | serving v mask pending finish start setting progress finished =>
      have next := progress_edge (i := cmdInputs lines w.observed.system.controller) start setting
        inReset progress
      exact .serving v mask pending finish start setting next
        (finish_stays_local (i := cmdInputs lines w.observed.system.controller) start finished)
  | told departure known wait quiet released host =>
      have running : (cmdInputs lines w.observed.system.controller).rst = false := by
        simp [cmdInputs, released]
      have outside : w.observed.system.controller.cmdHost.state ≠ .readWait := by
        rcases host with done | ⟨idle, _⟩
        · simp [done]
        · simp [idle]
      have same := elsewhere outside
      rcases told_edge running host with ⟨kept, next⟩
      exact .told departure (by rw [same]; exact known)
        ((congrArg BitVec.toNat kept).trans wait) quiet released next

/-- A quiet write leaves `wait_reg_o` and the reset alone and does not start the host. -/
theorem told_write {sel : Nat} {data : BitVec 32} (c : Controller) (held : HeldInReset c)
    (quiet : Quiet (.write sel data)) (released : c.regs.sdCmdRst = true)
    (host : c.cmdHost.state = .finishRdWr ∨
      c.cmdHost.state = .idle ∧ c.regs.sdCmdStart = false) :
    (writeRegister sel data c).cmdHost = c.cmdHost ∧
      (writeRegister sel data c).regs.sdCmdRst = true ∧
      ((writeRegister sel data c).cmdHost.state = .finishRdWr ∨
        (writeRegister sel data c).cmdHost.state = .idle ∧
          (writeRegister sel data c).regs.sdCmdStart = false) := by
  rcases quiet sel data rfl with ⟨notReset, notStart⟩
  have same := write_register_host data c held notReset
  refine ⟨same, ?_, ?_⟩
  · change (storeRegister sel data c.regs).sdCmdRst = true
    unfold storeRegister
    split <;> first | exact released | exact absurd rfl notReset
  · rw [same]
    rcases host with done | ⟨idle, start⟩
    · exact Or.inl done
    · refine Or.inr ⟨idle, ?_⟩
      change (storeRegister sel data c.regs).sdCmdStart = false
      by_cases command : sel = 5
      · rw [command, notStart command]
        rfl
      · rw [store_register_start data c.regs command]
        exact start

/-- A polling loop is tried again or left. -/
theorem observe_poll {o : Observed} {op : Operation} {rest : List Operation}
    (fifoStatus : BitVec 4) (pending : o.system.pending = op :: rest)
    (poll : ∀ sel data, op ≠ .write sel data) :
    observe (.access fifoStatus) o = o ∨
      observe (.access fifoStatus) o =
        { o with system := { o.system with pending := rest } } := by
  simp only [observe, stepSystem, access, pending]
  cases op with
  | write sel data => exact absurd rfl (poll sel data)
  | waitAll mask =>
      simp only
      split_ifs
      · exact Or.inr rfl
      · exact Or.inl rfl
  | waitNone mask =>
      simp only
      split_ifs
      · exact Or.inr rfl
      · exact Or.inl rfl

theorem tracks_access (fifoStatus : BitVec 4) (held : HeldInReset w.observed.system.controller)
    (tracks : Tracks w) : Tracks (watch (.access fifoStatus) w) := by
  have same : watch (.access fifoStatus) w =
      { w with observed := observe (.access fifoStatus) w.observed } := rfl
  rw [same]
  cases tracks with
  | silent expects => exact .silent expects
  | asking ops v mask pending finish prepares start setting resting waited departure =>
      cases ops with
      | nil =>
          rw [observe_write fifoStatus pending]
          have host : (writeRegister 5 1 w.observed.system.controller).cmdHost =
              w.observed.system.controller.cmdHost :=
            write_register_host 1 w.observed.system.controller held (by decide)
          refine .serving v mask rfl finish rfl setting ?_ ?_
          · rw [host]
            rcases resting.1 with initial | idle
            · simp only [Progress, initial]
              exact ⟨waited, departure⟩
            · simp only [Progress, idle]
              exact ⟨waited, departure⟩
          · rw [host]
            intro raised
            exact absurd (resting.2.symm.trans raised) (by decide)
      | cons op rest =>
          rcases List.forall_mem_cons.mp prepares with ⟨⟨sel, data, rfl, other⟩, later⟩
          rw [observe_write fifoStatus pending]
          exact .asking rest v mask rfl finish later
            ((store_register_start data _ other).trans start) setting
            (write_register_resting sel data _ resting) waited departure
  | serving v mask pending finish start setting progress finished =>
      rcases observe_wait_all fifoStatus finish pending with still | ⟨finishCmd, next⟩
      · rw [still]
        exact .serving v mask pending finish start setting progress finished
      · have done := finished finishCmd
        simp only [Progress, done] at progress
        rcases progress with ⟨departure, known, wait⟩
        have released : w.observed.system.controller.regs.sdCmdRst = true := by
          cases asserted : w.observed.system.controller.regs.sdCmdRst with
          | true => rfl
          | false =>
              rw [held asserted] at done
              exact absurd done (by decide)
        rw [next]
        exact .told departure known wait (quiet_finish v mask) released (Or.inl done)
  | told departure known wait quiet released host =>
      cases pending : w.observed.system.pending with
      | nil =>
          have still : observe (.access fifoStatus) w.observed = w.observed := by
            simp only [observe, stepSystem, access, pending]
          rw [still]
          exact .told departure known wait quiet released host
      | cons op rest =>
          rw [pending] at quiet
          rcases List.forall_mem_cons.mp quiet with ⟨first, later⟩
          have polled : (∀ sel data, op ≠ .write sel data) →
              Tracks { w with observed := observe (.access fifoStatus) w.observed } := by
            intro poll
            rcases observe_poll fifoStatus pending poll with still | next
            · rw [still]
              exact .told departure known wait (by rw [pending]; exact quiet) released host
            · rw [next]
              exact .told departure known wait later released host
          cases op with
          | write sel data =>
              rw [observe_write fifoStatus pending]
              rcases told_write _ held first released host with ⟨kept, still, next⟩
              exact .told departure known ((congrArg (·.waitRegO.toNat) kept).trans wait) later
                still next
          | waitAll mask => exact polled fun _ _ => Operation.noConfusion
          | waitNone mask => exact polled fun _ _ => Operation.noConfusion

theorem not_asking {ops : List Operation} {v : Statics} {mask : BitVec 32}
    (returned : w.observed.system.pending = []) :
    w.observed.system.pending ≠
      ops ++ sdCmdStart 1 :: .waitAll mask :: sdTransactionFinish v mask := by
  rw [returned]
  simp

theorem watch_call_system (val : BitVec 32) (reg : UartRegister)
    (returned : w.observed.system.pending = []) :
    (watch (.minionUartWrite val reg) w).observed.system =
      { w.observed.system with
        statics := staticsAfter w.observed.system.statics val reg
        pending := MinionDriver.minionUartWrite w.observed.system.statics val reg } := by
  cases reg <;> simp only [watch, observe, stepSystem, returned, if_true]

theorem watch_call_history (val : BitVec 32) (reg : UartRegister)
    (returned : w.observed.system.pending = []) :
    (watch (.minionUartWrite val reg) w).history = watchCall val reg w.history := by
  simp only [watch, watchHistory, returned, if_true]

/-- A new command is asked for; what the last one was no longer matters. -/
theorem tracks_command (val : BitVec 32) (phase : Phase w.observed)
    (returned : w.observed.system.pending = []) :
    Tracks (watch (.minionUartWrite val .command) w) := by
  rcases settled_of_returned phase returned with ⟨start, resting, _, _⟩
  have system := watch_call_system val .command returned
  have history := watch_call_history val .command returned
  cases expects : expectsResponse val with
  | false =>
      apply Tracks.silent
      rw [history]
      exact expects
  | true =>
      have prepares : ∀ op ∈ [sdCmd (val.sshiftRight 8),
          sdCmdSetting w.observed.system.statics (val &&& 255)], Prepares op :=
        List.forall_mem_cons.mpr ⟨⟨3, _, rfl, by decide⟩, write_prepares _ (by decide)⟩
      refine .asking
        [sdCmd (val.sshiftRight 8), sdCmdSetting w.observed.system.statics (val &&& 255)]
        w.observed.system.statics (transactionMask w.observed.system.statics)
        (by rw [system]; rfl) (transaction_mask_finish _) prepares (by rw [system]; exact start)
        ?_ (by rw [system]; exact resting) (by rw [history]; rfl) (by rw [history]; rfl)
      exact setting_expects _ val _ _ expects

theorem tracks_call (val : BitVec 32) (reg : UartRegister) (phase : Phase w.observed)
    (tracks : Tracks w) : Tracks (watch (.minionUartWrite val reg) w) := by
  by_cases returned : w.observed.system.pending = []
  · by_cases command : reg = .command
    · rw [command]
      exact tracks_command val phase returned
    · have system := watch_call_system val reg returned
      have history := watch_call_history val reg returned
      have kept : (watchCall val reg w.history).expects = w.history.expects ∧
          (watchCall val reg w.history).departure = w.history.departure := by
        cases reg <;> first | exact absurd rfl command | exact ⟨rfl, rfl⟩
      cases tracks with
      | silent expects =>
          apply Tracks.silent
          rw [history, kept.1]
          exact expects
      | asking _ _ _ pending => exact absurd pending (not_asking returned)
      | serving _ _ pending => exact absurd (returned.symm.trans pending) (by simp)
      | told departure known wait quiet released host =>
          refine .told departure (by rw [history, kept.2]; exact known)
            (by rw [system]; exact wait) ?_ (by rw [system]; exact released)
            (by rw [system]; exact host)
          rw [system]
          exact quiet_call _ val reg command
  · have ignored : watch (.minionUartWrite val reg) w = w := by
      simp only [watch, watchHistory, returned, if_false]
      cases reg <;> simp only [observe, stepSystem, returned, if_false]
    rw [ignored]
    exact tracks

theorem tracks_power_init (tracks : Tracks w) : Tracks (watch .boardMmcPowerInit w) := by
  by_cases returned : w.observed.system.pending = []
  · apply Tracks.silent
    simp only [watch, watchHistory, returned, if_true]
  · have ignored : watch .boardMmcPowerInit w = w := by
      simp only [watch, watchHistory, observe, stepSystem, returned, if_false]
    rw [ignored]
    exact tracks

theorem tracks_step (event : Event) (held : HeldInReset w.observed.system.controller)
    (phase : Phase w.observed) (tracks : Tracks w) : Tracks (watch event w) := by
  cases event with
  | minionUartWrite val reg => exact tracks_call val reg phase tracks
  | boardMmcPowerInit => exact tracks_power_init tracks
  | access fifoStatus => exact tracks_access fifoStatus held tracks
  | sdClk lines => exact tracks_sd_clk lines held tracks

end Steps

theorem tracks_run (events : List Event) : Tracks (runEvents watch powerUp events) := by
  have invariant := run_events_invariant watch
    (fun w => HeldInReset w.observed.system.controller ∧ Phase w.observed ∧ Tracks w)
  refine (invariant ?_ events powerUp ?_).2.2
  · rintro event w ⟨held, phase, tracks⟩
    exact ⟨observe_held event held, phase_step event held phase,
      tracks_step event held phase tracks⟩
  · exact ⟨power_up_held, .settled (List.forall_mem_nil _) rfl reset_rests rfl rfl, .silent rfl⟩

theorem departed_of_returned (events : List Event)
    (returned : (runEvents watch powerUp events).observed.system.pending = [])
    (expects : (runEvents watch powerUp events).history.expects = true) :
    ∃ departure, (runEvents watch powerUp events).history.departure = some departure ∧
      (runEvents watch powerUp events).observed.system.controller.cmdHost.waitRegO.toNat =
        finalWait departure := by
  cases tracks_run events with
  | silent silent => exact absurd (silent.symm.trans expects) (by decide)
  | asking _ _ _ pending => exact absurd pending (not_asking returned)
  | serving _ _ pending => exact absurd (returned.symm.trans pending) (by simp)
  | told departure known wait => exact ⟨departure, known, wait⟩

/-- Whenever the latest command expects a response and no call is in progress, its
`READ_WAIT` is over, and the status tells how it ended if and only if the
driver's copy of the timeout separates that end from the other. -/
theorem int_status_tells_iff (events : List Event) (others : Soc)
    (returned : (runEvents watch powerUp events).observed.system.pending = [])
    (expects : (runEvents watch powerUp events).history.expects = true) :
    ∃ departure, (runEvents watch powerUp events).history.departure = some departure ∧
      (StatusTells others (runEvents watch powerUp events) departure ↔
        CopySeparates (runEvents watch powerUp events).history.timeoutControl departure) := by
  obtain ⟨departure, known, wait⟩ := departed_of_returned events returned expects
  exact ⟨departure, known, status_tells_iff others _ departure wait⟩

private def silentLines : CardLines where
  sdCmdToHostDly := true
  sdDatToHostDly := 0xF
  dataOutTxFifo := 0

/-- `board_mmc_power_init`, `SOFTWARE_RESET`, the writes of `setup`, then command 8 to
a card that never answers. -/
def unansweredCommand (setup : List Event) : List Event :=
  List.flatten
    [[.boardMmcPowerInit], List.replicate 7 (.access 0), [.minionUartWrite 1 .softwareReset],
      setup, [.minionUartWrite 0x81A .command], List.replicate 3 (.access 0),
      List.replicate 180 (.sdClk silentLines), List.replicate 3 (.access 0),
      List.replicate 2 (.sdClk silentLines), [.access 0]]

/-- With the timeout set through `TIMEOUT_CONTROL` the missing answer is reported. -/
theorem int_status_tells_iff_timeout :
    StatusTells ReadMap.powerUp
      (runEvents watch powerUp
        (unansweredCommand [.minionUartWrite 20 .timeoutControl, .access 0]))
      (.timedOut 20) := by
  let events := unansweredCommand [.minionUartWrite 20 .timeoutControl, .access 0]
  have returned : (runEvents watch powerUp events).observed.system.pending = [] := by
    decide +kernel
  have expects : (runEvents watch powerUp events).history.expects = true := by decide +kernel
  have timedOut : (runEvents watch powerUp events).history.departure = some (.timedOut 20) := by
    decide +kernel
  have copy : (runEvents watch powerUp events).history.timeoutControl = 20 := by decide +kernel
  obtain ⟨departure, known, tells⟩ :=
    int_status_tells_iff events ReadMap.powerUp returned expects
  have same : departure = .timedOut 20 := Option.some.inj (known.symm.trans timedOut)
  rw [same, copy] at tells
  exact tells.mpr (by simp [CopySeparates])

/-- `SOFTWARE_RESET` sets the copy to 1000 and leaves the register at 14: the missing
answer is reported as a response. -/
theorem reset_hides_timeout :
    (runEvents watch powerUp (unansweredCommand [])).observed.system.pending = [] ∧
      (runEvents watch powerUp (unansweredCommand [])).history.expects = true ∧
      (runEvents watch powerUp (unansweredCommand [])).history.departure =
        some (.timedOut 14) ∧
      ¬StatusTells ReadMap.powerUp (runEvents watch powerUp (unansweredCommand []))
        (.timedOut 14) := by
  have wait : (runEvents watch powerUp
      (unansweredCommand [])).observed.system.controller.cmdHost.waitRegO.toNat =
        finalWait (.timedOut 14) := by decide +kernel
  have copy : (runEvents watch powerUp (unansweredCommand [])).history.timeoutControl = 1000 := by
    decide +kernel
  refine ⟨by decide +kernel, by decide +kernel, by decide +kernel, ?_⟩
  rw [status_tells_iff ReadMap.powerUp _ _ wait, copy]
  simp [CopySeparates]

end MinionSubsystem.IntStatus
