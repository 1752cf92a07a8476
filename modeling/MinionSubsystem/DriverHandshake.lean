import Mathlib.Data.List.ModifyLast
import MinionSubsystem.MinionDriver
import MinionSubsystem.SdCmdFrame
import MinionSubsystem.SdController

/-!
# The handshake between driver and command host

The system moves by events: the program calls the driver, the driver makes its
next register access, `sd_clk` ticks. Nothing is assumed about their order, nor
about the card. `Phase` relates the accesses the driver has still to make to
the state of the command host; it is what makes `sd_cmd_start` and `finish_cmd`
a four-phase handshake.
-/

namespace MinionSubsystem.DriverHandshake

open MinionSubsystem.BitStream
open MinionSubsystem.ClockedRun
open MinionSubsystem.MinionDriver
open MinionSubsystem.SdCmdFrame
open MinionSubsystem.SdController

set_option autoImplicit false

/-- `pending` holds the accesses of the call in progress. -/
structure System where
  controller : Controller
  statics : Statics
  pending : List Operation
  deriving DecidableEq

inductive Event where
  | minionUartWrite (val : BitVec 32) (reg : UartRegister)
  | boardMmcPowerInit
  | access (fifoStatus : BitVec 4)
  | sdClk (lines : CardLines)

/-- One access; a polling loop whose condition fails is tried again. -/
def access (fifoStatus : BitVec 4) (s : System) : System :=
  match s.pending with
  | [] => s
  | .write sel data :: rest =>
      { s with controller := writeRegister sel data s.controller, pending := rest }
  | .waitAll mask :: rest =>
      if statusWord fifoStatus s.controller &&& mask = mask then { s with pending := rest }
      else s
  | .waitNone mask :: rest =>
      if statusWord fifoStatus s.controller &&& mask = 0 then { s with pending := rest } else s

/-- Calls happen one after the other: one made during another is not modelled. -/
def stepSystem (event : Event) (s : System) : System :=
  match event with
  | .minionUartWrite val reg =>
      if s.pending = [] then
        { s with
          statics := staticsAfter s.statics val reg
          pending := MinionDriver.minionUartWrite s.statics val reg }
      else s
  | .boardMmcPowerInit =>
      if s.pending = [] then { s with pending := MinionDriver.boardMmcPowerInit } else s
  | .access fifoStatus => access fifoStatus s
  | .sdClk lines => { s with controller := sdClkEdge lines s.controller }

abbrev Command := BitVec 6 × BitVec 32

def frameOf (command : Command) : List Bool := commandFrame command.1 command.2

/-- The system with its history: the last `ARGUMENT` written, the command of every
`COMMAND` call, and for every passage of the host through `SETUP_CRC` the bits
it has driven since. -/
structure Observed where
  system : System
  argument : BitVec 32
  issued : List Command
  frames : List (List Bool)

def uartGetCmd (val : BitVec 32) : BitVec 6 := val.extractLsb' 8 6

def watchLine (old new : SdCmdSerialHost.State) (frames : List (List Bool)) :
    List (List Bool) :=
  match old.state with
  | .setupCrc => frames ++ [[]]
  | .write => if new.cmdOeO then frames.modifyLast (· ++ [new.cmdOutO]) else frames
  | _ => frames

def observe (event : Event) (o : Observed) : Observed :=
  let system := stepSystem event o.system
  match event with
  | .minionUartWrite val .argument =>
      if o.system.pending = [] then { o with system := system, argument := val }
      else { o with system := system }
  | .minionUartWrite val .command =>
      if o.system.pending = [] then
        { o with system := system, issued := o.issued ++ [(uartGetCmd val, o.argument)] }
      else { o with system := system }
  | .sdClk _ =>
      { o with
        system := system
        frames := watchLine o.system.controller.cmdHost system.controller.cmdHost o.frames }
  | _ => { o with system := system }

def powerUp : Observed where
  system :=
    { controller := SdController.powerUp
      statics := { minionUartHostControl := 0, minionUartTransferMode := 0 }
      pending := [] }
  argument := 0
  issued := []
  frames := []

def Resting (h : SdCmdSerialHost.State) : Prop :=
  (h.state = .init ∨ h.state = .idle) ∧ h.finishO = false

/-- The host at work on one command, the frames of earlier ones being out. -/
inductive Serving (cmd : BitVec 38) (earlier : List (List Bool)) :
    SdCmdSerialHost.State → List (List Bool) → Prop where
  | resting {h : SdCmdSerialHost.State} (resting : Resting h) : Serving cmd earlier h earlier
  | settingUp {h : SdCmdSerialHost.State} (setup : SettingUp h) (running : h.finishO = false) :
      Serving cmd earlier h earlier
  | writing {h : SdCmdSerialHost.State} (count : Nat) (bound : count ≤ 48)
      (writing : Writing cmd count h) (running : h.finishO = false) :
      Serving cmd earlier h (earlier ++ [frameBits cmd count])
  | sent {h : SdCmdSerialHost.State} (sent : Sent cmd h)
      (finished : h.finishO = true → h.state = .finishRdWr) :
      Serving cmd earlier h (earlier ++ [frameBits cmd 48])

def Finished (h : SdCmdSerialHost.State) : Prop :=
  h.state = .finishRdWr ∧ h.finishO = true

def Leaving (h : SdCmdSerialHost.State) : Prop :=
  Resting h ∨ h.state = .idle ∨ Finished h

section Host

open SdCmdSerialHost

variable {i : Inputs} {h : State} {cmd : BitVec 38} {earlier frames : List (List Bool)}

theorem step_reset (asserted : i.rst = true) : step i h = reset := by
  rw [step, asserted]
  rfl

theorem reset_rests : Resting reset := ⟨Or.inl rfl, rfl⟩

theorem watch_elsewhere (old new : State) (frames : List (List Bool))
    (quiet : old.state ≠ .setupCrc) (silent : old.state ≠ .write) :
    watchLine old new frames = frames := by
  unfold watchLine
  split
  · exact absurd ‹_› quiet
  · exact absurd ‹_› silent
  · rfl

theorem resting_watch (resting : Resting h) (new : State) (frames : List (List Bool)) :
    watchLine h new frames = frames := by
  rcases resting.1 with initial | idle
  · exact watch_elsewhere h new frames (by simp [initial]) (by simp [initial])
  · exact watch_elsewhere h new frames (by simp [idle]) (by simp [idle])

/-- A resting host that is not started goes on resting. -/
theorem resting_edge (quiet : i.startI = false) (resting : Resting h) :
    Resting (step i h) := by
  cases released : i.rst with
  | true =>
      rw [step_reset released]
      exact reset_rests
  | false =>
      rw [step_running i h released]
      rcases resting with ⟨initial | idle, unfinished⟩
      · constructor
        · simp only [nextState, initial]
          split_ifs <;> simp
        · simp only [outEdge, initial]
          exact unfinished
      · constructor
        · simp only [nextState, idle, quiet, Bool.false_eq_true, if_false, or_true]
        · simp only [outEdge, idle]
          rfl

theorem started_edge (start : i.startI = true) (resting : Resting h) :
    Serving cmd earlier (step i h) earlier := by
  cases released : i.rst with
  | true =>
      rw [step_reset released]
      exact .resting reset_rests
  | false =>
      rcases resting with ⟨initial | idle, unfinished⟩
      · apply Serving.resting
        rw [step_running i h released]
        constructor
        · simp only [nextState, initial]
          split_ifs <;> simp
        · simp only [outEdge, initial]
          exact unfinished
      · apply Serving.settingUp (idle_accepts released idle start)
        rw [step_running i h released]
        simp only [outEdge, idle]
        rfl

/-- A started host opens one frame and fills it. -/
theorem serving_edge (start : i.startI = true) (command : i.cmdI = cmd)
    (held : i.rst = true → h = reset) (serving : Serving cmd earlier h frames) :
    Serving cmd earlier (step i h) (watchLine h (step i h) frames) := by
  have running : ∀ {state : HostState}, h.state = state → state ≠ .init → i.rst = false := by
    intro state current active
    cases released : i.rst with
    | false => rfl
    | true =>
        rw [held released] at current
        exact absurd current.symm active
  cases serving with
  | resting resting =>
      rw [resting_watch resting]
      exact started_edge start resting
  | settingUp setup unfinished =>
      have released := running setup.state (by decide)
      have opened : watchLine h (step i h) earlier = earlier ++ [frameBits cmd 0] := by
        simp only [watchLine, setup.state]
        rfl
      rw [opened]
      apply Serving.writing 0 (Nat.zero_le 48) (setup_writes released command setup)
      rw [step_running i h released]
      simp only [outEdge, setup.state]
      exact unfinished
  | writing count bound writing unfinished =>
      have released := running writing.state (by decide)
      have kept := (writing_unfinished released writing.state).trans unfinished
      by_cases more : count < 48
      · have next := writing_step released command writing more
        have filled : watchLine h (step i h) (earlier ++ [frameBits cmd count]) =
            earlier ++ [frameBits cmd (count + 1)] := by
          have drives := next.cmdOeO
          have bit := next.cmdOutO (Nat.succ_pos count)
          simp only [watchLine, writing.state, drives, bit, Nat.succ_pos, decide_true, if_true,
            List.modifyLast_concat, frame_bits_succ, Nat.add_sub_cancel]
        rw [filled]
        exact .writing (count + 1) more next kept
      · have last : count = 48 := by omega
        subst last
        have sent := writing_leaves released writing
        have closed : watchLine h (step i h) (earlier ++ [frameBits cmd 48]) =
            earlier ++ [frameBits cmd 48] := by
          simp only [watchLine, writing.state, sent.cmdOeO, Bool.false_eq_true, if_false]
        rw [closed]
        apply Serving.sent sent
        intro finished
        rw [kept] at finished
        exact absurd finished (by decide)
  | sent sent finished =>
      have active : h.state ≠ .setupCrc ∧ h.state ≠ .write ∧ h.state ≠ .init := by
        rcases sent.phase with waiting | reading | past
        · simp [waiting]
        · simp [reading]
        · simp [past]
      have released := running rfl active.2.2
      rw [watch_elsewhere h _ _ active.1 active.2.1]
      rcases sent_step released sent with ⟨withdrawn, _⟩ | next
      · rw [start] at withdrawn
        exact absurd withdrawn (by decide)
      · apply Serving.sent next
        rw [step_running i h released]
        rcases sent.phase with waiting | reading | past
        · intro early
          simp only [outEdge, waiting] at early
          exact absurd (finished early) (by simp [waiting])
        · intro early
          simp only [outEdge, reading] at early
          exact absurd (finished early) (by simp [reading])
        · intro _
          simp only [nextState, past, start, if_true]

/-- Only a host that has sent its frame shows `finish_o`. -/
theorem serving_finished (serving : Serving cmd earlier h frames) (finish : h.finishO = true) :
    Finished h ∧ frames = earlier ++ [frameBits cmd 48] := by
  cases serving with
  | resting resting => exact absurd (resting.2.symm.trans finish) (by decide)
  | settingUp _ unfinished => exact absurd (unfinished.symm.trans finish) (by decide)
  | writing _ _ _ unfinished => exact absurd (unfinished.symm.trans finish) (by decide)
  | sent _ finished => exact ⟨⟨finished finish, finish⟩, rfl⟩

theorem finished_edge (start : i.startI = true) (held : i.rst = true → h = reset)
    (finished : Finished h) : Finished (step i h) := by
  have released : i.rst = false := by
    cases asserted : i.rst with
    | false => rfl
    | true =>
        have state := finished.1
        rw [held asserted] at state
        exact absurd state (by decide)
  rw [step_running i h released]
  constructor
  · simp only [nextState, finished.1, start, if_true]
  · simp only [outEdge, finished.1]
    rfl

theorem leaving_watch (leaving : Leaving h) (new : State) (frames : List (List Bool)) :
    watchLine h new frames = frames := by
  rcases leaving with resting | idle | finished
  · exact resting_watch resting new frames
  · exact watch_elsewhere h new frames (by simp [idle]) (by simp [idle])
  · exact watch_elsewhere h new frames (by simp [finished.1]) (by simp [finished.1])

theorem leaving_edge (quiet : i.startI = false) (leaving : Leaving h) :
    Leaving (step i h) := by
  cases released : i.rst with
  | true =>
      rw [step_reset released]
      exact Or.inl reset_rests
  | false =>
      rcases leaving with resting | idle | finished
      · exact Or.inl (resting_edge quiet resting)
      · right
        left
        rw [step_running i h released]
        simp only [nextState, idle, quiet, Bool.false_eq_true, if_false]
      · right
        left
        rw [step_running i h released]
        simp only [nextState, finished.1, quiet, Bool.false_eq_true, if_false]

theorem leaving_rests (leaving : Leaving h) (unfinished : h.finishO = false) : Resting h := by
  rcases leaving with resting | idle | finished
  · exact resting
  · exact ⟨Or.inr idle, unfinished⟩
  · exact absurd (unfinished.symm.trans finished.2) (by decide)

end Host

def Prepares (op : Operation) : Prop := ∃ sel data, op = .write sel data ∧ sel ≠ 5

theorem write_prepares {sel : Nat} (data : BitVec 32) (other : sel ≠ 5) :
    ∀ op ∈ [Operation.write sel data], Prepares op := by
  intro op member
  rw [List.mem_singleton.mp member]
  exact ⟨sel, data, rfl, other⟩

def regsAfter (ops : List Operation) (regs : Registers) : Registers :=
  ops.foldl (fun regs op =>
    match op with
    | .write sel data => storeRegister sel data regs
    | .waitAll _ => regs
    | .waitNone _ => regs) regs

theorem store_register_start {sel : Nat} (data : BitVec 32) (regs : Registers)
    (other : sel ≠ 5) : (storeRegister sel data regs).sdCmdStart = regs.sdCmdStart := by
  unfold storeRegister
  split <;> first | rfl | exact absurd rfl other

/-- A write to a host in one of the given conditions leaves it there. -/
theorem write_register_resting (sel : Nat) (data : BitVec 32) (c : Controller)
    (resting : Resting c.cmdHost) : Resting (writeRegister sel data c).cmdHost := by
  simp only [writeRegister, applyResets]
  split
  · exact resting
  · exact reset_rests

/-- Only a write to the reset register touches the command host. -/
theorem write_register_host {sel : Nat} (data : BitVec 32) (c : Controller)
    (held : HeldInReset c) (other : sel ≠ 6) :
    (writeRegister sel data c).cmdHost = c.cmdHost := by
  have kept : (storeRegister sel data c.regs).sdCmdRst = c.regs.sdCmdRst := by
    unfold storeRegister
    split <;> first | rfl | exact absurd rfl other
  simp only [writeRegister, applyResets, kept]
  cases asserted : c.regs.sdCmdRst with
  | false => exact (held asserted).symm
  | true => rfl

theorem write_register_leaving (sel : Nat) (data : BitVec 32) (c : Controller)
    (leaving : Leaving c.cmdHost) : Leaving (writeRegister sel data c).cmdHost := by
  simp only [writeRegister, applyResets]
  split
  · exact leaving
  · exact Or.inl reset_rests

/-- Where a call stands, and what the command host may be doing meanwhile. -/
inductive Phase (o : Observed) : Prop where
  /-- Between transactions, possibly with some other call's writes to make. -/
  | settled
      (prepares : ∀ op ∈ o.system.pending, Prepares op)
      (start : o.system.controller.regs.sdCmdStart = false)
      (resting : Resting o.system.controller.cmdHost)
      (argument : (regsAfter o.system.pending o.system.controller.regs).sdCmdArg = o.argument)
      (sent : o.frames = o.issued.map frameOf)
  /-- A command is issued but `sd_cmd_start` is not raised. -/
  | asking (ops : List Operation) (v : Statics) (mask : BitVec 32) (earlier : List Command)
      (command : Command)
      (pending : o.system.pending =
        ops ++ sdCmdStart 1 :: .waitAll mask :: sdTransactionFinish v mask)
      (finish : mask.getLsbD 8 = true)
      (prepares : ∀ op ∈ ops, Prepares op)
      (start : o.system.controller.regs.sdCmdStart = false)
      (resting : Resting o.system.controller.cmdHost)
      (index : (regsAfter ops o.system.controller.regs).sdCmdI = command.1)
      (registered : (regsAfter ops o.system.controller.regs).sdCmdArg = command.2)
      (argument : o.argument = command.2)
      (issued : o.issued = earlier ++ [command])
      (sent : o.frames = earlier.map frameOf)
  | serving (v : Statics) (mask : BitVec 32) (earlier : List Command) (command : Command)
      (pending : o.system.pending = .waitAll mask :: sdTransactionFinish v mask)
      (finish : mask.getLsbD 8 = true)
      (start : o.system.controller.regs.sdCmdStart = true)
      (index : o.system.controller.regs.sdCmdI = command.1)
      (registered : o.system.controller.regs.sdCmdArg = command.2)
      (argument : o.argument = command.2)
      (issued : o.issued = earlier ++ [command])
      (serving : Serving (command.1 ++ command.2) (earlier.map frameOf)
        o.system.controller.cmdHost o.frames)
  /-- The driver has seen `finish_cmd`. -/
  | finished (v : Statics) (mask : BitVec 32)
      (pending : o.system.pending = sdTransactionFinish v mask)
      (finish : mask.getLsbD 8 = true)
      (start : o.system.controller.regs.sdCmdStart = true)
      (finished : Finished o.system.controller.cmdHost)
      (argument : o.system.controller.regs.sdCmdArg = o.argument)
      (sent : o.frames = o.issued.map frameOf)
  /-- `sd_cmd_start` is withdrawn and the driver waits for `finish_cmd` to fall. -/
  | leaving (ops : List Operation) (mask : BitVec 32)
      (pending : o.system.pending = ops ++ [.waitNone mask])
      (finish : mask.getLsbD 8 = true)
      (prepares : ∀ op ∈ ops, Prepares op)
      (start : o.system.controller.regs.sdCmdStart = false)
      (leaving : Leaving o.system.controller.cmdHost)
      (argument : (regsAfter ops o.system.controller.regs).sdCmdArg = o.argument)
      (sent : o.frames = o.issued.map frameOf)

section Steps

variable {o : Observed}

/-- A tick of `sd_clk` leaves the driver and the registers alone. -/
theorem phase_sd_clk (lines : CardLines) (held : HeldInReset o.system.controller)
    (phase : Phase o) : Phase (observe (.sdClk lines) o) := by
  have inReset : (cmdInputs lines o.system.controller).rst = true →
      o.system.controller.cmdHost = SdCmdSerialHost.reset := by
    intro asserted
    apply held
    simpa [cmdInputs] using asserted
  cases phase with
  | settled prepares start resting argument sent =>
      exact .settled prepares start (resting_edge start resting) argument
        ((resting_watch resting _ _).trans sent)
  | asking ops v mask earlier command pending finish prepares start resting index registered
      argument issued sent =>
      exact .asking ops v mask earlier command pending finish prepares start
        (resting_edge start resting) index registered argument issued
        ((resting_watch resting _ _).trans sent)
  | serving v mask earlier command pending finish start index registered argument issued
      serving =>
      have cmd : (cmdInputs lines o.system.controller).cmdI = command.1 ++ command.2 := by
        simp only [cmdInputs, index, registered]
      exact .serving v mask earlier command pending finish start index registered argument issued
        (serving_edge start cmd inReset serving)
  | finished v mask pending finish start finished argument sent =>
      have quiet : watchLine o.system.controller.cmdHost _ o.frames = o.frames :=
        leaving_watch (Or.inr (Or.inr finished)) (sdClkEdge lines o.system.controller).cmdHost _
      exact .finished v mask pending finish start (finished_edge start inReset finished) argument
        (quiet.trans sent)
  | leaving ops mask pending finish prepares start leaving argument sent =>
      exact .leaving ops mask pending finish prepares start (leaving_edge start leaving) argument
        ((leaving_watch leaving _ _).trans sent)

/-- A write of the driver, in any phase. -/
theorem observe_write {sel : Nat} {data : BitVec 32} {rest : List Operation}
    (fifoStatus : BitVec 4) (pending : o.system.pending = .write sel data :: rest) :
    observe (.access fifoStatus) o =
      { o with
        system :=
          { o.system with
            controller := writeRegister sel data o.system.controller
            pending := rest } } := by
  simp only [observe, stepSystem, access, pending]

/-- A poll whose condition fails changes nothing; otherwise the loop is left and
bit 8 of the mask tells what `finish_cmd` was. -/
theorem observe_wait_all {mask : BitVec 32} {rest : List Operation} (fifoStatus : BitVec 4)
    (finish : mask.getLsbD 8 = true) (pending : o.system.pending = .waitAll mask :: rest) :
    observe (.access fifoStatus) o = o ∨
      o.system.controller.cmdHost.finishO = true ∧
        observe (.access fifoStatus) o =
          { o with system := { o.system with pending := rest } } := by
  simp only [observe, stepSystem, access, pending]
  split_ifs with all
  · right
    have bit := congrArg (fun word => BitVec.getLsbD word 8) all
    simp only [BitVec.getLsbD_and, finish, Bool.and_true,
      (status_finish fifoStatus o.system.controller).1] at bit
    exact ⟨bit, rfl⟩
  · exact Or.inl rfl

theorem observe_wait_none {mask : BitVec 32} {rest : List Operation} (fifoStatus : BitVec 4)
    (finish : mask.getLsbD 8 = true) (pending : o.system.pending = .waitNone mask :: rest) :
    observe (.access fifoStatus) o = o ∨
      o.system.controller.cmdHost.finishO = false ∧
        observe (.access fifoStatus) o =
          { o with system := { o.system with pending := rest } } := by
  simp only [observe, stepSystem, access, pending]
  split_ifs with none
  · right
    have bit := congrArg (fun word => BitVec.getLsbD word 8) none
    simp only [BitVec.getLsbD_and, finish, Bool.and_true,
      (status_finish fifoStatus o.system.controller).1] at bit
    exact ⟨bit, rfl⟩
  · exact Or.inl rfl

theorem phase_access (fifoStatus : BitVec 4) (held : HeldInReset o.system.controller)
    (phase : Phase o) : Phase (observe (.access fifoStatus) o) := by
  cases phase with
  | settled prepares start resting argument sent =>
      cases pending : o.system.pending with
      | nil =>
          have still : observe (.access fifoStatus) o = o := by
            simp only [observe, stepSystem, access, pending]
          rw [still]
          exact .settled prepares start resting argument sent
      | cons op rest =>
          rw [pending] at prepares argument
          rcases List.forall_mem_cons.mp prepares with ⟨⟨sel, data, rfl, other⟩, later⟩
          rw [observe_write fifoStatus pending]
          exact .settled later ((store_register_start data _ other).trans start)
            (write_register_resting sel data _ resting) argument sent
  | asking ops v mask earlier command pending finish prepares start resting index registered
      argument issued sent =>
      cases ops with
      | nil =>
          rw [observe_write fifoStatus pending]
          have host : (writeRegister 5 1 o.system.controller).cmdHost =
              o.system.controller.cmdHost :=
            write_register_host 1 o.system.controller held (by decide)
          have serving : Serving (command.1 ++ command.2) (earlier.map frameOf)
              (writeRegister 5 1 o.system.controller).cmdHost o.frames := by
            rw [host, sent]
            exact .resting resting
          exact .serving v mask earlier command rfl finish rfl index registered argument issued
            serving
      | cons op rest =>
          rcases List.forall_mem_cons.mp prepares with ⟨⟨sel, data, rfl, other⟩, later⟩
          rw [observe_write fifoStatus pending]
          exact .asking rest v mask earlier command rfl finish later
            ((store_register_start data _ other).trans start)
            (write_register_resting sel data _ resting) index registered argument issued sent
  | serving v mask earlier command pending finish start index registered argument issued
      serving =>
      rcases observe_wait_all fifoStatus finish pending with still | ⟨finishCmd, next⟩
      · rw [still]
        exact .serving v mask earlier command pending finish start index registered argument
          issued serving
      · rcases serving_finished serving finishCmd with ⟨finished, frames⟩
        have sent : o.frames = o.issued.map frameOf := by
          rw [frames, issued, List.map_append, frame_bits_all]
          rfl
        rw [next]
        exact .finished v mask rfl finish start finished (registered.trans argument.symm) sent
  | finished v mask pending finish start finished argument sent =>
      rw [observe_write fifoStatus pending]
      have host : (writeRegister 5 0 o.system.controller).cmdHost =
          o.system.controller.cmdHost :=
        write_register_host 0 o.system.controller held (by decide)
      have setting : ∀ op ∈ [sdCmdSetting v 0], Prepares op := write_prepares _ (by decide)
      have leaving : Leaving (writeRegister 5 0 o.system.controller).cmdHost := by
        rw [host]
        exact Or.inr (Or.inr finished)
      exact .leaving [sdCmdSetting v 0] mask rfl finish setting rfl leaving argument sent
  | leaving ops mask pending finish prepares start leaving argument sent =>
      cases ops with
      | nil =>
          rcases observe_wait_none fifoStatus finish pending with still | ⟨unfinished, next⟩
          · rw [still]
            exact .leaving [] mask pending finish prepares start leaving argument sent
          · rw [next]
            exact .settled (List.forall_mem_nil _) start
              (leaving_rests leaving unfinished) argument sent
      | cons op rest =>
          rcases List.forall_mem_cons.mp prepares with ⟨⟨sel, data, rfl, other⟩, later⟩
          rw [observe_write fifoStatus pending]
          exact .leaving rest mask rfl finish later
            ((store_register_start data _ other).trans start)
            (write_register_leaving sel data _ leaving) argument sent

theorem settled_of_returned (phase : Phase o) (returned : o.system.pending = []) :
    o.system.controller.regs.sdCmdStart = false ∧ Resting o.system.controller.cmdHost ∧
      o.system.controller.regs.sdCmdArg = o.argument ∧ o.frames = o.issued.map frameOf := by
  cases phase with
  | settled prepares start resting argument sent =>
      rw [returned] at argument
      exact ⟨start, resting, argument, sent⟩
  | asking ops _ _ _ _ pending => simp [pending] at returned
  | serving _ _ _ _ pending => simp [pending] at returned
  | finished _ _ pending => simp [pending, sdTransactionFinish] at returned
  | leaving ops _ pending => simp [pending] at returned

/-- `sd_cmd` receives the index of the call, whatever the sign of `val`. -/
theorem sd_cmd_index (val : BitVec 32) :
    (val.sshiftRight 8).extractLsb' 0 6 = uartGetCmd val := by
  apply BitVec.eq_of_getLsbD_eq
  intro index bound
  have high : 8 + index < 32 := by omega
  have low : index < 32 := by omega
  rw [uartGetCmd, BitVec.getLsbD_extractLsb', BitVec.getLsbD_extractLsb',
    BitVec.getLsbD_sshiftRight, Nat.zero_add]
  simp [high, Nat.not_le.mpr low]

/-- Other calls than `COMMAND` make writes, if anything, and none to `sd_cmd_start`. -/
theorem uart_write_prepares (v : Statics) (val : BitVec 32) (reg : UartRegister)
    (other : reg ≠ .command) : ∀ op ∈ MinionDriver.minionUartWrite v val reg, Prepares op := by
  intro op member
  obtain ⟨sel, data, same, notStart, -⟩ := uart_write_selects v val reg other op member
  exact ⟨sel, data, same, notStart⟩

theorem uart_write_argument (v : Statics) (val : BitVec 32) (reg : UartRegister)
    (regs : Registers) (other : reg ≠ .argument) :
    (regsAfter (MinionDriver.minionUartWrite v val reg) regs).sdCmdArg = regs.sdCmdArg := by
  cases reg with
  | argument => exact absurd rfl other
  | clockControl =>
      simp only [MinionDriver.minionUartWrite]
      split_ifs <;> rfl
  | command | blockCount | blockSize | timeoutControl | hostControl | transferMode
  | softwareReset | intStatus | other => rfl

theorem phase_call (val : BitVec 32) (reg : UartRegister) (phase : Phase o) :
    Phase (observe (.minionUartWrite val reg) o) := by
  by_cases returned : o.system.pending = []
  · rcases settled_of_returned phase returned with ⟨start, resting, argument, sent⟩
    have prepares := uart_write_prepares o.system.statics val reg
    have kept := uart_write_argument o.system.statics val reg o.system.controller.regs
    cases reg with
    | argument =>
        simp only [observe, stepSystem, returned, if_true]
        exact .settled (prepares (by decide)) start resting rfl sent
    | command =>
        simp only [observe, stepSystem, returned, if_true]
        refine .asking
          [sdCmd (val.sshiftRight 8), sdCmdSetting o.system.statics (val &&& 255)]
          o.system.statics (transactionMask o.system.statics) o.issued
          (uartGetCmd val, o.argument) rfl (transaction_mask_finish _) ?_ start resting
          (sd_cmd_index val) argument rfl rfl sent
        exact List.forall_mem_cons.mpr ⟨⟨3, _, rfl, by decide⟩, write_prepares _ (by decide)⟩
    | blockCount | blockSize | hostControl | transferMode | timeoutControl | softwareReset
    | clockControl | intStatus | other =>
        simp only [observe, stepSystem, returned, if_true]
        exact .settled (prepares (by decide)) start resting
          ((kept (by decide)).trans argument) sent
  · have ignored : observe (.minionUartWrite val reg) o = o := by
      cases reg <;> simp only [observe, stepSystem, returned, if_false]
    rw [ignored]
    exact phase

theorem phase_power_init (phase : Phase o) : Phase (observe .boardMmcPowerInit o) := by
  by_cases returned : o.system.pending = []
  · rcases settled_of_returned phase returned with ⟨start, resting, argument, sent⟩
    have prepares : ∀ op ∈ MinionDriver.boardMmcPowerInit, Prepares op := by
      intro op member
      simp only [MinionDriver.boardMmcPowerInit, List.mem_cons, List.not_mem_nil, or_false]
        at member
      rcases member with rfl | rfl | rfl | rfl | rfl | rfl | rfl
      all_goals exact ⟨_, _, rfl, by decide⟩
    simp only [observe, stepSystem, returned, if_true]
    exact .settled prepares start resting argument sent
  · have ignored : observe .boardMmcPowerInit o = o := by
      simp only [observe, stepSystem, returned, if_false]
    rw [ignored]
    exact phase

theorem observe_held (event : Event) (held : HeldInReset o.system.controller) :
    HeldInReset (observe event o).system.controller := by
  have system : (observe event o).system = stepSystem event o.system := by
    unfold observe
    split
    · split_ifs <;> rfl
    · split_ifs <;> rfl
    · rfl
    · rfl
  rw [system]
  cases event with
  | minionUartWrite val reg =>
      simp only [stepSystem]
      split_ifs <;> exact held
  | boardMmcPowerInit =>
      simp only [stepSystem]
      split_ifs <;> exact held
  | access fifoStatus =>
      simp only [stepSystem, access]
      split
      · exact held
      · exact write_register_held _ _ _
      · split_ifs <;> exact held
      · split_ifs <;> exact held
  | sdClk lines => exact sd_clk_edge_held lines _

theorem phase_step (event : Event) (held : HeldInReset o.system.controller) (phase : Phase o) :
    Phase (observe event o) := by
  cases event with
  | minionUartWrite val reg => exact phase_call val reg phase
  | boardMmcPowerInit => exact phase_power_init phase
  | access fifoStatus => exact phase_access fifoStatus held phase
  | sdClk lines => exact phase_sd_clk lines held phase

end Steps

theorem phase_run (events : List Event) :
    HeldInReset (runEvents observe powerUp events).system.controller ∧
      Phase (runEvents observe powerUp events) := by
  apply run_events_invariant observe fun o => HeldInReset o.system.controller ∧ Phase o
  · intro event o invariant
    exact ⟨observe_held event invariant.1, phase_step event invariant.1 invariant.2⟩
  · exact ⟨power_up_held, .settled (List.forall_mem_nil _) rfl reset_rests rfl rfl⟩

/-- At any moment between two driver calls, whatever the order of events so far,
the command host has passed through `SETUP_CRC` once for every `COMMAND` call
and sent the frames of these calls in their order. -/
theorem frames_of_calls (events : List Event)
    (returned : (runEvents observe powerUp events).system.pending = []) :
    (runEvents observe powerUp events).frames =
      (runEvents observe powerUp events).issued.map frameOf :=
  (settled_of_returned (phase_run events).2 returned).2.2.2

private def quietLines : CardLines where
  sdCmdToHostDly := true
  sdDatToHostDly := 0xF
  dataOutTxFifo := 0

private def accesses (count : Nat) : List Event := List.replicate count (.access 0)

private def ticks (count : Nat) : List Event := List.replicate count (.sdClk quietLines)

/-- `board_mmc_power_init`, then command 17 with argument 5 and no response. -/
def initAndCommand : List Event :=
  List.flatten
    [[.boardMmcPowerInit], accesses 7, [.minionUartWrite 5 .argument], accesses 1,
      [.minionUartWrite 0x1100 .command], accesses 3, ticks 140, accesses 3, ticks 2, accesses 1]

theorem frames_of_calls_of_command :
    (runEvents observe powerUp initAndCommand).issued = [(17, 5)] ∧
      (runEvents observe powerUp initAndCommand).frames =
        (runEvents observe powerUp initAndCommand).issued.map frameOf := by
  have returned : (runEvents observe powerUp initAndCommand).system.pending = [] := by
    decide +kernel
  exact ⟨by decide +kernel, frames_of_calls initAndCommand returned⟩

end MinionSubsystem.DriverHandshake
