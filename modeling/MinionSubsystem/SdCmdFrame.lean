import MinionSubsystem.SdCmdSerialHost

/-!
# Sending a command

`Writing count` describes the host after `count` clocks of `WRITE`, with one
counter for the bit on the line, the bit being divided behind it and the bit
set up for `CRC_7` ahead of it. `Sent` is what stays of it until the host is
back in `IDLE`.
-/

namespace MinionSubsystem.SdCmdFrame

open MinionSubsystem.BitStream
open MinionSubsystem.ClockedRun
open MinionSubsystem.SdCmdSerialHost
open MinionSubsystem.SdCrc

set_option autoImplicit false

def commandFrame (index : BitVec 6) (argument : BitVec 32) : List Bool :=
  let command := [false, true] ++ wireBits index ++ wireBits argument
  command ++ wireBits (crc7 command) ++ [true]

/-- The same bits by number, for the command as `cmd_i` holds it. -/
def frameBit (cmd : BitVec 38) (count : Nat) : Bool :=
  if count < 40 then (cmdStartBit cmd).getMsbD count
  else if count < 47 then (crc7 (wireBits (cmdStartBit cmd))).getMsbD (count - 40)
  else true

def frameBits (cmd : BitVec 38) (count : Nat) : List Bool :=
  (List.range count).map (frameBit cmd)

structure SettingUp (s : State) : Prop where
  state : s.state = .setupCrc
  counter : s.counter = 0
  crcRst : s.crcRst = true
  cmdOeO : s.cmdOeO = false

structure Writing (cmd : BitVec 38) (count : Nat) (s : State) : Prop where
  state : s.state = .write
  counter : s.counter.toNat = count
  crcRst : s.crcRst = false
  crcEnable : s.crcEnable = decide (count < 40)
  crcBit : count < 40 → s.crcBit = frameBit cmd count
  crcValO : s.crcValO = crc7 (frameBits cmd (min count 40))
  packetO : s.packetO = concatBits 48 (frameBits cmd count)
  cmdOeO : s.cmdOeO = decide (0 < count)
  cmdOutO : 0 < count → s.cmdOutO = frameBit cmd (count - 1)

/-- The frame is out and the host is not back in `IDLE`. -/
structure Sent (cmd : BitVec 38) (s : State) : Prop where
  phase : s.state = .readWait ∨ s.state = .read ∨ s.state = .finishRdWr
  packetO : s.packetO = concatBits 48 (frameBits cmd 48)
  cmdOeO : s.cmdOeO = false

variable {cmd : BitVec 38} {count : Nat} {i : Inputs} {s : State}

theorem frame_bits_succ (cmd : BitVec 38) (count : Nat) :
    frameBits cmd (count + 1) = frameBits cmd count ++ [frameBit cmd count] := by
  simp [frameBits, List.range_succ]

theorem frame_bits_command (cmd : BitVec 38) :
    frameBits cmd 40 = wireBits (cmdStartBit cmd) := by
  apply List.map_congr_left
  intro count member
  exact if_pos (List.mem_range.mp member)

theorem frame_bits_all (index : BitVec 6) (argument : BitVec 32) :
    frameBits (index ++ argument) 48 = commandFrame index argument := by
  have command : wireBits (cmdStartBit (index ++ argument)) =
      [false, true] ++ wireBits index ++ wireBits argument := by
    rw [cmdStartBit, wire_bits_append, wire_bits_append, List.append_assoc]
    rfl
  have checked : (List.range 7).map (fun place => frameBit (index ++ argument) (40 + place)) =
      wireBits (crc7 (wireBits (cmdStartBit (index ++ argument)))) := by
    apply List.map_congr_left
    intro place member
    have bound := List.mem_range.mp member
    rw [frameBit, if_neg (by omega), if_pos (by omega), Nat.add_sub_cancel_left]
  have split : frameBits (index ++ argument) 48 =
      frameBits (index ++ argument) 40 ++
        (List.range 7).map (fun place => frameBit (index ++ argument) (40 + place)) ++
          [true] := rfl
  rw [split, frame_bits_command, checked, command]
  rfl

theorem frame_bit_command (inside : count < 40) :
    frameBit cmd count = (cmdStartBit cmd).getLsbD (39 - count) := by
  rw [frameBit, if_pos inside, BitVec.getMsbD_eq_getLsbD]
  simp only [inside, decide_true, Bool.true_and]

theorem frame_bit_check (past : 40 ≤ count) (inside : count < 47) :
    frameBit cmd count = (crc7 (wireBits (cmdStartBit cmd))).getLsbD (46 - count) := by
  have place : count - 40 < 7 := by omega
  have mirrored : 7 - 1 - (count - 40) = 46 - count := by omega
  rw [frameBit, if_neg (by omega), if_pos inside, BitVec.getMsbD_eq_getLsbD, mirrored]
  simp only [place, decide_true, Bool.true_and]

theorem idle_accepts (running : i.rst = false) (idle : s.state = .idle)
    (start : i.startI = true) : SettingUp (step i s) := by
  rw [step_running i s running]
  have edge : outEdge i s = idleEdge s := by simp only [outEdge, idle]
  have next : nextState i s = .setupCrc := by simp only [nextState, idle, start, if_true]
  rw [edge, next]
  exact
    { state := rfl
      counter := rfl
      crcRst := rfl
      cmdOeO := rfl }

theorem setup_writes (running : i.rst = false) (command : i.cmdI = cmd)
    (setup : SettingUp s) : Writing cmd 0 (step i s) := by
  rw [step_running i s running]
  have edge : outEdge i s = setupCrcEdge i s := by simp only [outEdge, setup.state]
  have next : nextState i s = .write := by simp only [nextState, setup.state]
  rw [edge, next]
  exact
    { state := rfl
      counter := by
        change s.counter.toNat = 0
        rw [setup.counter]
        rfl
      crcRst := rfl
      crcEnable := rfl
      crcBit := by
        intro _
        change (cmdStartBit i.cmdI).getLsbD 39 = _
        rw [command]
        rfl
      crcValO := crc_edge_clears s (setupCrcEdge i s) (Or.inl setup.crcRst)
      packetO := rfl
      cmdOeO := setup.cmdOeO
      cmdOutO := by
        intro positive
        exact absurd positive (by decide) }

/-- The bit on the line, and the two CRC registers for the bit after it. -/
theorem write_drive_frame (writing : Writing cmd count s) (command : i.cmdI = cmd)
    (more : count < 48) :
    (writeDrive i s).cmdOeO = true ∧
      (writeDrive i s).cmdOutO = frameBit cmd count ∧
      (writeDrive i s).crcEnable = decide (count + 1 < 40) ∧
      (count + 1 < 40 → (writeDrive i s).crcBit = frameBit cmd (count + 1)) := by
  have counter := writing.counter
  have enabled := writing.crcEnable
  by_cases sending : count < 40
  · have drive : writeDrive i s = writeCommandBit i s := by
      simp only [writeDrive, counter, bitsToSend, Nat.reduceSub, sending, if_true]
    rw [drive]
    simp only [writeCommandBit, counter, command, bitsToSend, cmdSize, Nat.reduceSub]
    refine ⟨trivial, (frame_bit_command sending).symm, ?_, ?_⟩
    · by_cases ahead : count < 39
      · have next : count + 1 < 40 := by omega
        simp only [ahead, next, enabled, sending, if_true, decide_true]
      · have next : ¬count + 1 < 40 := by omega
        simp only [ahead, next, if_false, decide_false]
    · intro next
      rw [if_pos (by omega), frame_bit_command next, Nat.add_comm count 1, Nat.sub_add_eq]
  have disabled : decide (count + 1 < 40) = false := by
    simp
    omega
  by_cases checking : count < 47
  · have drive : writeDrive i s = writeCheckBit s := by
      simp only [writeDrive, counter, bitsToSend, Nat.reduceSub, sending, checking, if_true,
        if_false]
    have divided := writing.crcValO
    rw [min_eq_right (by omega), frame_bits_command] at divided
    rw [drive, disabled]
    simp only [writeCheckBit, counter, divided, bitsToSend]
    refine ⟨trivial, ?_, trivial, by omega⟩
    rw [frame_bit_check (by omega) checking]
    congr 1
    omega
  · have last : count = 47 := by omega
    have drive : writeDrive i s = { s with cmdOeO := true, cmdOutO := true } := by
      rw [writeDrive, counter, last]
      rfl
    rw [drive, disabled]
    refine ⟨rfl, ?_, ?_, by omega⟩
    · rw [frameBit, if_neg sending, if_neg checking]
    · simp only [enabled, sending, decide_false]

theorem write_drive_keeps (i : Inputs) (s : State) :
    (writeDrive i s).crcRst = s.crcRst ∧ (writeDrive i s).finishO = s.finishO := by
  unfold writeDrive
  split_ifs <;> exact ⟨rfl, rfl⟩

theorem writing_step (running : i.rst = false) (command : i.cmdI = cmd)
    (writing : Writing cmd count s) (more : count < 48) :
    Writing cmd (count + 1) (step i s) := by
  rw [step_running i s running]
  have counter := writing.counter
  have edge : outEdge i s = writeEdge i s := by simp only [outEdge, writing.state]
  have next : nextState i s = .write := by
    simp only [nextState, writing.state, bitsToSend, counter]
    rw [if_neg (by omega), if_neg (by omega)]
  rcases write_drive_frame writing command more with ⟨drives, bit, enable, ahead⟩
  have released := (write_drive_keeps i s).1.trans writing.crcRst
  rw [edge, next]
  exact
    { state := rfl
      counter := by
        change (s.counter + 1).toNat = _
        rw [counter_succ _ (by omega), counter]
      crcRst := released
      crcEnable := enable
      crcBit := ahead
      crcValO := by
        change crcEdge s (writeEdge i s) = _
        by_cases sending : count < 40
        · rw [min_eq_left (by omega), frame_bits_succ, ← writing.crcBit sending]
          apply crc_edge_extends _ _ _ writing.crcRst released
          · rw [writing.crcEnable]
            simp [sending]
          · rw [writing.crcValO, min_eq_left (by omega)]
        · have disabled : s.crcEnable = false := by
            rw [writing.crcEnable]
            simp [sending]
          rw [crc_edge_holds s (writeEdge i s) writing.crcRst released disabled,
            writing.crcValO, min_eq_right (by omega), min_eq_right (by omega)]
      packetO := by
        change (if (writeDrive i s).cmdOeO then
          s.packetO.shiftConcat (writeDrive i s).cmdOutO else s.packetO) = _
        rw [if_pos drives, bit, writing.packetO, frame_bits_succ]
        exact (shift_in_all_concat _ _ _).symm
      cmdOeO := by
        change (writeDrive i s).cmdOeO = _
        rw [drives]
        simp
      cmdOutO := fun _ => bit }

/-- The clock behind the stop bit releases the line and leaves `WRITE`. -/
theorem writing_leaves (running : i.rst = false) (writing : Writing cmd 48 s) :
    Sent cmd (step i s) := by
  rw [step_running i s running]
  have counter := writing.counter
  have edge : outEdge i s = writeEdge i s := by simp only [outEdge, writing.state]
  have released : (writeDrive i s).cmdOeO = false := by
    simp [writeDrive, counter, bitsToSend]
  rw [edge]
  exact
    { phase := by
        change nextState i s = _ ∨ nextState i s = _ ∨ nextState i s = _
        simp only [nextState, writing.state, bitsToSend, counter, Nat.le_refl, true_and, if_true]
        cases withResponse i.settingI <;> simp
      packetO := by
        change (if (writeDrive i s).cmdOeO then
          s.packetO.shiftConcat (writeDrive i s).cmdOutO else s.packetO) = _
        rw [released]
        exact writing.packetO
      cmdOeO := released }

/-- `finish_o` rises in `FINISH_RD_WR` only, not on the way there. -/
theorem writing_unfinished (running : i.rst = false) (writing : s.state = .write) :
    (step i s).finishO = s.finishO := by
  rw [step_running i s running]
  have edge : outEdge i s = writeEdge i s := by simp only [outEdge, writing]
  rw [edge]
  exact (write_drive_keeps i s).2

/-- Behind the frame nothing drives the line and the packet stays, until the
withdrawal of `start_i` takes the host back to `IDLE`. -/
theorem sent_step (running : i.rst = false) (sent : Sent cmd s) :
    (i.startI = false ∧ s.state = .finishRdWr ∧ (step i s).state = .idle) ∨
      Sent cmd (step i s) := by
  rw [step_running i s running]
  rcases sent.phase with waiting | reading | finished
  · right
    have edge : outEdge i s = readWaitEdge i s := by simp only [outEdge, waiting]
    rw [edge]
    refine { phase := ?_, packetO := sent.packetO, cmdOeO := rfl }
    change nextState i s = _ ∨ nextState i s = _ ∨ nextState i s = _
    simp only [nextState, waiting]
    split_ifs <;> simp
  · right
    have edge : outEdge i s = readEdge i s := by simp only [outEdge, reading]
    rw [edge]
    refine { phase := ?_, packetO := sent.packetO, cmdOeO := rfl }
    change nextState i s = _ ∨ nextState i s = _ ∨ nextState i s = _
    simp only [nextState, reading]
    split_ifs <;> simp
  · have edge : outEdge i s = finishRdWrEdge i s := by simp only [outEdge, finished]
    rw [edge]
    cases start : i.startI with
    | false =>
        left
        refine ⟨rfl, finished, ?_⟩
        simp only [nextState, finished, start, Bool.false_eq_true, if_false]
    | true =>
        right
        refine { phase := ?_, packetO := sent.packetO, cmdOeO := rfl }
        simp only [nextState, finished, start, if_true, or_true]

/-- A command is requested of a host in `IDLE` and held. -/
structure CommandAccepted (cmd : BitVec 38) (start : State) (inputs : Nat → Inputs) : Prop where
  idle : start.state = .idle
  released : ∀ clock, (inputs clock).rst = false
  cmdI : ∀ clock, (inputs clock).cmdI = cmd
  startI : (inputs 0).startI = true

/-- The line is not driven from the initial delay any more. -/
structure CommandRequest (cmd : BitVec 38) (start : State) (inputs : Nat → Inputs) : Prop
    extends CommandAccepted cmd start inputs where
  cmdOeO : start.cmdOeO = false

/-- The host has not returned to `IDLE` since the request. -/
def Active (start : State) (inputs : Nat → Inputs) (clock : Nat) : Prop :=
  ∀ earlier, 1 ≤ earlier → earlier ≤ clock → (run step start inputs earlier).state ≠ .idle

section Run

variable {start : State} {inputs : Nat → Inputs}

theorem setup_run (request : CommandAccepted cmd start inputs) :
    SettingUp (run step start inputs 1) :=
  idle_accepts (request.released 0) request.idle request.startI

theorem writing_run (request : CommandAccepted cmd start inputs) (count : Nat)
    (bound : count ≤ 48) : Writing cmd count (run step start inputs (2 + count)) := by
  refine run_invariant step start inputs (Writing cmd) 2 50 ?_ ?_ count (by omega)
  · exact setup_writes (request.released 1) (request.cmdI 1) (setup_run request)
  · intro count before writing
    exact writing_step (request.released _) (request.cmdI _) writing (by omega)

theorem leaving_run (request : CommandAccepted cmd start inputs) :
    Sent cmd (run step start inputs 51) :=
  writing_leaves (request.released 50) (writing_run request 48 (Nat.le_refl _))

/-- The host cannot be back in `IDLE` before its frame is out. -/
theorem active_until_sent (request : CommandAccepted cmd start inputs) :
    Active start inputs 51 := by
  intro clock after bound
  rcases Nat.lt_trichotomy clock 51 with writes | last | beyond
  · by_cases setup : clock = 1
    · rw [setup, (setup_run request).state]
      decide
    · have writing := writing_run request (clock - 2) (by omega)
      rw [Nat.add_sub_cancel' (by omega)] at writing
      rw [writing.state]
      decide
  · rw [last]
    rcases (leaving_run request).phase with waiting | reading | finished
    · simp [waiting]
    · simp [reading]
    · simp [finished]
  · omega

theorem sent_run (request : CommandAccepted cmd start inputs) (later : Nat)
    (active : Active start inputs (51 + later)) :
    Sent cmd (run step start inputs (51 + later)) := by
  induction later with
  | zero => exact leaving_run request
  | succ later ih =>
      have sent := ih fun earlier after bound => active earlier after (by omega)
      rcases sent_step (request.released (51 + later)) sent with ⟨_, _, idle⟩ | next
      · exact absurd idle (active (51 + later + 1) (by omega) (Nat.le_refl _))
      · exact next

end Run

/-- A command drives the line for the 48 clocks of its frame and no others, leaves
`WRITE` after them and holds the frame in `packet_o` from then on. Clock 0 is the
edge that accepts the request. -/
theorem command_frame (index : BitVec 6) (argument : BitVec 32) (start : State)
    (inputs : Nat → Inputs) (request : CommandRequest (index ++ argument) start inputs) :
    (∀ clock, Active start inputs clock →
      ((run step start inputs clock).cmdOeO = true ↔ 3 ≤ clock ∧ clock ≤ 50)) ∧
      observed State.cmdOutO (run step start inputs) 3 48 = commandFrame index argument ∧
      (run step start inputs 50).state = .write ∧ Active start inputs 51 ∧
      ∀ clock, 51 ≤ clock → Active start inputs clock →
        (run step start inputs clock).state ≠ .write ∧
          wireBits (run step start inputs clock).packetO = commandFrame index argument := by
  have accepted := request.toCommandAccepted
  refine ⟨?_, ?_, (writing_run accepted 48 (Nat.le_refl _)).state, active_until_sent accepted, ?_⟩
  · intro clock active
    match clock with
    | 0 => simp [request.cmdOeO]
    | 1 => simp [(setup_run accepted).cmdOeO]
    | clock + 2 =>
        by_cases writes : clock ≤ 48
        · have writing := (writing_run accepted clock writes).cmdOeO
          rw [Nat.add_comm clock 2, writing, decide_eq_true_iff]
          omega
        · have behind : 51 ≤ clock + 2 := by omega
          obtain ⟨later, place⟩ := Nat.exists_eq_add_of_le behind
          rw [place] at active ⊢
          rw [(sent_run accepted later active).cmdOeO]
          simp
          omega
  · rw [← frame_bits_all]
    apply observed_eq_map
    intro offset bound
    have place : 3 + offset = 2 + (offset + 1) := by omega
    rw [place]
    exact (writing_run accepted (offset + 1) (by omega)).cmdOutO (Nat.succ_pos offset)
  · intro clock after active
    obtain ⟨later, place⟩ := Nat.exists_eq_add_of_le after
    rw [place] at active ⊢
    have sent := sent_run accepted later active
    constructor
    · rcases sent.phase with waiting | reading | finished
      · rw [waiting]
        decide
      · rw [reading]
        decide
      · rw [finished]
        decide
    · rw [sent.packetO, frame_bits_all]
      exact wire_concat_bits _ rfl

def ready : State := { reset with state := .idle, cmdOeO := false }

private def readBlockInputs (_ : Nat) : Inputs where
  rst := false
  settingI := 1
  cmdI := 17#6 ++ 0x00000200#32
  startI := true
  timeoutI := 15
  cmdDatI := true

theorem command_frame_of_read_block :
    (∀ clock, Active ready readBlockInputs clock →
      ((run step ready readBlockInputs clock).cmdOeO = true ↔ 3 ≤ clock ∧ clock ≤ 50)) ∧
      observed State.cmdOutO (run step ready readBlockInputs) 3 48 =
        commandFrame 17 0x00000200 ∧
      (run step ready readBlockInputs 50).state = .write ∧ Active ready readBlockInputs 51 ∧
      ∀ clock, 51 ≤ clock → Active ready readBlockInputs clock →
        (run step ready readBlockInputs clock).state ≠ .write ∧
          wireBits (run step ready readBlockInputs clock).packetO =
            commandFrame 17 0x00000200 :=
  command_frame 17 0x00000200 ready readBlockInputs
    { idle := rfl
      cmdOeO := rfl
      released := fun _ => rfl
      cmdI := fun _ => rfl
      startI := rfl }

end MinionSubsystem.SdCmdFrame
