import MinionSubsystem.DiskIo
import MinionSubsystem.DriverHandshake
import MinionSubsystem.SectorRead

/-!
# Errors below `disk_read`

The card answers every read command with a run of the data host, or not at
all. `disk_read` over `sd_read_sector` over the receive FIFO: what the card
did is known to the controller only, `disk_read` reports success.
-/

namespace MinionSubsystem.DiskErrors

open MinionSubsystem.ByteMemory
open MinionSubsystem.ClockedRun
open MinionSubsystem.DiskIo
open MinionSubsystem.DriverHandshake
open MinionSubsystem.MinionDriver
open MinionSubsystem.SdController
open MinionSubsystem.SdDataRead
open MinionSubsystem.SectorRead

set_option autoImplicit false

/-- What the data host goes through for one read command. -/
structure Transfer where
  start : SdDataSerialHost.State
  inputs : Nat → SdDataSerialHost.Inputs
  clocks : Nat

def Transfer.words (t : Transfer) : List (BitVec 32) :=
  transferred push (run SdDataSerialHost.step t.start t.inputs) 1 t.clocks

def Transfer.final (t : Transfer) : SdDataSerialHost.State :=
  run SdDataSerialHost.step t.start t.inputs t.clocks

def activeLane (host : SdDataSerialHost.State) (lane : Nat) : Bool :=
  host.bus4bitReg || lane = 0

/-- A whole block with a good check on every active lane. -/
def Complete (t : Transfer) : Prop :=
  t.words.length = 128 ∧
    ∀ lane, lane < 4 → activeLane t.final lane = true → t.final.crcLaneOk.getLsbD lane = true

/-- Byte `offset` of a sequence of FIFO words, in the order of the bus. -/
def fifoByte (words : List (BitVec 32)) (offset : Nat) : BitVec 8 :=
  (words.getD (offset / 4) 0).extractLsb' (24 - 8 * (offset % 4)) 8

def receivedByte (t : Transfer) (offset : Nat) : BitVec 8 := fifoByte t.words offset

theorem word_of_fifo_bytes (left right : BitVec 32)
    (same : ∀ place, place < 4 →
      left.extractLsb' (24 - 8 * place) 8 = right.extractLsb' (24 - 8 * place) 8) :
    left = right := by
  apply BitVec.eq_of_getLsbD_eq
  intro index inside
  have byte := congrArg (fun bits => BitVec.getLsbD bits (index % 8))
    (same (3 - index / 8) (by omega))
  have start : 24 - 8 * (3 - index / 8) + index % 8 = index := by omega
  have small : index % 8 < 8 := Nat.mod_lt _ (by decide)
  simpa [BitVec.getLsbD_extractLsb', small, start] using byte

/-- The bytes of a block are those of its words. -/
theorem fifo_bytes_eq_iff (left right : List (BitVec 32)) (count : Nat)
    (leftRoom : count ≤ left.length) (rightRoom : count ≤ right.length) :
    (∀ offset, offset < 4 * count → fifoByte left offset = fifoByte right offset) ↔
      left.take count = right.take count := by
  constructor
  · intro same
    apply List.ext_getElem
    · rw [List.length_take, List.length_take]
      omega
    · intro index inside _
      rw [List.length_take] at inside
      rw [List.getElem_take, List.getElem_take]
      apply word_of_fifo_bytes
      intro place bound
      have byte := same (4 * index + place) (by omega)
      have quotient : (4 * index + place) / 4 = index := by omega
      have remainder : (4 * index + place) % 4 = place := by omega
      rw [fifoByte, fifoByte, quotient, remainder, List.getD_eq_getElem _ _ (by omega),
        List.getD_eq_getElem _ _ (by omega)] at byte
      exact byte
  · intro same offset inside
    have word := congrArg (fun words => words[offset / 4]?) same
    simp only [List.getElem?_take] at word
    rw [if_pos (by omega), if_pos (by omega)] at word
    rw [fifoByte, fifoByte, List.getD_eq_getElem?_getD, List.getD_eq_getElem?_getD, word]

/-- The controller with its FIFO, the card's answers to the read commands to come, and
for every command answered so far the argument it was sent with. A command that the
card does not answer never raises `finish_data`: the poll for it does not end. -/
structure SdSystem where
  regs : Registers
  rxFifo : RxFifo
  upcoming : Nat → Option Transfer
  answered : List (BitVec 32 × Transfer)

def SdSystem.receive (d : SdSystem) : Option SdSystem :=
  match d.upcoming 0 with
  | none => none
  | some t =>
      some
        { d with
          rxFifo := { d.rxFifo with contents := d.rxFifo.contents ++ t.words }
          upcoming := fun n => d.upcoming (n + 1)
          answered := d.answered ++ [(d.regs.sdCmdArg, t)] }

/-- A transfer is over when a poll that includes `finish_data`, bit 10, is. -/
def sdPort : SdPort SdSystem where
  perform := fun access d =>
    match access with
    | .write sel data => some { d with regs := storeRegister sel data d.regs }
    | .waitAll mask => if mask.getLsbD 10 then d.receive else some d
    | .waitNone _ => some d
  sdStat := fun d => d.rxFifo.status
  storeRxFifo := fun d => { d with rxFifo := d.rxFifo.store }
  loadRxFifo := fun d => d.rxFifo.out

theorem sd_port_serves : ServesFifo sdPort fun d => d.rxFifo.contents :=
  rx_fifo_serves SdSystem.rxFifo sdPort (fun _ => rfl) (fun _ => rfl) (fun _ => rfl)

def WaitsForCommand (access : Operation) : Prop :=
  ∀ mask, access = .waitAll mask → mask.getLsbD 10 = false

theorem perform_writes (accesses : List Operation)
    (writes : ∀ access ∈ accesses, WaitsForCommand access) (d : SdSystem) :
    performAll sdPort accesses d = some { d with regs := regsAfter accesses d.regs } := by
  induction accesses generalizing d with
  | nil => rfl
  | cons access accesses ih =>
      rcases List.forall_mem_cons.mp writes with ⟨first, later⟩
      cases access with
      | write sel data => exact ih later { d with regs := storeRegister sel data d.regs }
      | waitNone mask => exact ih later d
      | waitAll mask =>
          have command : sdPort.perform (.waitAll mask) d = some d :=
            if_neg (by rw [first mask rfl]; decide)
          simp only [performAll, List.foldlM_cons, command, Option.bind_eq_bind, Option.bind_some]
          exact ih later d

theorem write_waits (sel : Nat) (data : BitVec 32) : WaitsForCommand (.write sel data) :=
  fun _ wait => Operation.noConfusion wait

theorem wait_none_waits (mask : BitVec 32) : WaitsForCommand (.waitNone mask) :=
  fun _ wait => Operation.noConfusion wait

/-- Without `TRNS_READ` a command polls `finish_cmd` only. -/
theorem command_waits (v : Statics) (noRead : v.minionUartTransferMode &&& uartTrnsRead = 0) :
    WaitsForCommand (.waitAll (transactionMask v)) := by
  intro mask wait
  have same := Operation.waitAll.inj wait
  rw [← same, transactionMask, if_neg (fun read => read noRead)]
  decide

theorem read_mask (v : Statics) (read : v.minionUartTransferMode &&& uartTrnsRead ≠ 0) :
    transactionMask v = 0x500 :=
  if_pos read

def requestAccesses (v : Statics) (sect : BitVec 32) : List Operation :=
  (accessesOf v (sectorCalls sect)).take 15

theorem request_waits (v : Statics) (sect : BitVec 32) :
    ∀ access ∈ requestAccesses v sect, WaitsForCommand access := by
  let silent : Statics := { v with minionUartTransferMode := 0 }
  let reading : Statics := { v with minionUartTransferMode := 0x12 }
  have listed : requestAccesses v sect =
      [sdArg 0x200] ++ sdTransactionStart silent 0x101A ++ [.waitAll (transactionMask silent)] ++
        sdTransactionFinish silent (transactionMask silent) ++
        [sdTimeout 0x1F4, sdBlksize 0x200, sdBlkcnt 1, sdArg sect] ++
        sdTransactionStart reading 0x113A := rfl
  have command : WaitsForCommand (.waitAll (transactionMask silent)) :=
    command_waits silent BitVec.zero_and
  intro access member
  rw [listed] at member
  simp only [sdTransactionStart, sdTransactionFinish, List.cons_append, List.nil_append,
    List.mem_cons, List.not_mem_nil, or_false] at member
  rcases member with rfl | rfl | rfl | rfl | rfl | rfl | rfl | rfl | rfl | rfl | rfl | rfl | rfl |
    rfl | rfl
  all_goals first | exact write_waits _ _ | exact wait_none_waits _ | exact command

theorem sector_accesses (v : Statics) (sect : BitVec 32) :
    ∃ finish : List Operation,
      accessesOf v (sectorCalls sect) =
        requestAccesses v sect ++ .waitAll 0x500 :: finish ∧
      ∀ access ∈ finish, WaitsForCommand access := by
  let reading : Statics := { v with minionUartTransferMode := 0x12 }
  have rest : (accessesOf v (sectorCalls sect)).drop 15 =
      .waitAll (transactionMask reading) ::
        sdTransactionFinish reading (transactionMask reading) := rfl
  have read : (0x12 : BitVec 32) &&& uartTrnsRead ≠ 0 := by decide
  refine ⟨sdTransactionFinish reading (transactionMask reading), ?_, ?_⟩
  · rw [read_mask reading read] at rest ⊢
    rw [← rest, requestAccesses, List.take_append_drop]
  · intro access member
    simp only [sdTransactionFinish, List.mem_cons, List.not_mem_nil, or_false] at member
    rcases member with rfl | rfl | rfl
    · exact write_waits _ _
    · exact write_waits _ _
    · exact wait_none_waits _

/-- A read command that is never answered is polled for ever. -/
theorem sector_unanswered (v : Statics) (sect : BitVec 32) (d : SdSystem)
    (silent : d.upcoming 0 = none) :
    performAll sdPort (accessesOf v (sectorCalls sect)) d = none := by
  obtain ⟨finish, accesses, _⟩ := sector_accesses v sect
  have poll : ∀ regs, sdPort.perform (.waitAll 0x500) { d with regs := regs } = none := by
    intro regs
    have data : (0x500 : BitVec 32).getLsbD 10 = true := by decide
    simp only [sdPort, data, if_true, SdSystem.receive, silent]
  have request := perform_writes (requestAccesses v sect) (request_waits v sect) d
  rw [performAll] at request ⊢
  rw [accesses, List.foldlM_append, request]
  simp only [Option.bind_eq_bind, Option.bind_some, List.foldlM_cons, poll, Option.bind_none]

/-- An answered read command leaves the words of its transfer in the FIFO; the card
was asked for `sect`. -/
theorem sector_answered (v : Statics) (sect : BitVec 32) (d : SdSystem) (t : Transfer)
    (answer : d.upcoming 0 = some t) :
    ∃ regs, performAll sdPort (accessesOf v (sectorCalls sect)) d =
      some
        { regs := regs
          rxFifo := { d.rxFifo with contents := d.rxFifo.contents ++ t.words }
          upcoming := fun n => d.upcoming (n + 1)
          answered := d.answered ++ [(sect, t)] } := by
  obtain ⟨finish, accesses, waits⟩ := sector_accesses v sect
  have argument : (regsAfter (requestAccesses v sect) d.regs).sdCmdArg = sect := rfl
  have poll : sdPort.perform (.waitAll 0x500)
      { d with regs := regsAfter (requestAccesses v sect) d.regs } =
        some
          { regs := regsAfter (requestAccesses v sect) d.regs
            rxFifo := { d.rxFifo with contents := d.rxFifo.contents ++ t.words }
            upcoming := fun n => d.upcoming (n + 1)
            answered := d.answered ++ [(sect, t)] } := by
    have data : (0x500 : BitVec 32).getLsbD 10 = true := by decide
    simp only [sdPort, data, if_true, SdSystem.receive, answer, argument]
  have request := perform_writes (requestAccesses v sect) (request_waits v sect) d
  have rest := perform_writes finish waits
  simp only [performAll] at request rest ⊢
  rw [accesses, List.foldlM_append, request]
  simp only [Option.bind_eq_bind, Option.bind_some, List.foldlM_cons, poll]
  exact ⟨_, rest _⟩

/-- The drain loop changes the FIFO only. -/
theorem drain_loop_keeps {Value : Type} (part : SdSystem → Value)
    (kept : ∀ d, part (sdPort.storeRxFifo d) = part d) (iobuflen : BitVec 32) (fuel : Nat)
    (s last : Drain SdSystem) (ends : drainLoop sdPort iobuflen fuel s = some last) :
    part last.device = part s.device := by
  induction fuel generalizing s with
  | zero => exact absurd ends (by simp [drainLoop])
  | succ fuel ih =>
      unfold drainLoop at ends
      split_ifs at ends
      · rw [ih _ ends, drainWord]
        split_ifs
        · exact kept s.device
        · exact kept s.device
      · rw [← Option.some.inj ends]

/-- More rounds than there will be words to drain. -/
def rounds (m : Machine SdSystem) : Nat :=
  match m.device.upcoming 0 with
  | none => 1
  | some t => m.device.rxFifo.contents.length + t.words.length + 1

/-- `sd_read_sector` as `disk_read` uses it: the number of words is not looked at. -/
def readSector (sect : BitVec 32) (buf max : Nat) (m : Option (Machine SdSystem)) :
    Option (Machine SdSystem) :=
  m.bind fun m => (sdReadSector sdPort (rounds m) sect buf max m).map Prod.snd

theorem read_sector_unanswered (sect : BitVec 32) (buf max : Nat) (m : Machine SdSystem)
    (silent : m.device.upcoming 0 = none) : readSector sect buf max (some m) = none := by
  rw [readSector, Option.bind_some, sdReadSector, sector_unanswered m.statics sect m.device silent]
  rfl

/-- A call that returns was answered, with its sector as argument. -/
theorem read_sector_returns {sect : BitVec 32} {buf max : Nat} {m last : Machine SdSystem}
    (returns : readSector sect buf max (some m) = some last) :
    ∃ t, m.device.upcoming 0 = some t ∧
      last.device.answered = m.device.answered ++ [(sect, t)] := by
  cases answer : m.device.upcoming 0 with
  | none => exact absurd (read_sector_unanswered sect buf max m answer ▸ returns) (by simp)
  | some t =>
      obtain ⟨regs, answered⟩ := sector_answered m.statics sect m.device t answer
      simp only [readSector, Option.bind_some, Option.map_eq_some_iff, Prod.exists] at returns
      obtain ⟨len, _, returns, rfl⟩ := returns
      obtain ⟨commanded, drained, finished, ends, device⟩ := sd_read_sector_returns returns
      have same := Option.some.inj (finished.symm.trans answered)
      have kept := drain_loop_keeps SdSystem.answered (fun _ => rfl) 512 (rounds m) _ drained ends
      refine ⟨t, rfl, ?_⟩
      rw [device, kept, same]

/-- An answered read command fills the buffer with the words that were left in the FIFO
and those that came. -/
theorem read_sector_answered (sect : BitVec 32) (buf max : Nat) (m : Machine SdSystem)
    (t : Transfer) (answer : m.device.upcoming 0 = some t) :
    ∃ last, readSector sect buf max (some m) = some last ∧ last.device.rxFifo.contents = [] ∧
      ∀ offset, offset < 4 * (m.device.rxFifo.contents ++ t.words).length → offset < 2048 →
        last.memory (buf + offset) = fifoByte (m.device.rxFifo.contents ++ t.words) offset := by
  obtain ⟨regs, answered⟩ := sector_answered m.statics sect m.device t answer
  have enough : (m.device.rxFifo.contents ++ t.words).length < rounds m := by
    simp [rounds, answer]
  obtain ⟨len, last, result, total, empty, stored, kept⟩ :=
    sd_read_sector_stores sd_port_serves (rounds m) sect buf max m _ answered enough
  refine ⟨last, ?_, empty, ?_⟩
  · rw [readSector, Option.bind_some, result]
    rfl
  · intro offset inside room
    have listed : offset / 4 < (m.device.rxFifo.contents ++ t.words).length := by omega
    have word : (m.device.rxFifo.contents ++ t.words)[offset / 4]? =
        some ((m.device.rxFifo.contents ++ t.words).getD (offset / 4) 0) := by
      rw [List.getD_eq_getElem _ _ listed, List.getElem?_eq_getElem listed]
    have byte := stored _ _ word (by omega) (offset % 4) (Nat.mod_lt _ (by decide))
    rw [Nat.div_add_mod, to_cpu_byte _ _ (Nat.mod_lt _ (by decide))] at byte
    exact byte

section Request

variable (disk : Disk) (pdrv : BitVec 8) (buff : Nat) (sector count : BitVec 32)

def sectorAddress (sector : BitVec 32) : BitVec 32 :=
  if disk.cardType &&& ctBlock = 0 then sector * 512 else sector

def Accepted : Prop := pdrv = 0 ∧ count ≠ 0 ∧ disk.stat &&& staNoinit = 0

def answersSince (m last : Machine SdSystem) : List (BitVec 32 × Transfer) :=
  last.device.answered.drop m.device.answered.length

/-- Every requested sector was asked for and answered with a complete block, and its
slice of the buffer holds this block. -/
def Received (m last : Machine SdSystem) : Prop :=
  ∀ k, k < count.toNat → ∃ t,
    (sectorAddress disk (sector + BitVec.ofNat 32 k), t) ∈ answersSince m last ∧ Complete t ∧
      ∀ offset, offset < 512 → last.memory (buff + 512 * k + offset) = receivedByte t offset

/-- The result of `disk_read` and the machine it leaves, if it returns. -/
def outcome (m : Machine SdSystem) : Option (DResult × Machine SdSystem) :=
  let read := diskRead readSector disk pdrv buff sector count (some m)
  read.2.map fun last => (read.1, last)

/-- `RES_OK` means that all sectors were received; an accepted request that was not
answered completely ends with `RES_ERROR`. -/
def ReportsMissing (m : Machine SdSystem) : Prop :=
  (∀ last, outcome disk pdrv buff sector count m = some (.resOk, last) →
      Received disk buff sector count m last) ∧
    (Accepted disk pdrv count →
      (∃ last, outcome disk pdrv buff sector count m = some (.resOk, last) ∧
        Received disk buff sector count m last) ∨
      ∃ last, outcome disk pdrv buff sector count m = some (.resError, last))

/-- The card answers with a complete block, and what the receive FIFO holds before it does not
shift it: the words left over and the block begin with the block. -/
def AnswersWhole (m : Machine SdSystem) : Prop :=
  ∃ t, m.device.upcoming 0 = some t ∧ Complete t ∧
    (m.device.rxFifo.contents ++ t.words).take 128 = t.words

/-- Behind what the FIFO held, a complete block is stored as it is if nothing shifts it. -/
theorem complete_bytes_iff (leftover : List (BitVec 32)) {t : Transfer} (complete : Complete t) :
    (∀ offset, offset < 512 → fifoByte (leftover ++ t.words) offset = receivedByte t offset) ↔
      (leftover ++ t.words).take 128 = t.words := by
  have room : 128 ≤ (leftover ++ t.words).length := by
    rw [List.length_append, complete.1]
    omega
  have whole : t.words.take 128 = t.words := List.take_of_length_le (Nat.le_of_eq complete.1)
  have bytes := fifo_bytes_eq_iff _ t.words 128 room (Nat.le_of_eq complete.1.symm)
  rw [whole] at bytes
  exact bytes

theorem read_loop_lost (sector : BitVec 32) (count buff : Nat) :
    (readLoop readSector sector count buff none).1 = none := by
  induction count generalizing buff with
  | zero => rfl
  | succ count ih => exact ih (buff + 512)

/-- The loop asks for one sector only. -/
theorem read_loop_asks (sector : BitVec 32) (count buff : Nat) (m last : Machine SdSystem)
    (returns : (readLoop readSector sector count buff (some m)).1 = some last) :
    ∃ asked, last.device.answered = m.device.answered ++ asked ∧
      ∀ entry ∈ asked, entry.1 = sector := by
  induction count generalizing buff m with
  | zero =>
      rw [← Option.some.inj returns]
      exact ⟨[], (List.append_nil _).symm, fun entry member => absurd member List.not_mem_nil⟩
  | succ count ih =>
      rw [readLoop] at returns
      cases first : readSector sector buff 512 (some m) with
      | none =>
          rw [first, read_loop_lost] at returns
          exact absurd returns (by simp)
      | some next =>
          rw [first] at returns
          obtain ⟨t, _, answered⟩ := read_sector_returns first
          obtain ⟨asked, later, same⟩ := ih (buff + 512) next returns
          refine ⟨(sector, t) :: asked, ?_, ?_⟩
          · rw [later, answered, List.append_assoc]
            rfl
          · intro entry member
            rcases List.mem_cons.mp member with now | rest
            · rw [now]
            · exact same entry rest

variable {disk pdrv buff sector count}

theorem outcome_accepted (accepted : Accepted disk pdrv count) (m : Machine SdSystem) :
    outcome disk pdrv buff sector count m =
      (readLoop readSector (sectorAddress disk sector) count.toNat buff (some m)).1.map
        fun last => (.resOk, last) := by
  rcases accepted with ⟨driver, nonempty, ready⟩
  have parameters : ¬(pdrv ≠ 0 ∨ count = 0) := by
    rintro (other | empty)
    · exact other driver
    · exact nonempty empty
  have initialised : ¬disk.stat &&& staNoinit ≠ 0 := fun noinit => noinit ready
  simp only [outcome, diskRead, if_neg parameters, if_neg initialised, read_loop_ends, sdDeselect]
  rfl

theorem outcome_refused (refused : ¬Accepted disk pdrv count) (m last : Machine SdSystem) :
    outcome disk pdrv buff sector count m ≠ some (.resOk, last) := by
  intro returns
  by_cases parameters : pdrv ≠ 0 ∨ count = 0
  · simp only [outcome, diskRead, if_pos parameters] at returns
    exact DResult.noConfusion (Prod.mk.inj (Option.some.inj returns)).1
  · by_cases noinit : disk.stat &&& staNoinit ≠ 0
    · simp only [outcome, diskRead, if_neg parameters, if_pos noinit] at returns
      exact DResult.noConfusion (Prod.mk.inj (Option.some.inj returns)).1
    · rw [not_or, not_not] at parameters
      exact refused ⟨parameters.1, parameters.2, not_not.mp noinit⟩

theorem next_sector_address : sectorAddress disk (sector + 1) ≠ sectorAddress disk sector := by
  unfold sectorAddress
  split_ifs
  · rw [BitVec.add_mul]
    intro same
    exact absurd (BitVec.add_right_eq_self.mp same) (by decide)
  · intro same
    exact absurd (BitVec.add_right_eq_self.mp same) (by decide)

/-- A first block that nothing shifts is stored and reported. -/
theorem one_sector_received (buff : Nat) (accepted : Accepted disk pdrv count) (one : count = 1)
    (m : Machine SdSystem) (whole : AnswersWhole m) :
    ∃ last, outcome disk pdrv buff sector count m = some (.resOk, last) ∧
      Received disk buff sector count m last := by
  obtain ⟨t, answer, complete, unshifted⟩ := whole
  obtain ⟨last, returns, _, stored⟩ :=
    read_sector_answered (sectorAddress disk sector) buff 512 m t answer
  obtain ⟨same, known, answered⟩ := read_sector_returns returns
  have transfer : same = t := Option.some.inj (known.symm.trans answer)
  have loop : (readLoop readSector (sectorAddress disk sector) count.toNat buff
      (some m)).1 = some last := by
    rw [one]
    exact returns
  have length := complete.1
  rw [List.length_append, length] at stored
  have bytes := (complete_bytes_iff m.device.rxFifo.contents complete).mpr unshifted
  refine ⟨last, ?_, ?_⟩
  · rw [outcome_accepted accepted, loop]
    rfl
  · intro k inside
    have first : k = 0 := by
      rw [one] at inside
      exact Nat.lt_one_iff.mp inside
    rw [first]
    refine ⟨t, ?_, complete, ?_⟩
    · have offset : sector + BitVec.ofNat 32 0 = sector := BitVec.add_zero sector
      rw [answersSince, answered, transfer, offset, List.drop_left]
      exact List.mem_singleton_self _
    · intro offset byte
      exact (stored offset (by omega) (by omega)).trans (bytes offset (by omega))

/-- Success is reported for what was asked for at most once: one sector. -/
theorem received_one (accepted : Accepted disk pdrv count) (m last : Machine SdSystem)
    (returns : outcome disk pdrv buff sector count m = some (.resOk, last))
    (received : Received disk buff sector count m last) : count = 1 ∧ AnswersWhole m := by
  have asked : 0 < count.toNat := BitVec.toNat_pos_of_ne_zero accepted.2.1
  rw [outcome_accepted accepted, Option.map_eq_some_iff] at returns
  obtain ⟨_, loop, same⟩ := returns
  cases same
  obtain ⟨entries, answered, addresses⟩ := read_loop_asks _ _ _ _ _ loop
  have one : count.toNat = 1 := by
    by_contra several
    obtain ⟨t, member, _⟩ := received 1 (by omega)
    rw [answersSince, answered, List.drop_left] at member
    exact next_sector_address (addresses _ member)
  refine ⟨BitVec.eq_of_toNat_eq one, ?_⟩
  rw [one] at loop
  obtain ⟨t, answer, logged⟩ := read_sector_returns loop
  obtain ⟨block, member, complete, bytes⟩ := received 0 asked
  rw [answersSince, logged, List.drop_left] at member
  have block_is : block = t := (Prod.mk.inj (List.mem_singleton.mp member)).2
  rw [block_is] at complete bytes
  obtain ⟨other, again, _, stored⟩ :=
    read_sector_answered (sectorAddress disk sector) buff 512 m t answer
  have final : other = last := Option.some.inj (again.symm.trans loop)
  rw [final] at stored
  have length := complete.1
  rw [List.length_append, length] at stored
  have unshifted := (complete_bytes_iff m.device.rxFifo.contents complete).mp
    fun offset inside => (stored offset (by omega) (by omega)).symm.trans (bytes offset inside)
  exact ⟨t, answer, complete, unshifted⟩

/-- `disk_read` reports missing data if and only if there is none: of an accepted
request one sector at most, answered with a complete block that nothing in the receive FIFO
shifts. -/
theorem disk_read_reports_iff (disk : Disk) (pdrv : BitVec 8) (buff : Nat)
    (sector count : BitVec 32) (m : Machine SdSystem) :
    ReportsMissing disk pdrv buff sector count m ↔
      (Accepted disk pdrv count → count = 1 ∧ AnswersWhole m) := by
  constructor
  · intro reports accepted
    rcases reports.2 accepted with ⟨last, returns, received⟩ | ⟨last, failed⟩
    · exact received_one accepted m last returns received
    · rw [outcome_accepted accepted, Option.map_eq_some_iff] at failed
      obtain ⟨_, _, same⟩ := failed
      exact DResult.noConfusion (Prod.mk.inj same).1
  · intro answered
    by_cases accepted : Accepted disk pdrv count
    · obtain ⟨one, whole⟩ := answered accepted
      obtain ⟨last, returns, received⟩ := one_sector_received buff accepted one m whole
      refine ⟨?_, fun _ => Or.inl ⟨last, returns, received⟩⟩
      intro other same
      have machine := (Prod.mk.inj (Option.some.inj (returns.symm.trans same))).2
      rw [← machine]
      exact received
    · refine ⟨?_, fun accepts => absurd accepts accepted⟩
      intro last returns
      exact absurd returns (outcome_refused accepted m last)

end Request

private def mountedCard : Disk where
  stat := 0
  cardType := 0x0C

private def timedOutTransfer : Transfer where
  start := SdDataSerialHost.afterReset
  inputs := fun _ =>
    { rst := false
      dataIn := 0
      datDatI := 0xF
      blksize := 512
      bus4bit := true
      start := 2
      timeoutI := 14 }
  clocks := 40

private def silentMachine (upcoming : Nat → Option Transfer) : Machine SdSystem where
  device :=
    { regs := SdController.powerUp.regs
      rxFifo := { contents := [], out := 0 }
      upcoming := upcoming
      answered := [] }
  statics := { minionUartHostControl := 2, minionUartTransferMode := 0 }
  iobuf := fun _ => 0
  memory := fun _ => 0

/-- The card answers the command and never sends a block: `disk_read` returns `RES_OK`. -/
theorem data_timeout_reported_ok :
    (∃ last, outcome mountedCard 0 0x2000 7 1
        (silentMachine fun _ => some timedOutTransfer) = some (.resOk, last)) ∧
      timedOutTransfer.final.state = .finish ∧ timedOutTransfer.words = [] ∧
      ¬ReportsMissing mountedCard 0 0x2000 7 1
        (silentMachine fun _ => some timedOutTransfer) := by
  have accepted : Accepted mountedCard 0 1 := by
    refine ⟨rfl, ?_, ?_⟩ <;> decide
  have empty : timedOutTransfer.words = [] := by decide +kernel
  obtain ⟨last, returns, _⟩ := read_sector_answered (sectorAddress mountedCard 7) 0x2000 512
    (silentMachine fun _ => some timedOutTransfer) timedOutTransfer rfl
  have ok : outcome mountedCard 0 0x2000 7 1
      (silentMachine fun _ => some timedOutTransfer) = some (.resOk, last) := by
    rw [outcome_accepted accepted]
    exact congrArg (Option.map fun last => (DResult.resOk, last)) returns
  refine ⟨⟨last, ok⟩, by decide +kernel, empty, ?_⟩
  intro reports
  obtain ⟨_, t, answer, complete, _⟩ := received_one accepted _ last ok (reports.1 last ok)
  cases answer
  exact absurd (complete.1.symm.trans (congrArg List.length empty)) (by decide)

end MinionSubsystem.DiskErrors
