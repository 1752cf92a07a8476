import MinionSubsystem.Edcl
import Mathlib.Data.List.GetD

/-!
# Transfers over a link that loses nothing

Every request is answered at once, by the board of the debug link. A transfer is cut
into chunks. The first request of a client with another number than the board's is
refused, and from then on both count together, modulo the board's 14 bits.
-/

namespace MinionSubsystem.EdclTransfer

open MinionSubsystem.ByteMemory
open MinionSubsystem.Edcl

set_option autoImplicit false

section Rounds

variable {State : Type}

/-- Rounds while there is more to do. The flag is down where a round broke off. -/
def rounds (more : State → Bool) (round : State → State × Bool) :
    Nat → State → Option (State × Bool)
  | 0, _ => none
  | fuel + 1, state =>
      if more state then
        match round state with
        | (next, true) => rounds more round fuel next
        | (next, false) => some (next, false)
      else some (state, true)

variable (more : State → Bool) (round : State → State × Bool)

theorem rounds_next (state next : State) (pending : more state)
    (goes_on : round state = (next, true)) (fuel : Nat) :
    rounds more round (fuel + 1) state = rounds more round fuel next := by
  simp only [rounds, pending, if_true, goes_on]

/-- Rounds that each make progress are as many as the progress that is missing. -/
theorem rounds_complete (progress : Nat → State → Prop) (last : Nat)
    (step : ∀ count state, count < last → progress count state →
      more state ∧ ∃ next, round state = (next, true) ∧ progress (count + 1) next)
    (stop : ∀ state, progress last state → more state = false) (missing count : Nat)
    (total : count + missing = last) (state : State) (reached : progress count state) :
    ∃ final, progress last final ∧
      ∀ fuel, missing < fuel → rounds more round fuel state = some (final, true) := by
  induction missing generalizing count state with
  | zero =>
      have finished : progress last state := by
        rw [← total]
        exact reached
      refine ⟨state, finished, fun fuel enough => ?_⟩
      obtain ⟨rest, rfl⟩ := Nat.exists_eq_add_of_lt enough
      rw [rounds, stop state finished, if_neg Bool.false_ne_true]
  | succ missing ih =>
      obtain ⟨pending, next, goes_on, advanced⟩ := step count state (by omega) reached
      obtain ⟨final, finished, returned⟩ := ih (count + 1) (by omega) next advanced
      refine ⟨final, finished, fun fuel enough => ?_⟩
      obtain ⟨rest, rfl⟩ := Nat.exists_eq_add_of_lt enough
      rw [rounds_next more round state next pending goes_on]
      exact returned _ (by omega)

/-- As before, where the first round may be needed to get to the start. -/
theorem rounds_complete_from (progress : Nat → State → Prop) (last : Nat)
    (step : ∀ count state, count < last → progress count state →
      more state ∧ ∃ next, round state = (next, true) ∧ progress (count + 1) next)
    (stop : ∀ state, progress last state → more state = false) (start : State)
    (first : progress 0 start ∨
      ∃ next, more start ∧ round start = (next, true) ∧ progress 0 next) :
    ∃ final, progress last final ∧
      ∀ fuel, last + 1 < fuel → rounds more round fuel start = some (final, true) := by
  have run := rounds_complete more round progress last step stop last 0 (Nat.zero_add last)
  rcases first with ready | ⟨next, pending, goes_on, ready⟩
  · obtain ⟨final, finished, returned⟩ := run start ready
    exact ⟨final, finished, fun fuel enough => returned fuel (by omega)⟩
  · obtain ⟨final, finished, returned⟩ := run next ready
    refine ⟨final, finished, fun fuel enough => ?_⟩
    obtain ⟨rest, rfl⟩ := Nat.exists_eq_add_of_lt enough
    rw [rounds_next more round start next pending goes_on]
    exact returned _ (by omega)

end Rounds

structure Talk (Call : Type) where
  call : Call
  board : Board
  answered : Nat

variable (fills : Nat → Fill) (addr : BitVec 64) (bytes : Nat)

def readRound (talk : Talk Reading) : Talk Reading × Bool :=
  let (board, response) :=
    talk.board.answer (fills talk.answered) (readRequest addr bytes talk.call)
  match readReceived talk.call (.datagram response) with
  | (client, none) =>
      ({ call := { talk.call with client := client }, board := board,
         answered := talk.answered + 1 }, false)
  | (_, some reading) =>
      ({ call := reading, board := board, answered := talk.answered + 1 }, true)

def read (obuf : Nat → BitVec 8) (client : Client) (board : Board) (fuel : Nat) :
    Option (Int × Talk Reading) :=
  let start : Talk Reading :=
    { call := { client := client, rdBytes := 0, obuf := obuf }, board := board, answered := 0 }
  (rounds (fun talk => talk.call.rdBytes < bytes) (readRound fills addr bytes) fuel start).map
    fun (talk, complete) => (if complete then talk.call.rdBytes else -1, talk)

def writeRound (ibuf : Nat → BitVec 8) (talk : Talk Writing) : Talk Writing × Bool :=
  let (board, response) :=
    talk.board.answer (fills talk.answered) (writeRequest addr bytes ibuf talk.call)
  match writeReceived bytes talk.call (.datagram response) with
  | (client, none) =>
      ({ call := { talk.call with client := client }, board := board,
         answered := talk.answered + 1 }, false)
  | (_, some writing) =>
      ({ call := writing, board := board, answered := talk.answered + 1 }, true)

def write (ibuf : Nat → BitVec 8) (client : Client) (board : Board) (fuel : Nat) :
    Option (Int × Talk Writing) :=
  let start : Talk Writing :=
    { call := { client := client, wrBytes := 0 }, board := board, answered := 0 }
  (rounds (fun talk => talk.call.wrBytes < bytes) (writeRound fills addr bytes ibuf) fuel
    start).map fun (talk, complete) => (if complete then talk.call.wrBytes else -1, talk)

def chunkCount : Nat := (bytes + 31) / 32

/-- The bytes of a chunk: 32, in the last one what is left. -/
def chunkSize (chunk : Nat) : Nat := min 32 (bytes - 32 * chunk)

def target (offset : Nat) : BitVec 32 := addr.setWidth 32 + BitVec.ofNat 32 offset

def writeChunk (ibuf : Nat → BitVec 8) (chunk : Nat) : Executed where
  write := true
  address := target addr (32 * chunk)
  data := (List.range (chunkSize bytes chunk)).map fun place => ibuf (32 * chunk + place)

def readChunk (memory : BitVec 32 → BitVec 8) (chunk : Nat) : Executed where
  write := false
  address := target addr (32 * chunk)
  data := (List.range (chunkSize bytes chunk)).map fun place =>
    memory (target addr (32 * chunk + place))

def seqOf (client : Client) : BitVec 14 := (client.seqCnt.setWidth 32).setWidth 14

theorem seq_of_refused (counter : BitVec 14) (rxBuf : Nat → BitVec 8) :
    seqOf { seqCnt := counter.setWidth 64, rxBuf := rxBuf } = counter := by
  apply BitVec.eq_of_toNat_eq
  have small := counter.isLt
  simp only [seqOf, BitVec.toNat_setWidth]
  omega

/-- The number wraps where the board's counter does. -/
theorem seq_of_next (client : Client) (rxBuf : Nat → BitVec 8) :
    seqOf { seqCnt := client.seqCnt + 1, rxBuf := rxBuf } = seqOf client + 1 := by
  have wide : (1 : BitVec 64).toNat = 1 := rfl
  have narrow : (1 : BitVec 14).toNat = 1 := rfl
  apply BitVec.eq_of_toNat_eq
  simp only [seqOf, BitVec.toNat_setWidth, BitVec.toNat_add, wide, narrow]
  omega

theorem chunk_len_value (doneBytes : Nat) :
    (chunkLen bytes doneBytes).toNat = min 32 (bytes - doneBytes) := by
  have most : payloadMaxBytes = 32 := rfl
  rw [chunkLen, most]
  split_ifs with long
  · rw [BitVec.toNat_ofNat]
    omega
  · rw [BitVec.toNat_ofNat]
    omega

theorem target_add (offset place : Nat) :
    target addr (offset + place) = target addr offset + BitVec.ofNat 32 place := by
  rw [target, target, BitVec.ofNat_add, BitVec.add_assoc]

theorem request_target (offset : Nat) :
    (addr + BitVec.ofNat 64 offset).setWidth 32 = target addr offset := by
  apply BitVec.eq_of_toNat_eq
  simp only [target, BitVec.toNat_setWidth, BitVec.toNat_add, BitVec.toNat_ofNat]
  omega

theorem target_distance (place offset : Nat) (small : place + offset < 2 ^ 32) :
    (target addr (offset + place) - target addr offset).toNat = place := by
  rw [target_add, BitVec.add_comm, BitVec.add_sub_cancel, BitVec.toNat_ofNat]
  omega

/-- The bytes of a buffer, sent as a list. -/
theorem buffer_byte (count : Nat) (buffer : Nat → BitVec 8) (index : Nat)
    (inside : index < count) : ((List.range count).map buffer).getD index 0 = buffer index := by
  rw [List.getD_eq_getElem _ _ (by simpa using inside), List.getElem_map, List.getElem_range]

theorem board_read_byte (memory : BitVec 32 → BitVec 8) (offset len place : Nat)
    (inside : place < len) :
    bytesOf (boardRead memory (target addr offset) len) place =
      memory (target addr (offset + place)) := by
  rw [bytesOf, boardRead, buffer_byte _ _ _ inside, target_add]

theorem board_read_chunk (memory : BitVec 32 → BitVec 8) (chunk : Nat) :
    boardRead memory (target addr (32 * chunk)) (chunkSize bytes chunk) =
      (readChunk addr bytes memory chunk).data := by
  simp only [boardRead, readChunk, target_add]

/-- Two writes of neighbouring chunks are one. -/
theorem board_write_joined (memory : BitVec 32 → BitVec 8) (ibuf : Nat → BitVec 8)
    (first next : Nat) (short : first + next ≤ 2 ^ 32) :
    boardWrite (boardWrite memory (target addr 0) ((List.range first).map ibuf))
        (target addr first) ((List.range next).map fun place => ibuf (first + place)) =
      boardWrite memory (target addr 0) ((List.range (first + next)).map ibuf) := by
  funext place
  have distance : (place - target addr first).toNat =
      (2 ^ 32 - first % 2 ^ 32 + (place - target addr 0).toNat) % 2 ^ 32 := by
    have moved : target addr first = target addr 0 + BitVec.ofNat 32 first := by
      rw [← target_add, Nat.zero_add]
    rw [moved, ← BitVec.sub_sub, BitVec.toNat_sub, BitVec.toNat_ofNat]
  have bound := (place - target addr 0).isLt
  simp only [boardWrite, List.length_map, List.length_range]
  by_cases early : (place - target addr 0).toNat < first
  · rw [if_neg (by omega), if_pos early, if_pos (by omega), buffer_byte _ _ _ early,
      buffer_byte _ _ _ (by omega)]
  · by_cases late : (place - target addr 0).toNat < first + next
    · have offset : (place - target addr first).toNat =
          (place - target addr 0).toNat - first := by omega
      rw [offset, if_pos (by omega), if_pos late, buffer_byte _ _ _ (by omega),
        buffer_byte _ _ _ late,
        Nat.add_sub_cancel' (by omega)]
    · rw [if_neg (by omega), if_neg early, if_neg late]

theorem read_request_packet (reading : Reading) :
    readRequest addr bytes reading =
      packet 0
        { unused := 0, len := chunkLen bytes reading.rdBytes, flag := 0,
          seqidx := seqOf reading.client }
        (target addr reading.rdBytes) [] := by
  rw [← request_target]
  rfl

/-- Where the numbers agree the board executes the chunk and both count. -/
theorem read_round_executed (talk : Talk Reading)
    (current : seqOf talk.call.client = talk.board.counter) :
    ∃ rxBuf, readRound fills addr bytes talk =
      ({ call :=
          { client := { seqCnt := talk.call.client.seqCnt + 1, rxBuf := rxBuf }
            rdBytes := talk.call.rdBytes + (chunkLen bytes talk.call.rdBytes).toNat
            obuf := storeBytes talk.call.rdBytes (chunkLen bytes talk.call.rdBytes).toNat
              (fun place => talk.board.memory (target addr (talk.call.rdBytes + place)))
              talk.call.obuf }
         board :=
          { talk.board with
            counter := talk.board.counter + 1
            executed := talk.board.executed ++ [{
              write := false
              address := target addr talk.call.rdBytes
              data := boardRead talk.board.memory (target addr talk.call.rdBytes)
                (chunkLen bytes talk.call.rdBytes).toNat }] }
         answered := talk.answered + 1 }, true) := by
  have length : ∀ len, (boardRead talk.board.memory (target addr talk.call.rdBytes) len).length =
      len := by simp [boardRead]
  have answer := answer_read 0
    { unused := 0, len := chunkLen bytes talk.call.rdBytes, flag := 0,
      seqidx := seqOf talk.call.client }
    (target addr talk.call.rdBytes) [] (fills talk.answered) talk.board current rfl
  obtain ⟨rxBuf, received⟩ := read_received_ack (fills talk.answered).offset
    { unused := (fills talk.answered).unused, len := chunkLen bytes talk.call.rdBytes, flag := 0,
      seqidx := (fills talk.answered).ackSeq }
    (fills talk.answered).address
    (boardRead talk.board.memory (target addr talk.call.rdBytes)
      (chunkLen bytes talk.call.rdBytes).toNat) talk.call rfl (length _)
  have stored := store_bytes_congr talk.call.obuf talk.call.rdBytes
    (chunkLen bytes talk.call.rdBytes).toNat _ _
    (board_read_byte addr talk.board.memory talk.call.rdBytes
      (chunkLen bytes talk.call.rdBytes).toNat)
  refine ⟨rxBuf, ?_⟩
  simp only [readRound, read_request_packet, answer, received, length, stored]

theorem read_round_refused (talk : Talk Reading)
    (other : seqOf talk.call.client ≠ talk.board.counter) :
    ∃ rxBuf, readRound fills addr bytes talk =
      ({ talk with
         call := { talk.call with
           client := { seqCnt := talk.board.counter.setWidth 64, rxBuf := rxBuf } }
         answered := talk.answered + 1 }, true) := by
  have answer := answer_refused 0
    { unused := 0, len := chunkLen bytes talk.call.rdBytes, flag := 0,
      seqidx := seqOf talk.call.client }
    (target addr talk.call.rdBytes) [] (fills talk.answered) talk.board other
  obtain ⟨rxBuf, received⟩ := read_received_nak (fills talk.answered).offset
    { unused := (fills talk.answered).unused, len := (fills talk.answered).nakLen, flag := 1,
      seqidx := talk.board.counter }
    (fills talk.answered).address [] talk.call (by decide) rfl
  refine ⟨rxBuf, ?_⟩
  simp only [readRound, read_request_packet, answer, received]

structure ReadProgress (board : Board) (obuf : Nat → BitVec 8) (count : Nat)
    (talk : Talk Reading) : Prop where
  rdBytes : talk.call.rdBytes = min (32 * count) bytes
  current : count < chunkCount bytes → seqOf talk.call.client = talk.board.counter
  memory : talk.board.memory = board.memory
  executed : talk.board.executed =
    board.executed ++ (List.range count).map (readChunk addr bytes board.memory)
  stored : ∀ place, talk.call.obuf place =
    if place < min (32 * count) bytes then board.memory (target addr place) else obuf place

theorem read_progress_step (board : Board) (obuf : Nat → BitVec 8) (count : Nat)
    (talk : Talk Reading) (left : count < chunkCount bytes)
    (progress : ReadProgress addr bytes board obuf count talk) :
    decide (talk.call.rdBytes < bytes) ∧
      ∃ next, readRound fills addr bytes talk = (next, true) ∧
        ReadProgress addr bytes board obuf (count + 1) next := by
  have before : 32 * count < bytes := by
    rw [chunkCount] at left
    omega
  have here : talk.call.rdBytes = 32 * count := by
    rw [progress.rdBytes, Nat.min_eq_left (Nat.le_of_lt before)]
  have length : (chunkLen bytes talk.call.rdBytes).toNat = chunkSize bytes count := by
    rw [chunk_len_value, here, chunkSize]
  have current := progress.current left
  obtain ⟨rxBuf, round⟩ := read_round_executed fills addr bytes talk current
  rw [length, here] at round
  have size : chunkSize bytes count = min 32 (bytes - 32 * count) := rfl
  refine ⟨decide_eq_true (by omega), _, round, ?_⟩
  constructor
  · dsimp only
    omega
  · exact fun _ => (seq_of_next talk.call.client rxBuf).trans (congrArg (· + 1) current)
  · exact progress.memory
  · dsimp only
    rw [progress.executed, progress.memory, List.range_succ, List.map_append, List.append_assoc,
      board_read_chunk]
    rfl
  · intro place
    dsimp only [storeBytes]
    rw [progress.memory]
    by_cases chunk : 32 * count ≤ place ∧ place < 32 * count + chunkSize bytes count
    · rw [if_pos chunk, if_pos (by omega), Nat.add_sub_cancel' chunk.1]
    · rw [if_neg chunk, progress.stored]
      by_cases read : place < min (32 * count) bytes
      · rw [if_pos read, if_pos (by omega)]
      · rw [if_neg read, if_neg (by omega)]

theorem read_progress_start (board : Board) (obuf : Nat → BitVec 8) (talk : Talk Reading)
    (untouched : talk.board = board) (started : talk.call.rdBytes = 0)
    (buffer : talk.call.obuf = obuf)
    (current : 0 < chunkCount bytes → seqOf talk.call.client = talk.board.counter) :
    ReadProgress addr bytes board obuf 0 talk := by
  subst untouched
  have none : ∀ place, ¬place < min (32 * 0) bytes := by omega
  refine ⟨by omega, current, rfl, (List.append_nil _).symm, fun place => ?_⟩
  rw [if_neg (none place), buffer]

/-- The first request is for the first chunk, or is refused and tells the board's number. -/
theorem read_starts (obuf : Nat → BitVec 8) (talk : Talk Reading)
    (started : talk.call.rdBytes = 0) (buffer : talk.call.obuf = obuf) :
    ReadProgress addr bytes talk.board obuf 0 talk ∨
      ∃ next, decide (talk.call.rdBytes < bytes) ∧ readRound fills addr bytes talk = (next, true) ∧
        ReadProgress addr bytes talk.board obuf 0 next := by
  by_cases current : 0 < chunkCount bytes → seqOf talk.call.client = talk.board.counter
  · exact .inl (read_progress_start addr bytes talk.board obuf talk rfl started buffer current)
  · right
    rw [Classical.not_imp] at current
    obtain ⟨chunks, other⟩ := current
    obtain ⟨rxBuf, refused⟩ := read_round_refused fills addr bytes talk other
    rw [chunkCount] at chunks
    exact ⟨_, decide_eq_true (by omega), refused, read_progress_start addr bytes talk.board obuf
      _ rfl started buffer fun _ => seq_of_refused talk.board.counter rxBuf⟩

theorem chunks_whole : min (32 * chunkCount bytes) bytes = bytes := by
  rw [chunkCount]
  omega

/-- A read ends, in one round more than it has chunks where the first request is refused. -/
theorem read_returns (obuf : Nat → BitVec 8) (client : Client) (board : Board) :
    ∃ final, ReadProgress addr bytes board obuf (chunkCount bytes) final ∧
      ∀ fuel, chunkCount bytes + 1 < fuel →
        read fills addr bytes obuf client board fuel = some ((bytes : Int), final) := by
  have stop : ∀ talk, ReadProgress addr bytes board obuf (chunkCount bytes) talk →
      decide (talk.call.rdBytes < bytes) = false := by
    intro talk progress
    have all := progress.rdBytes.trans (chunks_whole bytes)
    exact decide_eq_false (by omega)
  obtain ⟨final, progress, returned⟩ := rounds_complete_from _ _ _ _
    (read_progress_step fills addr bytes board obuf) stop _
    (read_starts fills addr bytes obuf
      { call := { client := client, rdBytes := 0, obuf := obuf }, board := board, answered := 0 }
      rfl rfl)
  refine ⟨final, progress, fun fuel enough => ?_⟩
  have all := progress.rdBytes.trans (chunks_whole bytes)
  rw [read]
  dsimp only
  rw [returned fuel enough]
  simp only [Option.map_some, if_true, all]

theorem write_request_packet (ibuf : Nat → BitVec 8) (writing : Writing) :
    writeRequest addr bytes ibuf writing =
      packet 0
        { unused := 0, len := chunkLen bytes writing.wrBytes, flag := 1,
          seqidx := seqOf writing.client }
        (target addr writing.wrBytes)
        ((List.range (chunkLen bytes writing.wrBytes).toNat).map fun place =>
          ibuf (writing.wrBytes + place)) := by
  rw [← request_target]
  rfl

theorem write_round_executed (ibuf : Nat → BitVec 8) (talk : Talk Writing)
    (current : seqOf talk.call.client = talk.board.counter) :
    ∃ rxBuf, writeRound fills addr bytes ibuf talk =
      ({ call :=
          { client := { seqCnt := talk.call.client.seqCnt + 1, rxBuf := rxBuf }
            wrBytes := talk.call.wrBytes + (chunkLen bytes talk.call.wrBytes).toNat }
         board :=
          { counter := talk.board.counter + 1
            memory := boardWrite talk.board.memory (target addr talk.call.wrBytes)
              ((List.range (chunkLen bytes talk.call.wrBytes).toNat).map fun place =>
                ibuf (talk.call.wrBytes + place))
            executed := talk.board.executed ++ [{
              write := true
              address := target addr talk.call.wrBytes
              data := (List.range (chunkLen bytes talk.call.wrBytes).toNat).map fun place =>
                ibuf (talk.call.wrBytes + place) }] }
         answered := talk.answered + 1 }, true) := by
  have answer := answer_write 0
    { unused := 0, len := chunkLen bytes talk.call.wrBytes, flag := 1,
      seqidx := seqOf talk.call.client }
    (target addr talk.call.wrBytes)
    ((List.range (chunkLen bytes talk.call.wrBytes).toNat).map fun place =>
      ibuf (talk.call.wrBytes + place))
    (fills talk.answered) talk.board current rfl (by simp)
  obtain ⟨rxBuf, received⟩ := write_received_ack (fills talk.answered).offset
    { unused := (fills talk.answered).unused, len := chunkLen bytes talk.call.wrBytes, flag := 0,
      seqidx := (fills talk.answered).ackSeq }
    (fills talk.answered).address [] bytes talk.call (by decide) rfl
  refine ⟨rxBuf, ?_⟩
  simp only [writeRound, write_request_packet, answer, received]

theorem write_round_refused (ibuf : Nat → BitVec 8) (talk : Talk Writing)
    (other : seqOf talk.call.client ≠ talk.board.counter) :
    ∃ rxBuf, writeRound fills addr bytes ibuf talk =
      ({ talk with
         call := { talk.call with
           client := { seqCnt := talk.board.counter.setWidth 64, rxBuf := rxBuf } }
         answered := talk.answered + 1 }, true) := by
  have answer := answer_refused 0
    { unused := 0, len := chunkLen bytes talk.call.wrBytes, flag := 1,
      seqidx := seqOf talk.call.client }
    (target addr talk.call.wrBytes)
    ((List.range (chunkLen bytes talk.call.wrBytes).toNat).map fun place =>
      ibuf (talk.call.wrBytes + place))
    (fills talk.answered) talk.board other
  obtain ⟨rxBuf, received⟩ := write_received_nak (fills talk.answered).offset
    { unused := (fills talk.answered).unused, len := (fills talk.answered).nakLen, flag := 1,
      seqidx := talk.board.counter }
    (fills talk.answered).address [] bytes talk.call (by decide) rfl
  refine ⟨rxBuf, ?_⟩
  simp only [writeRound, write_request_packet, answer, received]

structure WriteProgress (board : Board) (ibuf : Nat → BitVec 8) (count : Nat)
    (talk : Talk Writing) : Prop where
  wrBytes : talk.call.wrBytes = min (32 * count) bytes
  current : count < chunkCount bytes → seqOf talk.call.client = talk.board.counter
  memory : talk.board.memory =
    boardWrite board.memory (target addr 0) ((List.range (min (32 * count) bytes)).map ibuf)
  executed : talk.board.executed =
    board.executed ++ (List.range count).map (writeChunk addr bytes ibuf)

theorem write_progress_step (short : bytes < 2 ^ 31) (board : Board) (ibuf : Nat → BitVec 8)
    (count : Nat) (talk : Talk Writing) (left : count < chunkCount bytes)
    (progress : WriteProgress addr bytes board ibuf count talk) :
    decide (talk.call.wrBytes < bytes) ∧
      ∃ next, writeRound fills addr bytes ibuf talk = (next, true) ∧
        WriteProgress addr bytes board ibuf (count + 1) next := by
  have before : 32 * count < bytes := by
    rw [chunkCount] at left
    omega
  have offset : min (32 * count) bytes = 32 * count := Nat.min_eq_left (Nat.le_of_lt before)
  have here : talk.call.wrBytes = 32 * count := progress.wrBytes.trans offset
  have length : (chunkLen bytes talk.call.wrBytes).toNat = chunkSize bytes count := by
    rw [chunk_len_value, here, chunkSize]
  have current := progress.current left
  obtain ⟨rxBuf, round⟩ := write_round_executed fills addr bytes ibuf talk current
  rw [length, here] at round
  have size : chunkSize bytes count = min 32 (bytes - 32 * count) := rfl
  have total : min (32 * (count + 1)) bytes = 32 * count + chunkSize bytes count := by omega
  refine ⟨decide_eq_true (by omega), _, round, ?_⟩
  constructor
  · exact total.symm
  · exact fun _ => (seq_of_next talk.call.client rxBuf).trans (congrArg (· + 1) current)
  · dsimp only
    rw [progress.memory, offset, total, board_write_joined addr board.memory ibuf _ _ (by omega)]
  · dsimp only
    rw [progress.executed, List.range_succ, List.map_append, List.append_assoc]
    rfl

theorem board_write_nothing (memory : BitVec 32 → BitVec 8) (address : BitVec 32) :
    boardWrite memory address [] = memory := by
  funext place
  exact if_neg (Nat.not_lt_zero _)

theorem write_progress_start (board : Board) (ibuf : Nat → BitVec 8) (talk : Talk Writing)
    (untouched : talk.board = board) (started : talk.call.wrBytes = 0)
    (current : 0 < chunkCount bytes → seqOf talk.call.client = talk.board.counter) :
    WriteProgress addr bytes board ibuf 0 talk := by
  subst untouched
  have none : min (32 * 0) bytes = 0 := by omega
  refine ⟨by omega, current, ?_, (List.append_nil _).symm⟩
  rw [none, List.range_zero, List.map_nil, board_write_nothing]

theorem write_starts (ibuf : Nat → BitVec 8) (talk : Talk Writing)
    (started : talk.call.wrBytes = 0) :
    WriteProgress addr bytes talk.board ibuf 0 talk ∨
      ∃ next, decide (talk.call.wrBytes < bytes) ∧
        writeRound fills addr bytes ibuf talk = (next, true) ∧
        WriteProgress addr bytes talk.board ibuf 0 next := by
  by_cases current : 0 < chunkCount bytes → seqOf talk.call.client = talk.board.counter
  · exact .inl (write_progress_start addr bytes talk.board ibuf talk rfl started current)
  · right
    rw [Classical.not_imp] at current
    obtain ⟨chunks, other⟩ := current
    obtain ⟨rxBuf, refused⟩ := write_round_refused fills addr bytes ibuf talk other
    rw [chunkCount] at chunks
    exact ⟨_, decide_eq_true (by omega), refused, write_progress_start addr bytes talk.board
      ibuf _ rfl started fun _ => seq_of_refused talk.board.counter rxBuf⟩

theorem write_returns (short : bytes < 2 ^ 31) (ibuf : Nat → BitVec 8) (client : Client)
    (board : Board) :
    ∃ final, WriteProgress addr bytes board ibuf (chunkCount bytes) final ∧
      ∀ fuel, chunkCount bytes + 1 < fuel →
        write fills addr bytes ibuf client board fuel = some ((bytes : Int), final) := by
  have stop : ∀ talk, WriteProgress addr bytes board ibuf (chunkCount bytes) talk →
      decide (talk.call.wrBytes < bytes) = false := by
    intro talk progress
    have all := progress.wrBytes.trans (chunks_whole bytes)
    exact decide_eq_false (by omega)
  obtain ⟨final, progress, returned⟩ := rounds_complete_from _ _ _ _
    (write_progress_step fills addr bytes short board ibuf) stop _
    (write_starts fills addr bytes ibuf
      { call := { client := client, wrBytes := 0 }, board := board, answered := 0 } rfl)
  refine ⟨final, progress, fun fuel enough => ?_⟩
  have all := progress.wrBytes.trans (chunks_whole bytes)
  rw [write]
  dsimp only
  rw [returned fuel enough]
  simp only [Option.map_some, if_true, all]

/-- A write returns its byte count. The bytes are in the board's memory, no other byte of it
has changed, and the board has executed every chunk once. -/
def Writes (ibuf : Nat → BitVec 8) (client : Client) (board : Board) : Prop :=
  ∃ final : Talk Writing,
    (∀ fuel, chunkCount bytes + 1 < fuel →
      write fills addr bytes ibuf client board fuel = some ((bytes : Int), final)) ∧
      (∀ offset, offset < bytes → final.board.memory (target addr offset) = ibuf offset) ∧
      (∀ place, (∀ offset, offset < bytes → place ≠ target addr offset) →
        final.board.memory place = board.memory place) ∧
      final.board.executed =
        board.executed ++ (List.range (chunkCount bytes)).map (writeChunk addr bytes ibuf)

/-- A read returns its byte count. The buffer holds the bytes of the board's memory, which is
as before, and the board has executed every chunk once. -/
def Reads (obuf : Nat → BitVec 8) (client : Client) (board : Board) : Prop :=
  ∃ final : Talk Reading,
    (∀ fuel, chunkCount bytes + 1 < fuel →
      read fills addr bytes obuf client board fuel = some ((bytes : Int), final)) ∧
      (∀ offset, offset < bytes → final.call.obuf offset = board.memory (target addr offset)) ∧
      (∀ place, bytes ≤ place → final.call.obuf place = obuf place) ∧
      final.board.memory = board.memory ∧
      final.board.executed =
        board.executed ++ (List.range (chunkCount bytes)).map (readChunk addr bytes board.memory)

theorem writes (short : bytes < 2 ^ 31) (ibuf : Nat → BitVec 8) (client : Client)
    (board : Board) : Writes fills addr bytes ibuf client board := by
  obtain ⟨final, progress, returned⟩ := write_returns fills addr bytes short ibuf client board
  have memory := progress.memory
  rw [chunks_whole] at memory
  refine ⟨final, returned, ?_, ?_, progress.executed⟩
  · intro offset inside
    have distance := target_distance addr offset 0 (by omega)
    rw [Nat.zero_add] at distance
    rw [memory, boardWrite, distance, List.length_map, List.length_range, if_pos inside,
      buffer_byte _ _ _ inside]
  · intro place outside
    rw [memory]
    refine if_neg fun inside => outside (place - target addr 0).toNat ?_ ?_
    · rwa [List.length_map, List.length_range] at inside
    · have moved := target_add addr 0 (place - target addr 0).toNat
      rw [Nat.zero_add, BitVec.ofNat_toNat, BitVec.setWidth_eq, BitVec.add_comm,
        BitVec.sub_add_cancel] at moved
      exact moved.symm

theorem reads (obuf : Nat → BitVec 8) (client : Client) (board : Board) :
    Reads fills addr bytes obuf client board := by
  obtain ⟨final, progress, returned⟩ := read_returns fills addr bytes obuf client board
  have stored := progress.stored
  rw [chunks_whole] at stored
  refine ⟨final, returned, fun offset inside => ?_, fun place outside => ?_, progress.memory,
    progress.executed⟩
  · rw [stored, if_pos inside]
  · rw [stored, if_neg (by omega)]

/-- Transfers against a board that counts as the client does, whatever the two numbers are at
first and whatever else the responses say. -/
theorem transfers_complete (client : Client) (board : Board) (count : bytes < 2 ^ 31) :
    (∀ ibuf, Writes fills addr bytes ibuf client board) ∧
      ∀ obuf, Reads fills addr bytes obuf client board :=
  ⟨fun ibuf => writes fills addr bytes count ibuf client board,
    fun obuf => reads fills addr bytes obuf client board⟩

/-- A client whose number is about to wrap, and a board just after its reset. -/
theorem transfers_complete_across_wrap :
    (∀ ibuf, Writes (fun _ => ⟨0, 0, 0, 0, 0⟩) 0x40000000 100 ibuf
        { seqCnt := 16383, rxBuf := fun _ => 0 }
        { counter := 0, memory := fun _ => 0, executed := [] }) ∧
      ∀ obuf, Reads (fun _ => ⟨0, 0, 0, 0, 0⟩) 0x40000000 100 obuf
        { seqCnt := 16383, rxBuf := fun _ => 0 }
        { counter := 0, memory := fun _ => 0, executed := [] } :=
  transfers_complete _ _ _ _ _ (by decide)

end MinionSubsystem.EdclTransfer
