import MinionSubsystem.ClockedRun
import MinionSubsystem.EdclTransfer

/-!
# Reads over a link that delays and duplicates

Calls of `read`, the board and the network take steps in any order. A response may
reach the socket at any later time, and more than once; the client takes the next
datagram for the answer to its last request. Every response is kept with the call
whose request it answers, which the datagram itself does not say.
-/

namespace MinionSubsystem.EdclDelivery

open MinionSubsystem.ByteMemory
open MinionSubsystem.ClockedRun
open MinionSubsystem.Edcl
open MinionSubsystem.EdclTransfer

set_option autoImplicit false

structure Request where
  call : Nat
  datagram : List (BitVec 8)

/-- A response of the board: the call and the address that were asked, whether the request
was executed, the bytes returned for it, and the datagram. -/
structure Answer where
  call : Nat
  address : BitVec 32
  ack : Bool
  data : List (BitVec 8)
  datagram : List (BitVec 8)

/-- The call under way. It waits between `sendData` and the end of `readData`. -/
structure Active where
  number : Nat
  addr : BitVec 64
  bytes : Nat
  reading : Reading
  waiting : Bool

structure Returned where
  number : Nat
  addr : BitVec 64
  bytes : Nat
  result : Int
  obuf : Nat → BitVec 8

structure System where
  client : Client
  active : Option Active
  calls : Nat
  returned : List Returned
  requests : List Request
  board : Board
  answers : List Answer
  socket : List Answer

def initial (client : Client) (board : Board) : System where
  client := client
  active := none
  calls := 0
  returned := []
  requests := []
  board := board
  answers := []
  socket := []

inductive Event where
  | call (addr : BitVec 64) (bytes : Nat) (obuf : Nat → BitVec 8)
  | proceed
  | execute (index : Nat) (fill : Fill)
  | deliver (index : Nat)
  | receive
  | timeout
  | error
  | store (address : BitVec 32) (value : BitVec 8)

def System.finish (system : System) (active : Active) (client : Client) (result : Int) : System :=
  { system with
    client := client
    active := none
    returned := system.returned ++ [{
      number := active.number
      addr := active.addr
      bytes := active.bytes
      result := result
      obuf := active.reading.obuf }] }

def System.resume (system : System) (active : Active) (received : Received) : System :=
  match readReceived active.reading received with
  | (client, none) => system.finish active client (-1)
  | (_, some reading) =>
      { system with active := some { active with reading := reading, waiting := false } }

def step (event : Event) (system : System) : System :=
  match event with
  | .call addr bytes obuf =>
      match system.active with
      | some _ => system
      | none =>
          { system with
            active := some {
              number := system.calls
              addr := addr
              bytes := bytes
              reading := { client := system.client, rdBytes := 0, obuf := obuf }
              waiting := false }
            calls := system.calls + 1 }
  -- the condition of the loop: the next request, or the return
  | .proceed =>
      match system.active with
      | none => system
      | some active =>
          if active.waiting then system
          else if active.reading.rdBytes < active.bytes then
            { system with
              active := some { active with waiting := true }
              requests := system.requests ++ [{
                call := active.number
                datagram := readRequest active.addr active.bytes active.reading }] }
          else system.finish active active.reading.client active.reading.rdBytes
  | .execute index fill =>
      match system.requests[index]? with
      | none => system
      | some request =>
          let control := Control.ofWord (read32 (bytesOf request.datagram) 2)
          let address := read32 (bytesOf request.datagram) 6
          let ack := control.seqidx = system.board.counter
          let (board, datagram) := system.board.answer fill request.datagram
          { system with
            requests := system.requests.eraseIdx index
            board := board
            answers := system.answers ++ [{
              call := request.call
              address := address
              ack := ack
              data := if ack then boardRead system.board.memory address control.len.toNat else []
              datagram := datagram }] }
  | .deliver index =>
      match system.answers[index]? with
      | none => system
      | some answer => { system with socket := system.socket ++ [answer] }
  | .receive =>
      match system.active, system.socket with
      | some active, answer :: socket =>
          if active.waiting then
            { system with socket := socket }.resume active (.datagram answer.datagram)
          else system
      | _, _ => system
  | .timeout =>
      match system.active, system.socket with
      | some active, [] => if active.waiting then system.resume active .timeout else system
      | _, _ => system
  -- whatever waits in the socket
  | .error =>
      match system.active with
      | some active => if active.waiting then system.resume active .error else system
      | none => system
  | .store address value =>
      { system with
        board := { system.board with
          memory := fun place => if place = address then value else system.board.memory place } }

/-- The response returned this byte for the address. -/
def Answer.Supplies (answer : Answer) (address : BitVec 32) (value : BitVec 8) : Prop :=
  ∃ place, place < answer.data.length ∧
    answer.address + BitVec.ofNat 32 place = address ∧ bytesOf answer.data place = value

instance (answer : Answer) (address : BitVec 32) (value : BitVec 8) :
    Decidable (answer.Supplies address value) :=
  inferInstanceAs (Decidable (∃ place, place < answer.data.length ∧ _))

def Sourced (answers : List Answer) (number : Nat) (addr : BitVec 64) (obuf : Nat → BitVec 8)
    (offset : Nat) : Prop :=
  ∃ answer ∈ answers, answer.call = number ∧ answer.Supplies (target addr offset) (obuf offset)

instance (answers : List Answer) (number : Nat) (addr : BitVec 64) (obuf : Nat → BitVec 8)
    (offset : Nat) : Decidable (Sourced answers number addr obuf offset) :=
  inferInstanceAs (Decidable (∃ answer ∈ answers, _))

/-- Every call that returned its byte count has read bytes returned to it. -/
def Fresh (system : System) : Prop :=
  ∀ call ∈ system.returned, call.result = call.bytes →
    ∀ offset, offset < call.bytes →
      Sourced system.answers call.number call.addr call.obuf offset

instance (system : System) : Decidable (Fresh system) :=
  inferInstanceAs (Decidable (∀ call ∈ system.returned, _))

/-- The next datagram is a refusal, or the acknowledgement of a request of the call under way
for the chunk it waits for. -/
def Expected : Option Active → List Answer → Prop
  | some active, answer :: _ =>
      answer.ack → active.waiting →
        answer.call = active.number ∧
          answer.address = target active.addr active.reading.rdBytes
  | _, _ => True

def decideExpected :
    (active : Option Active) → (socket : List Answer) → Decidable (Expected active socket)
  | some _, _ :: _ => inferInstanceAs (Decidable (_ → _ → _))
  | some _, [] => .isTrue trivial
  | none, _ => .isTrue trivial

def Matched (event : Event) (system : System) : Prop :=
  match event with
  | .receive => Expected system.active system.socket
  | _ => True

def decideMatched (event : Event) (system : System) : Decidable (Matched event system) :=
  match event with
  | .receive => decideExpected system.active system.socket
  | .call _ _ _ => .isTrue trivial
  | .proceed => .isTrue trivial
  | .execute _ _ => .isTrue trivial
  | .deliver _ => .isTrue trivial
  | .timeout => .isTrue trivial
  | .error => .isTrue trivial
  | .store _ _ => .isTrue trivial

def Request.Formed (request : Request) : Prop :=
  ∃ control address, request.datagram = packet 0 control address [] ∧ control.flag = 0

def Answer.Formed (answer : Answer) : Prop :=
  ∃ offset control address,
    (answer.ack ∧ answer.datagram = packet offset control address answer.data ∧
        control.flag = 0 ∧ answer.data.length = control.len.toNat) ∨
      (answer.ack = false ∧ answer.datagram = packet offset control address [] ∧
        control.flag = 1)

def SourcedCall (answers : List Answer) (active : Active) : Prop :=
  ∀ offset, offset < active.reading.rdBytes →
    Sourced answers active.number active.addr active.reading.obuf offset

structure Invariant (system : System) : Prop where
  requests : ∀ request ∈ system.requests, request.Formed
  answers : ∀ answer ∈ system.answers, answer.Formed
  socket : ∀ answer ∈ system.socket, answer ∈ system.answers
  active : ∀ active, system.active = some active → SourcedCall system.answers active
  fresh : Fresh system

theorem sourced_more (answers : List Answer) (answer : Answer) (number : Nat)
    (addr : BitVec 64) (obuf : Nat → BitVec 8) (offset : Nat)
    (sourced : Sourced answers number addr obuf offset) :
    Sourced (answers ++ [answer]) number addr obuf offset := by
  obtain ⟨source, mem, same, supplies⟩ := sourced
  exact ⟨source, List.mem_append_left _ mem, same, supplies⟩

theorem read_received_timeout (reading : Reading) :
    readReceived reading .timeout = (reading.client, none) := rfl

theorem read_received_error (reading : Reading) :
    readReceived reading .error = (reading.client, none) := rfl

theorem invariant_initial (client : Client) (board : Board) : Invariant (initial client board) where
  requests := fun _ mem => absurd mem List.not_mem_nil
  answers := fun _ mem => absurd mem List.not_mem_nil
  socket := fun _ mem => absurd mem List.not_mem_nil
  active := fun _ some => nomatch some
  fresh := fun _ mem => absurd mem List.not_mem_nil

/-- A call ends with what it has read, or with -1. -/
theorem invariant_finish (system : System) (active : Active) (client : Client) (result : Int)
    (inv : Invariant system) (sourced : SourcedCall system.answers active)
    (ended : result = active.reading.rdBytes ∨ result = -1) :
    Invariant (system.finish active client result) where
  requests := inv.requests
  answers := inv.answers
  socket := inv.socket
  active := fun _ some => nomatch some
  fresh := by
    intro call mem whole offset inside
    rcases List.mem_append.mp mem with mem | mem
    · exact inv.fresh call mem whole offset inside
    · rw [List.mem_singleton.mp mem] at whole inside ⊢
      rcases ended with all | failed
      · have read : (active.reading.rdBytes : Int) = active.bytes := all.symm.trans whole
        exact sourced offset (by dsimp only at inside; omega)
      · have negative : (-1 : Int) = active.bytes := failed.symm.trans whole
        omega

/-- Taking an expected datagram keeps what has been read, and adds only bytes of this call. -/
theorem invariant_resume (system : System) (active : Active) (answer : Answer)
    (inv : Invariant system) (known : answer ∈ system.answers)
    (sourced : SourcedCall system.answers active)
    (expected : answer.ack →
      answer.call = active.number ∧ answer.address = target active.addr active.reading.rdBytes) :
    Invariant (system.resume active (.datagram answer.datagram)) := by
  have rest : ∀ reading,
      SourcedCall system.answers { active with reading := reading, waiting := false } →
        Invariant { system with
          active := some { active with reading := reading, waiting := false } } := by
    intro reading source
    refine ⟨inv.requests, inv.answers, inv.socket, fun next some => ?_, inv.fresh⟩
    cases some
    exact source
  obtain ⟨offset, control, address, formed⟩ := inv.answers answer known
  rcases formed with ⟨acked, datagram, flag, length⟩ | ⟨refused, datagram, flag⟩
  · obtain ⟨rxBuf, received⟩ := read_received_ack offset control address answer.data
      active.reading flag length
    rw [System.resume, datagram, received]
    apply rest
    intro place inside
    obtain ⟨same, asked⟩ := expected acked
    by_cases before : place < active.reading.rdBytes
    · obtain ⟨source, mem, caller, supplies⟩ := sourced place before
      have kept := store_bytes_frame active.reading.obuf active.reading.rdBytes
        answer.data.length (bytesOf answer.data) place (.inl before)
      exact ⟨source, mem, caller,
        (congrArg (source.Supplies (target active.addr place)) kept).mpr supplies⟩
    · have behind : active.reading.rdBytes + (place - active.reading.rdBytes) = place :=
        Nat.add_sub_cancel' (by omega)
      have short : place - active.reading.rdBytes < answer.data.length := by
        dsimp only at inside
        omega
      have stored := store_bytes_byte active.reading.obuf active.reading.rdBytes
        answer.data.length (bytesOf answer.data) _ short
      rw [behind] at stored
      refine ⟨answer, known, same, place - active.reading.rdBytes, short, ?_, stored.symm⟩
      rw [asked, ← target_add, behind]
  · obtain ⟨rxBuf, received⟩ := read_received_nak offset control address [] active.reading
      (by decide) flag
    rw [System.resume, datagram, received]
    exact rest _ sourced

theorem read_request_formed (number : Nat) (addr : BitVec 64) (bytes : Nat) (reading : Reading) :
    (Request.mk number (readRequest addr bytes reading)).Formed :=
  ⟨_, _, read_request_packet addr bytes reading, rfl⟩

theorem invariant_step (event : Event) (system : System) (matched : Matched event system)
    (inv : Invariant system) : Invariant (step event system) := by
  cases event with
  | call addr bytes obuf =>
      cases busy : system.active with
      | some active => simpa only [step, busy] using inv
      | none =>
          simp only [step, busy]
          refine ⟨inv.requests, inv.answers, inv.socket, fun active started => ?_, inv.fresh⟩
          cases started
          intro offset inside
          exact absurd inside (Nat.not_lt_zero _)
  | proceed =>
      cases busy : system.active with
      | none => simpa only [step, busy] using inv
      | some active =>
          have sourced := inv.active active busy
          simp only [step, busy]
          split_ifs with waiting more
          · exact inv
          · refine ⟨?_, inv.answers, inv.socket, fun next sent => ?_, inv.fresh⟩
            · intro request mem
              rcases List.mem_append.mp mem with mem | mem
              · exact inv.requests request mem
              · rw [List.mem_singleton.mp mem]
                exact read_request_formed _ _ _ _
            · cases sent
              exact sourced
          · exact invariant_finish system active _ _ inv sourced (.inl rfl)
  | execute index fill =>
      cases found : system.requests[index]? with
      | none => simpa only [step, found] using inv
      | some request =>
          obtain ⟨control, address, datagram, read⟩ :=
            inv.requests request (List.mem_of_getElem? found)
          have left : ∀ other ∈ system.requests.eraseIdx index, other.Formed :=
            fun other mem => inv.requests other (List.mem_of_mem_eraseIdx mem)
          simp only [step, found, datagram, packet_control, control_of_word, packet_address]
          refine ⟨left, ?_, ?_, ?_, ?_⟩
          · intro answer mem
            rcases List.mem_append.mp mem with mem | mem
            · exact inv.answers answer mem
            · rw [List.mem_singleton.mp mem]
              by_cases current : control.seqidx = system.board.counter
              · rw [answer_read 0 control address [] fill system.board current read, if_pos current]
                exact ⟨_, _, _, .inl ⟨decide_eq_true current, rfl, rfl, by simp [boardRead]⟩⟩
              · rw [answer_refused 0 control address [] fill system.board current]
                exact ⟨_, _, _, .inr ⟨decide_eq_false current, rfl, rfl⟩⟩
          · exact fun answer mem => List.mem_append_left _ (inv.socket answer mem)
          · intro active busy offset inside
            exact sourced_more _ _ _ _ _ _ (inv.active active busy offset inside)
          · intro call mem whole offset inside
            exact sourced_more _ _ _ _ _ _ (inv.fresh call mem whole offset inside)
  | deliver index =>
      cases found : system.answers[index]? with
      | none => simpa only [step, found] using inv
      | some answer =>
          simp only [step, found]
          refine ⟨inv.requests, inv.answers, ?_, inv.active, inv.fresh⟩
          intro other mem
          rcases List.mem_append.mp mem with mem | mem
          · exact inv.socket other mem
          · rw [List.mem_singleton.mp mem]
            exact List.mem_of_getElem? found
  | receive =>
      cases busy : system.active with
      | none => simpa only [step, busy] using inv
      | some active =>
          cases queue : system.socket with
          | nil => simpa only [step, busy, queue] using inv
          | cons answer socket =>
              have sourced := inv.active active busy
              have known := inv.socket answer (queue ▸ List.mem_cons_self)
              simp only [step, busy, queue]
              split_ifs with waiting
              · have expected : Expected (some active) (answer :: socket) := by
                  rw [← busy, ← queue]
                  exact matched
                have shorter : Invariant { system with socket := socket } :=
                  ⟨inv.requests, inv.answers,
                    fun other mem => inv.socket other (queue ▸ List.mem_cons_of_mem _ mem),
                    inv.active, inv.fresh⟩
                exact invariant_resume { system with socket := socket } active answer shorter known
                  sourced fun acked => expected acked waiting
              · exact inv
  | timeout =>
      cases busy : system.active with
      | none => simpa only [step, busy] using inv
      | some active =>
          cases queue : system.socket with
          | cons answer socket => simpa only [step, busy, queue] using inv
          | nil =>
              simp only [step, busy, queue]
              split_ifs with waiting
              · rw [System.resume, read_received_timeout]
                exact invariant_finish system active _ _ inv (inv.active active busy) (.inr rfl)
              · exact inv
  | error =>
      cases busy : system.active with
      | none => simpa only [step, busy] using inv
      | some active =>
          simp only [step, busy]
          split_ifs with waiting
          · rw [System.resume, read_received_error]
            exact invariant_finish system active _ _ inv (inv.active active busy) (.inr rfl)
          · exact inv
  | store address value => exact ⟨inv.requests, inv.answers, inv.socket, inv.active, inv.fresh⟩

/-- As long as every acknowledgement that the client takes is one of the call under way, for
the chunk it waits for, calls that return their byte count have read what was returned to
them. -/
theorem reads_fresh (client : Client) (board : Board) (events : List Event)
    (matched : AllAllowed step Matched (initial client board) events) :
    Fresh (runEvents step (initial client board) events) :=
  (run_events_guarded step Matched Invariant invariant_step events (initial client board)
    (invariant_initial client board) matched).fresh

def resetClient : Client where
  seqCnt := 0
  rxBuf := fun _ => 0

def countingBoard : Board where
  counter := 5
  memory := fun place => place.setWidth 8
  executed := []

def plainFill : Fill where
  offset := 0
  unused := 0
  nakLen := 0
  ackSeq := 0
  address := 0

/-- A read of four bytes whose first request is refused. -/
def punctualRead : List Event :=
  [.call 0x1000 4 fun _ => 0, .proceed, .execute 0 plainFill, .deliver 0, .receive,
    .proceed, .execute 0 plainFill, .deliver 1, .receive, .proceed]

def allMatched (system : System) (events : List Event) :
    Decidable (AllAllowed step Matched system events) :=
  decideAllAllowed step Matched decideMatched system events

theorem reads_fresh_of_punctual_read :
    AllAllowed step Matched (initial resetClient countingBoard) punctualRead ∧
      Fresh (runEvents step (initial resetClient countingBoard) punctualRead) := by
  have matched : AllAllowed step Matched (initial resetClient countingBoard) punctualRead :=
    @of_decide_eq_true _ (allMatched _ _) (by decide +kernel)
  exact ⟨matched, reads_fresh resetClient countingBoard punctualRead matched⟩

/-- The response to the first read comes after its timeout and is taken by the second read,
of another address. -/
def lateResponse : List Event :=
  [.call 0x1000 4 fun _ => 0, .proceed, .execute 0 plainFill, .timeout,
    .call 0x2004 4 fun _ => 0, .proceed, .deliver 0, .receive, .proceed]

theorem late_response_is_taken :
    ¬Fresh (runEvents step
      (initial resetClient { countingBoard with counter := 0 }) lateResponse) := by
  decide +kernel

end MinionSubsystem.EdclDelivery
