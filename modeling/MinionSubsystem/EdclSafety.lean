import MinionSubsystem.Edcl

/-!
# Reads over an arbitrary transport

A call of `EdclService::read` against any sequence of receptions: socket errors,
timeouts and datagrams of any length and contents. The copies of a round are
listed, each with its places in `obuf` and in the receive buffer. A request that
cannot be sent ends the call as a socket error does.
-/

namespace MinionSubsystem.EdclSafety

open MinionSubsystem.ByteMemory
open MinionSubsystem.Edcl

set_option autoImplicit false

/-- The length field of a response that the round takes for an acknowledgement. -/
def accepted (reading : Reading) (received : Received) : Option Nat :=
  let (off, rxBuf) := readData received reading.client.rxBuf
  let rsp := Control.ofWord (read32 rxBuf 2)
  if off = -1 ∨ off = 0 ∨ rsp.flag = 1 then none else some rsp.len.toNat

/-- One byte of the `memcpy`, from `rx_buf_[source]` to `obuf[place]`. -/
structure Copy where
  place : Nat
  source : Nat
  deriving DecidableEq, Repr

def copies (reading : Reading) (received : Received) : List Copy :=
  (List.range ((accepted reading received).getD 0)).map fun i =>
    { place := reading.rdBytes + i, source := 10 + i }

def receivedSize : Received → Nat
  | .error => 0
  | .timeout => 0
  | .datagram bytes => min bytes.length 4096

/-- The call before round `n`; `none` once it has returned. -/
def readAt (bytes : Nat) (responses : Nat → Received) (start : Reading) : Nat → Option Reading
  | 0 => some start
  | n + 1 =>
      match readAt bytes responses start n with
      | some reading =>
          if reading.rdBytes < bytes then (readReceived reading (responses n)).2 else none
      | none => none

def begin (client : Client) (obuf : Nat → BitVec 8) : Reading :=
  { client := client, rdBytes := 0, obuf := obuf }

def Round (bytes : Nat) (responses : Nat → Received) (start : Reading) (n : Nat)
    (reading : Reading) : Prop :=
  readAt bytes responses start n = some reading ∧ reading.rdBytes < bytes

def acknowledgements (bytes : Nat) (responses : Nat → Received) (start : Reading) : Nat → Nat
  | 0 => 0
  | n + 1 =>
      acknowledgements bytes responses start n +
        match readAt bytes responses start n with
        | some reading =>
            if reading.rdBytes < bytes ∧ (accepted reading (responses n)).isSome then 1 else 0
        | none => 0

/-- Every copy goes into the caller's buffer and comes from the datagram just received; every
acknowledgement advances the call, so there are no more of them than bytes. -/
structure ReadSafe (bytes : Nat) (responses : Nat → Received) (start : Reading) : Prop where
  inside : ∀ n reading, Round bytes responses start n reading →
    ∀ copy ∈ copies reading (responses n), copy.place < bytes
  received : ∀ n reading, Round bytes responses start n reading →
    ∀ copy ∈ copies reading (responses n), copy.source < receivedSize (responses n)
  advances : ∀ n reading, Round bytes responses start n reading →
    (accepted reading (responses n)).isSome →
      ∃ next, readAt bytes responses start (n + 1) = some next ∧ reading.rdBytes < next.rdBytes
  ends : ∀ n, acknowledgements bytes responses start n ≤ bytes

/-- A reception is no acknowledgement, or one of some of the missing bytes that brings them. -/
def Expected (bytes : Nat) (reading : Reading) (received : Received) : Prop :=
  ∀ len, accepted reading received = some len →
    1 ≤ len ∧ len ≤ bytes - reading.rdBytes ∧ 10 + len ≤ receivedSize received

section Step

variable (reading next : Reading) (received : Received)

/-- An acknowledgement stores its bytes behind those that have been read. -/
theorem accepted_next (len : Nat) (acknowledged : accepted reading received = some len) :
    ∃ client, (readReceived reading received).2 = some {
      client := client
      rdBytes := reading.rdBytes + len
      obuf := storeBytes reading.rdBytes len
        (fun place => (readData received reading.client.rxBuf).2 (10 + place)) reading.obuf } := by
  dsimp only [accepted] at acknowledged
  split_ifs at acknowledged with refused
  obtain ⟨failed, silent, nak⟩ := not_or.mp refused |>.imp id not_or.mp
  have length := Option.some.inj acknowledged
  dsimp only [readReceived]
  rw [if_neg failed, if_neg silent, if_neg nak, ← length]
  exact ⟨_, rfl⟩

/-- Any other reception ends the call or leaves what has been read. -/
theorem other_next (other : accepted reading received = none)
    (goes_on : (readReceived reading received).2 = some next) :
    next.rdBytes = reading.rdBytes ∧ next.obuf = reading.obuf := by
  dsimp only [accepted] at other
  dsimp only [readReceived] at goes_on
  split_ifs at other goes_on with refused failed silent nak
  · have same := Option.some.inj goes_on
    subst same
    exact ⟨rfl, rfl⟩
  · rcases refused with case | case | case <;> contradiction

theorem copies_none (other : accepted reading received = none) :
    copies reading received = [] := by
  rw [copies, other]
  rfl

theorem mem_copies (len : Nat) (acknowledged : accepted reading received = some len)
    (copy : Copy) :
    copy ∈ copies reading received ↔
      ∃ i, i < len ∧ copy = { place := reading.rdBytes + i, source := 10 + i } := by
  rw [copies, acknowledged, Option.getD_some, List.mem_map]
  constructor
  · rintro ⟨i, inside, rfl⟩
    exact ⟨i, List.mem_range.mp inside, rfl⟩
  · rintro ⟨i, inside, rfl⟩
    exact ⟨i, List.mem_range.mpr inside, rfl⟩

/-- The copies are what a round does to the caller's buffer. -/
theorem copies_stored (goes_on : (readReceived reading received).2 = some next) :
    (∀ copy ∈ copies reading received,
      next.obuf copy.place = (readData received reading.client.rxBuf).2 copy.source) ∧
    ∀ place, (∀ copy ∈ copies reading received, copy.place ≠ place) →
      next.obuf place = reading.obuf place := by
  cases acknowledged : accepted reading received with
  | none =>
      obtain ⟨_, kept⟩ := other_next reading next received acknowledged goes_on
      rw [copies_none reading received acknowledged, kept]
      exact ⟨fun copy member => absurd member List.not_mem_nil, fun place _ => rfl⟩
  | some len =>
      obtain ⟨client, same⟩ := accepted_next reading received len acknowledged
      obtain rfl := Option.some.inj (same.symm.trans goes_on)
      constructor
      · intro copy member
        obtain ⟨i, inside, rfl⟩ := (mem_copies reading received len acknowledged copy).mp member
        dsimp only
        rw [store_bytes_byte reading.obuf reading.rdBytes len _ i inside]
      · intro place apart
        dsimp only
        apply store_bytes_frame
        by_contra between
        apply apart { place := place, source := 10 + (place - reading.rdBytes) }
        · exact (mem_copies reading received len acknowledged _).mpr
            ⟨place - reading.rdBytes, by omega, by congr 1; omega⟩
        · rfl

/-- A source in the datagram holds one of its bytes. -/
theorem received_byte (rxBuf : Nat → BitVec 8) (bytes : List (BitVec 8)) (source : Nat)
    (inside : source < receivedSize (.datagram bytes)) :
    (readData (.datagram bytes) rxBuf).2 source = bytesOf bytes source := by
  have stored := store_bytes_byte rxBuf 0 (min bytes.length 4096) (bytesOf bytes) source inside
  rwa [Nat.zero_add] at stored

/-- The places of an accepted length lie where they should exactly if the length does. -/
theorem expected_iff (bytes : Nat) (pending : reading.rdBytes < bytes) :
    Expected bytes reading received ↔
      (∀ copy ∈ copies reading received, copy.place < bytes) ∧
      (∀ copy ∈ copies reading received, copy.source < receivedSize received) ∧
      ∀ len, accepted reading received = some len → 1 ≤ len := by
  constructor
  · intro expected
    refine ⟨?_, ?_, fun len acknowledged => (expected len acknowledged).1⟩
    all_goals
      intro copy member
      cases acknowledged : accepted reading received with
      | none =>
          rw [copies_none reading received acknowledged] at member
          exact absurd member List.not_mem_nil
      | some len =>
          obtain ⟨i, inside, rfl⟩ := (mem_copies reading received len acknowledged copy).mp member
          obtain ⟨_, missing, brought⟩ := expected len acknowledged
          dsimp only
          omega
  · rintro ⟨places, sources, positive⟩ len acknowledged
    have first := positive len acknowledged
    have last := (mem_copies reading received len acknowledged
      { place := reading.rdBytes + (len - 1), source := 10 + (len - 1) }).mpr
      ⟨len - 1, by omega, rfl⟩
    have place := places _ last
    have source := sources _ last
    dsimp only at place source
    omega

end Step

section Run

variable (bytes : Nat) (responses : Nat → Received) (start : Reading)

theorem read_at_round (n : Nat) (reading : Reading)
    (round : Round bytes responses start n reading) :
    readAt bytes responses start (n + 1) = (readReceived reading (responses n)).2 := by
  rw [readAt, round.1]
  exact if_pos round.2

/-- Behind a state that has been reached there is a round. -/
theorem round_before (n : Nat) (next : Reading)
    (reached : readAt bytes responses start (n + 1) = some next) :
    ∃ reading, Round bytes responses start n reading ∧
      (readReceived reading (responses n)).2 = some next := by
  rw [readAt] at reached
  cases before : readAt bytes responses start n with
  | none =>
      rw [before] at reached
      contradiction
  | some reading =>
      rw [before] at reached
      dsimp only at reached
      split_ifs at reached with pending
      exact ⟨reading, ⟨before, pending⟩, reached⟩

theorem acknowledgements_round (n : Nat) (reading : Reading)
    (round : Round bytes responses start n reading) :
    acknowledgements bytes responses start (n + 1) =
      acknowledgements bytes responses start n +
        if (accepted reading (responses n)).isSome then 1 else 0 := by
  rw [acknowledgements, round.1]
  simp only [round.2, true_and]

theorem acknowledgements_idle (n : Nat)
    (idle : ∀ reading, ¬Round bytes responses start n reading) :
    acknowledgements bytes responses start (n + 1) =
      acknowledgements bytes responses start n := by
  rw [acknowledgements]
  cases before : readAt bytes responses start n with
  | none => rfl
  | some reading =>
      have finished : ¬reading.rdBytes < bytes := fun pending => idle reading ⟨before, pending⟩
      simp only [finished, false_and, if_false, Nat.add_zero]

def Counted (n : Nat) : Prop :=
  acknowledgements bytes responses start n ≤ bytes ∧
    ∀ reading, readAt bytes responses start n = some reading →
      acknowledgements bytes responses start n ≤ reading.rdBytes ∧ reading.rdBytes ≤ bytes

theorem counted_step (n : Nat)
    (expected : ∀ reading, Round bytes responses start n reading →
      Expected bytes reading (responses n))
    (counted : Counted bytes responses start n) : Counted bytes responses start (n + 1) := by
  by_cases takes_place : ∃ reading, Round bytes responses start n reading
  · obtain ⟨reading, round⟩ := takes_place
    obtain ⟨least, most⟩ := counted.2 reading round.1
    have next := read_at_round bytes responses start n reading round
    have count := acknowledgements_round bytes responses start n reading round
    rw [Counted, next, count]
    cases acknowledged : accepted reading (responses n) with
    | none =>
        refine ⟨counted.1, fun after reached => ?_⟩
        obtain ⟨same, _⟩ := other_next reading after (responses n) acknowledged reached
        rw [same]
        exact ⟨least, most⟩
    | some len =>
        obtain ⟨positive, missing, _⟩ := expected reading round len acknowledged
        obtain ⟨client, same⟩ := accepted_next reading (responses n) len acknowledged
        have pending := round.2
        rw [Option.isSome_some, if_pos rfl]
        refine ⟨by omega, fun after reached => ?_⟩
        obtain rfl := Option.some.inj (same.symm.trans reached)
        dsimp only
        omega
  · have idle : ∀ reading, ¬Round bytes responses start n reading := not_exists.mp takes_place
    rw [Counted, acknowledgements_idle bytes responses start n idle]
    refine ⟨counted.1, fun after reached => ?_⟩
    obtain ⟨reading, round, _⟩ := round_before bytes responses start n after reached
    exact absurd round (idle reading)

theorem counted_run (zero : start.rdBytes = 0)
    (expected : ∀ n reading, Round bytes responses start n reading →
      Expected bytes reading (responses n)) (n : Nat) : Counted bytes responses start n := by
  induction n with
  | zero =>
      refine ⟨Nat.zero_le bytes, fun reading reached => ?_⟩
      obtain rfl := Option.some.inj reached
      rw [zero]
      exact ⟨Nat.le_refl 0, Nat.zero_le bytes⟩
  | succ n ih => exact counted_step bytes responses start n (expected n) ih

/-- In a safe call the memory behind the caller's buffer is left alone. -/
theorem safe_outside (safe : ReadSafe bytes responses start) (n : Nat) (reading : Reading)
    (reached : readAt bytes responses start n = some reading) (place : Nat)
    (outside : bytes ≤ place) : reading.obuf place = start.obuf place := by
  induction n generalizing reading with
  | zero =>
      obtain rfl := Option.some.inj reached
      rfl
  | succ n ih =>
      obtain ⟨before, round, goes_on⟩ := round_before bytes responses start n reading reached
      have kept := (copies_stored before reading (responses n) goes_on).2 place
      rw [kept, ih before round.1]
      intro copy member same
      have inside := safe.inside n before round copy member
      omega

/-- What a safe call stores are bytes of the datagram just received. -/
theorem safe_stored (safe : ReadSafe bytes responses start) (n : Nat) (reading next : Reading)
    (round : Round bytes responses start n reading)
    (reached : readAt bytes responses start (n + 1) = some next) (datagram : List (BitVec 8))
    (response : responses n = .datagram datagram) :
    ∀ copy ∈ copies reading (responses n), next.obuf copy.place = bytesOf datagram copy.source := by
  intro copy member
  have source := safe.received n reading round copy member
  rw [read_at_round bytes responses start n reading round] at reached
  rw [(copies_stored reading next (responses n) reached).1 copy member, response]
  rw [response] at source
  exact received_byte _ datagram copy.source source

end Run

/-- A call is safe exactly if every acknowledgement it accepts has a length between one and the
missing bytes, and the datagram holds that many bytes behind the header. -/
theorem read_safe_iff (bytes : Nat) (responses : Nat → Received) (client : Client)
    (obuf : Nat → BitVec 8) :
    ReadSafe bytes responses (begin client obuf) ↔
      ∀ n reading, Round bytes responses (begin client obuf) n reading →
        Expected bytes reading (responses n) := by
  constructor
  · intro safe n reading round
    refine (expected_iff reading (responses n) bytes round.2).mpr
      ⟨safe.inside n reading round, safe.received n reading round, fun len acknowledged => ?_⟩
    obtain ⟨next, reached, advanced⟩ := safe.advances n reading round (by rw [acknowledged]; rfl)
    obtain ⟨client, same⟩ := accepted_next reading (responses n) len acknowledged
    rw [read_at_round bytes responses _ n reading round, same] at reached
    obtain rfl := Option.some.inj reached
    dsimp only at advanced
    omega
  · intro expected
    constructor
    · intro n reading round
      exact ((expected_iff reading (responses n) bytes round.2).mp (expected n reading round)).1
    · intro n reading round
      exact ((expected_iff reading (responses n) bytes round.2).mp (expected n reading round)).2.1
    · intro n reading round acknowledged
      obtain ⟨len, length⟩ := Option.isSome_iff_exists.mp acknowledged
      obtain ⟨client, same⟩ := accepted_next reading (responses n) len length
      have positive := (expected n reading round len length).1
      refine ⟨_, (read_at_round bytes responses _ n reading round).trans same, ?_⟩
      dsimp only
      omega
    · intro n
      exact (counted_run bytes responses (begin client obuf) rfl expected n).1

/-- Eight bytes in answer to a read of four are all stored. -/
theorem long_answer_unsafe :
    ¬ReadSafe 4
      (fun _ => .datagram (packet 0 { unused := 0, len := 8, flag := 0, seqidx := 0 } 0
        (List.replicate 8 0xAA)))
      (begin { seqCnt := 0, rxBuf := fun _ => 0 } fun _ => 0) := by
  intro safe
  have copied : { place := 7, source := 17 } ∈
      copies (begin { seqCnt := 0, rxBuf := fun _ => 0 } fun _ => 0)
        (.datagram (packet 0 { unused := 0, len := 8, flag := 0, seqidx := 0 } 0
          (List.replicate 8 0xAA))) := by
    decide
  exact absurd (safe.inside 0 _ ⟨rfl, by decide⟩ _ copied) (by decide)

end MinionSubsystem.EdclSafety
