import MinionSubsystem.SdCmdFrame

/-!
# Receiving a response

Behind the frame the host waits for the start bit and then counts the bits of
the answer from 1. `Reading count` describes it after `count` bits for both
response lengths; they differ in where the data ends and in how many leading
bits `CRC_7` leaves out.
-/

namespace MinionSubsystem.SdCmdResponse

open MinionSubsystem.BitStream
open MinionSubsystem.ClockedRun
open MinionSubsystem.CyclicCode
open MinionSubsystem.SdCmdFrame
open MinionSubsystem.SdCmdSerialHost
open MinionSubsystem.SdCrc

set_option autoImplicit false

inductive Answer where
  | short (index : BitVec 6) (argument : BitVec 32)
  | long (reserved : BitVec 6) (payload : BitVec 120)

def Answer.isLong : Answer → Bool
  | .short _ _ => false
  | .long _ _ => true

/-- The bits of an answer behind its start bit, `direction` being the first. -/
def Answer.bits (answer : Answer) (direction : Bool) : List Bool :=
  match answer with
  | .short index argument => [direction] ++ wireBits index ++ wireBits argument
  | .long reserved payload => [direction] ++ wireBits reserved ++ wireBits payload

def Answer.checked (answer : Answer) (direction : Bool) : List Bool :=
  match answer with
  | .short index argument => [false, direction] ++ wireBits index ++ wireBits argument
  | .long _ payload => wireBits payload

/-- `response_o` with the fields of an answer at their places. -/
def Answer.DecodedIn (answer : Answer) (direction : Bool) (check : BitVec 7)
    (response : BitVec 134) : Prop :=
  match answer with
  | .short index argument =>
      response.getLsbD 45 = direction ∧ response.extractLsb' 39 6 = index ∧
        response.extractLsb' 7 32 = argument ∧ response.extractLsb' 0 7 = check
  | .long reserved payload =>
      response.getLsbD 133 = direction ∧ response.extractLsb' 127 6 = reserved ∧
        response.extractLsb' 7 120 = payload ∧ response.extractLsb' 0 7 = check

def dataBits (long : Bool) : Nat := if long then respSizeLong else respSizeShort

def uncovered (long : Bool) : Nat := if long then 7 else 0

def covered (long : Bool) (bits : Nat → Bool) (count : Nat) : List Bool :=
  (List.range' (uncovered long) (min count (dataBits long) - uncovered long)).map bits

structure Waiting (wait count : Nat) (s : State) : Prop where
  state : s.state = .readWait
  waitRegO : s.waitRegO.toNat = count
  cmdDatReg : s.cmdDatReg = decide (count ≠ wait)

structure Reading (long : Bool) (bits : Nat → Bool) (base : BitVec 134) (count : Nat)
    (s : State) : Prop where
  state : s.state = .read
  counter : s.counter.toNat = count + 1
  cmdDatReg : s.cmdDatReg = bits count
  crcRst : s.crcRst = decide (count = 0)
  crcEnable : s.crcEnable = decide (uncovered long < count ∧ count ≤ dataBits long)
  crcBit : 0 < count → count ≤ dataBits long → s.crcBit = bits (count - 1)
  crcValO : s.crcValO = crc7 (covered long bits (count - 1))
  responseO : s.responseO = shiftInAll base ((List.range count).map bits)

variable {long : Bool} {wait count : Nat} {bits : Nat → Bool} {base : BitVec 134}
  {i : Inputs} {s : State}

theorem data_bits_bound (long : Bool) : uncovered long ≤ dataBits long ∧ dataBits long ≤ 127 := by
  cases long <;> decide

theorem resp_len_data_bits (setting : BitVec 3) :
    respLen setting = dataBits (setting.getLsbD 1) := rfl

/-- Behind the last clock of a command that expects an answer. -/
theorem writing_waits (running : i.rst = false) (writing : s.state = .write)
    (leaves : nextState i s = .readWait) (later : 0 < wait) : Waiting wait 0 (step i s) := by
  rw [step_running i s running]
  have edge : outEdge i s = writeEdge i s := by simp only [outEdge, writing]
  rw [edge]
  exact
    { state := leaves
      waitRegO := rfl
      cmdDatReg := by
        change true = _
        simp
        omega }

theorem waiting_step (running : i.rst = false) (waiting : Waiting wait count s)
    (before : count < wait) (patient : wait ≤ i.timeoutI.toNat)
    (line : i.cmdDatI = decide (count + 1 ≠ wait)) :
    Waiting wait (count + 1) (step i s) := by
  rw [step_running i s running]
  have waited := waiting.waitRegO
  have bound := i.timeoutI.isLt
  have edge : outEdge i s = readWaitEdge i s := by simp only [outEdge, waiting.state]
  have next : nextState i s = .readWait := by
    have high : s.cmdDatReg = true := by
      rw [waiting.cmdDatReg]
      simp
      omega
    have inTime : ¬i.timeoutI ≤ s.waitRegO := by
      rw [BitVec.le_def, waited]
      omega
    simp only [nextState, waiting.state, high, inTime, Bool.true_eq_false, and_false, if_false]
  rw [edge, next]
  exact
    { state := rfl
      waitRegO := by
        change (s.waitRegO + 1).toNat = _
        rw [BitVec.toNat_add, waited]
        change (count + 1) % 2 ^ 32 = _
        exact Nat.mod_eq_of_lt (by omega)
      cmdDatReg := line }

theorem waiting_reads (running : i.rst = false) (waiting : Waiting wait wait s)
    (turnaround : 3 ≤ wait) (line : i.cmdDatI = bits 0) :
    Reading long bits s.responseO 0 (step i s) := by
  rw [step_running i s running]
  have waited := waiting.waitRegO
  have edge : outEdge i s = readWaitEdge i s := by simp only [outEdge, waiting.state]
  have next : nextState i s = .read := by
    have low : s.cmdDatReg = false := by
      rw [waiting.cmdDatReg]
      simp
    have ready : 3 ≤ s.waitRegO := by
      rw [BitVec.le_def, waited]
      exact turnaround
    simp only [nextState, waiting.state, low, ready, and_self, if_true]
  have nothing : covered long bits 0 = [] := by
    simp [covered]
  rw [edge, next]
  exact
    { state := rfl
      counter := rfl
      cmdDatReg := line
      crcRst := rfl
      crcEnable := by simp [readWaitEdge]
      crcBit := by
        intro positive
        exact absurd positive (Nat.lt_irrefl 0)
      crcValO := by
        rw [Nat.zero_sub, nothing]
        exact crc_edge_clears s (readWaitEdge i s) (Or.inr rfl)
      responseO := rfl }

theorem covered_succ (long : Bool) (bits : Nat → Bool) (count : Nat) :
    covered long bits (count + 1) =
      covered long bits count ++
        if uncovered long ≤ count ∧ count < dataBits long then [bits count] else [] := by
  unfold covered
  split_ifs with inside
  · have length : min (count + 1) (dataBits long) - uncovered long =
        min count (dataBits long) - uncovered long + 1 := by omega
    have last : uncovered long + (min count (dataBits long) - uncovered long) = count := by omega
    rw [length, List.range'_1_concat, List.map_append, last]
    rfl
  · have length : min (count + 1) (dataBits long) - uncovered long =
        min count (dataBits long) - uncovered long := by omega
    rw [length, List.append_nil]

/-- One bit of the answer: shifted into `response_o`, and into the CRC an edge later. -/
theorem reading_step (running : i.rst = false) (reading : Reading long bits base count s)
    (setting : i.settingI.getLsbD 1 = long) (more : count < dataBits long + 7)
    (line : i.cmdDatI = bits (count + 1)) :
    Reading long bits base (count + 1) (step i s) := by
  rw [step_running i s running]
  have counter := reading.counter
  have bound := (data_bits_bound long).2
  have length : respLen i.settingI = dataBits long := by rw [resp_len_data_bits, setting]
  have edge : outEdge i s = readEdge i s := by simp only [outEdge, reading.state]
  have next : nextState i s = .read := by
    simp only [nextState, reading.state, counter, length]
    exact if_neg (by omega)
  rw [edge, next]
  exact
    { state := rfl
      counter := by
        change (s.counter + 1).toNat = _
        rw [counter_succ _ (by omega), counter]
      cmdDatReg := line
      crcRst := rfl
      crcEnable := by
        simp only [readEdge, counter, length]
        cases long
        · simp [uncovered, dataBits, respSizeShort, respSizeLong]
        · simp [uncovered, dataBits, respSizeLong]
          exact Bool.and_comm _ _
      crcBit := by
        intro _ inside
        simp only [readEdge, counter, length, inside, if_true]
        exact reading.cmdDatReg
      crcValO := by
        change crcEdge s (readEdge i s) = crc7 (covered long bits count)
        cases count with
        | zero =>
            rw [crc_edge_clears s (readEdge i s) (Or.inl reading.crcRst)]
            simp [covered]
            rfl
        | succ count =>
            have divided := reading.crcValO
            rw [Nat.add_sub_cancel] at divided
            rw [covered_succ]
            split_ifs with inside
            · have bit := reading.crcBit (Nat.succ_pos count) (by omega)
              rw [Nat.add_sub_cancel] at bit
              rw [← bit]
              apply crc_edge_extends s (readEdge i s) _ reading.crcRst rfl _ divided
              rw [reading.crcEnable]
              simp
              omega
            · have disabled : s.crcEnable = false := by
                rw [reading.crcEnable]
                simp
                omega
              rw [crc_edge_holds s (readEdge i s) reading.crcRst rfl disabled, divided,
                List.append_nil]
      responseO := by
        have shifts : count + 1 ≤ dataBits long + 7 := by omega
        simp only [readEdge, counter, length, shifts, if_true]
        rw [reading.responseO, reading.cmdDatReg, ← shift_in_all_concat, List.range_succ,
          List.map_append]
        rfl }

/-- Behind the check bits the host compares and leaves. -/
theorem reading_ends (running : i.rst = false)
    (reading : Reading long bits base (dataBits long + 7) s)
    (setting : i.settingI.getLsbD 1 = long) :
    (step i s).state = .finishRdWr ∧
      (step i s).responseO = shiftInAll base ((List.range (dataBits long + 7)).map bits) ∧
      (step i s).crcOkO =
        decide ((step i s).responseO.extractLsb' 0 7 =
          crc7 (covered long bits (dataBits long))) := by
  rw [step_running i s running]
  have counter := reading.counter
  have length : respLen i.settingI = dataBits long := by rw [resp_len_data_bits, setting]
  have edge : outEdge i s = readEdge i s := by simp only [outEdge, reading.state]
  have next : nextState i s = .finishRdWr := by
    simp only [nextState, reading.state, counter, length]
    exact if_pos (by omega)
  have past : ¬dataBits long + 7 + 1 ≤ dataBits long + 7 := by omega
  have all : covered long bits (dataBits long + 7 - 1) =
      covered long bits (dataBits long) := by
    unfold covered
    rw [min_self, min_eq_right (by omega)]
  have divided := reading.crcValO
  rw [all] at divided
  rw [edge, next]
  simp only [readEdge, counter, length, past, if_false]
  refine ⟨trivial, reading.responseO, ?_⟩
  rw [divided]

/-- A host leaves `WRITE` for `READ_WAIT`; clock 0 is the edge that does. -/
structure ResponseRequest (long : Bool) (wait : Nat) (start : State)
    (inputs : Nat → Inputs) : Prop where
  released : ∀ clock, (inputs clock).rst = false
  writing : start.state = .write
  leaves : nextState (inputs 0) start = .readWait
  length : ∀ clock, (inputs clock).settingI.getLsbD 1 = long
  turnaround : 3 ≤ wait
  patient : ∀ clock, wait ≤ (inputs clock).timeoutI.toNat

/-- A card answering with `bits` behind its start bit, which is sampled by the
edge that makes `wait_reg_o` equal to `wait`. -/
structure CardAnswers (line : Nat → Bool) (wait : Nat) (bits : List Bool) : Prop where
  idle : ∀ clock, 1 ≤ clock → clock < wait → line clock = true
  startBit : line wait = false
  answer : ∀ index, index < bits.length → line (wait + 1 + index) = bits.getD index false

section Run

variable {start : State} {inputs : Nat → Inputs}

theorem waiting_run (request : ResponseRequest long wait start inputs)
    (idle : ∀ clock, 1 ≤ clock → clock < wait → (inputs clock).cmdDatI = true)
    (startBit : (inputs wait).cmdDatI = false) (count : Nat) (bound : count ≤ wait) :
    Waiting wait count (run step start inputs (1 + count)) := by
  have turnaround := request.turnaround
  refine run_invariant step start inputs (Waiting wait) 1 (1 + wait) ?_ ?_ count (by omega)
  · exact writing_waits (request.released 0) request.writing request.leaves (by omega)
  · intro count before waiting
    apply waiting_step (request.released _) waiting (by omega) (request.patient _)
    by_cases last : count + 1 = wait
    · rw [Nat.add_comm 1 count, last, startBit]
      simp
    · rw [idle (1 + count) (by omega) (by omega)]
      simp [last]

theorem reading_run (request : ResponseRequest long wait start inputs)
    (idle : ∀ clock, 1 ≤ clock → clock < wait → (inputs clock).cmdDatI = true)
    (startBit : (inputs wait).cmdDatI = false) :
    ∃ base, ∀ count, count ≤ dataBits long + 7 →
      Reading long (fun index => (inputs (wait + 1 + index)).cmdDatI) base count
        (run step start inputs (wait + 2 + count)) := by
  refine ⟨(run step start inputs (wait + 1)).responseO, ?_⟩
  intro count bound
  refine run_invariant step start inputs _ (wait + 2) (wait + 2 + (dataBits long + 7))
    ?_ ?_ count (by omega)
  · have waiting := waiting_run request idle startBit wait (Nat.le_refl _)
    rw [Nat.add_comm 1 wait] at waiting
    exact waiting_reads (request.released _) waiting request.turnaround rfl
  · intro count before reading
    apply reading_step (request.released _) reading (request.length _) (by omega)
    apply congrArg (fun clock => (inputs clock).cmdDatI)
    omega

/-- The answer split into the bits the CRC leaves out, the bits it covers, the
check bits and the end bit. -/
theorem answer_run (request : ResponseRequest long wait start inputs)
    (head body : List Bool) (check : BitVec 7) (stop : Bool)
    (headLength : head.length = uncovered long)
    (bodyLength : head.length + body.length = dataBits long)
    (card : CardAnswers (fun clock => (inputs clock).cmdDatI) wait
      (head ++ body ++ wireBits check ++ [stop])) :
    (run step start inputs (wait + dataBits long + 10)).state = .finishRdWr ∧
      (∃ base, (run step start inputs (wait + dataBits long + 10)).responseO =
        shiftInAll base (head ++ body ++ wireBits check)) ∧
      ((run step start inputs (wait + dataBits long + 10)).crcOkO = true ↔
        check = crc7 body) := by
  obtain ⟨base, readings⟩ := reading_run request card.idle card.startBit
  have reading := readings (dataBits long + 7) (Nat.le_refl _)
  have clock : wait + 2 + (dataBits long + 7) + 1 = wait + dataBits long + 10 := by omega
  rcases reading_ends (request.released _) reading (request.length _) with
    ⟨finished, response, judged⟩
  rw [← run_succ step start inputs, clock] at finished response judged
  have size : (head ++ body ++ wireBits check ++ [stop]).length = dataBits long + 8 := by
    simp
    omega
  have received : (List.range (dataBits long + 7)).map
      (fun index => (inputs (wait + 1 + index)).cmdDatI) =
        head ++ body ++ wireBits check := by
    rw [List.range_eq_range', window_of_list _ _ card.answer 0 _ (by omega), List.drop_zero]
    exact List.take_left' (by simp; omega)
  have divided : covered long (fun index => (inputs (wait + 1 + index)).cmdDatI)
      (dataBits long) = body := by
    have length : dataBits long - uncovered long = body.length := by omega
    rw [covered, min_self, window_of_list _ _ card.answer _ _ (by omega), length, ← headLength,
      List.append_assoc, List.append_assoc, List.drop_left, List.take_left]
  rw [received] at response
  have field : (run step start inputs (wait + dataBits long + 10)).responseO.extractLsb' 0 7 =
      check := by
    rw [response, ← List.append_nil (head ++ body ++ wireBits check)]
    exact shift_in_field base (head ++ body) [] check (by simp)
  refine ⟨finished, ⟨base, response⟩, ?_⟩
  rw [judged, divided, field, decide_eq_true_iff]

/-- A command from `IDLE` that expects an answer gets there 50 clocks later. -/
theorem command_awaits_response {cmd : BitVec 38} (command : CommandAccepted cmd start inputs)
    (response : withResponse (inputs 50).settingI = true)
    (length : ∀ clock, (inputs (50 + clock)).settingI.getLsbD 1 = long)
    (turnaround : 3 ≤ wait) (patient : ∀ clock, wait ≤ (inputs (50 + clock)).timeoutI.toNat) :
    ResponseRequest long wait (run step start inputs 50) fun clock => inputs (50 + clock) := by
  have writing := writing_run command 48 (Nat.le_refl _)
  exact
    { released := fun clock => command.released (50 + clock)
      writing := writing.state
      leaves := by
        simp only [nextState, writing.state, bitsToSend, writing.counter, response, and_self,
          Nat.le_refl, if_true, Nat.add_zero]
      length := length
      turnaround := turnaround
      patient := patient }

end Run

private theorem field_at {size place : Nat} (base : BitVec 134) {bits : List Bool}
    (front back : List Bool) (word : BitVec size)
    (split : bits = front ++ wireBits word ++ back) (behind : back.length = place)
    (room : size + place ≤ 134) : (shiftInAll base bits).extractLsb' place size = word := by
  subst split
  subst behind
  exact shift_in_field base front back word room

private theorem bit_at {place : Nat} (base : BitVec 134) {bits : List Bool}
    (back : List Bool) (bit : Bool) (split : bits = [bit] ++ back)
    (behind : back.length = place) (room : place < 134) :
    (shiftInAll base bits).getLsbD place = bit := by
  have one : wireBits (BitVec.ofBool bit) = [bit] := by
    cases bit <;> rfl
  have field := field_at base [] back (BitVec.ofBool bit)
    (split.trans (by rw [one, List.nil_append])) behind (by omega)
  have read := congrArg (fun word => BitVec.getLsbD word 0) field
  simpa using read

theorem answer_decoded (answer : Answer) (direction : Bool) (check : BitVec 7)
    (base : BitVec 134) :
    answer.DecodedIn direction check
      (shiftInAll base (answer.bits direction ++ wireBits check)) := by
  cases answer with
  | short index argument =>
      refine ⟨bit_at base (wireBits index ++ wireBits argument ++ wireBits check) direction
        (by simp [Answer.bits]) (by simp) (by decide), ?_, ?_, ?_⟩
      · exact field_at base [direction] (wireBits argument ++ wireBits check) index
          (by simp [Answer.bits]) (by simp) (by decide)
      · exact field_at base ([direction] ++ wireBits index) (wireBits check) argument
          (by simp [Answer.bits]) (by simp) (by decide)
      · exact field_at base ([direction] ++ wireBits index ++ wireBits argument) [] check
          (by simp [Answer.bits]) rfl (by decide)
  | long reserved payload =>
      refine ⟨bit_at base (wireBits reserved ++ wireBits payload ++ wireBits check) direction
        (by simp [Answer.bits]) (by simp) (by decide), ?_, ?_, ?_⟩
      · exact field_at base [direction] (wireBits payload ++ wireBits check) reserved
          (by simp [Answer.bits]) (by simp) (by decide)
      · exact field_at base ([direction] ++ wireBits reserved) (wireBits check) payload
          (by simp [Answer.bits]) (by simp) (by decide)
      · exact field_at base ([direction] ++ wireBits reserved ++ wireBits payload) [] check
          (by simp [Answer.bits]) rfl (by decide)

/-- An answer of either length is decoded into `response_o` and its check bits
are compared with the CRC of the bits they protect. -/
theorem command_response (answer : Answer) (direction stop : Bool) (check : BitVec 7)
    (wait : Nat) (start : State) (inputs : Nat → Inputs)
    (request : ResponseRequest answer.isLong wait start inputs)
    (card : CardAnswers (fun clock => (inputs clock).cmdDatI) wait
      (answer.bits direction ++ wireBits check ++ [stop])) :
    (run step start inputs (wait + dataBits answer.isLong + 10)).state = .finishRdWr ∧
      answer.DecodedIn direction check
        (run step start inputs (wait + dataBits answer.isLong + 10)).responseO ∧
      ((run step start inputs (wait + dataBits answer.isLong + 10)).crcOkO = true ↔
        check = crc7 (answer.checked direction)) := by
  cases answer with
  | short index argument =>
      have answered := answer_run request [] ([direction] ++ wireBits index ++ wireBits argument)
        check stop rfl (by simp [Answer.isLong, dataBits, respSizeShort]) card
      rcases answered with ⟨finished, ⟨base, response⟩, judged⟩
      refine ⟨finished, ?_, ?_⟩
      · rw [response]
        exact answer_decoded (.short index argument) direction check base
      · -- the start bit is a leading zero
        have leading : crc7 ([false, direction] ++ wireBits index ++ wireBits argument) =
            crc7 ([direction] ++ wireBits index ++ wireBits argument) :=
          residue_leading_zero taps7 ([direction] ++ wireBits index ++ wireBits argument)
        rw [judged, Answer.checked, leading]
  | long reserved payload =>
      have answered := answer_run request ([direction] ++ wireBits reserved) (wireBits payload)
        check stop (by simp [Answer.isLong, uncovered])
        (by simp [Answer.isLong, dataBits, respSizeLong]) card
      rcases answered with ⟨finished, ⟨base, response⟩, judged⟩
      refine ⟨finished, ?_, judged⟩
      rw [response]
      exact answer_decoded (.long reserved payload) direction check base

private def ifCond (clock : Nat) : Inputs where
  rst := false
  settingI := 1
  cmdI := 8#6 ++ 0x000001AA#32
  startI := true
  timeoutI := 15
  cmdDatI :=
    if clock < 53 then true
    else if clock = 53 then false
    else ((Answer.short 8 0x000001AA).bits false ++ wireBits 0x09#7 ++ [true]).getD (clock - 54)
      true

private theorem if_cond_request : CommandAccepted (8#6 ++ 0x000001AA#32) ready ifCond where
  idle := rfl
  released := fun _ => rfl
  cmdI := fun _ => rfl
  startI := rfl

private def behindIfCond : State := run step ready ifCond 50

/-- A short answer echoing its argument, three clocks behind the frame. -/
theorem command_response_of_if_cond :
    (run step behindIfCond (fun clock => ifCond (50 + clock))
        (3 + dataBits false + 10)).state = .finishRdWr ∧
      (Answer.short 8 0x000001AA).DecodedIn false 0x09
        (run step behindIfCond (fun clock => ifCond (50 + clock))
          (3 + dataBits false + 10)).responseO ∧
      ((run step behindIfCond (fun clock => ifCond (50 + clock))
          (3 + dataBits false + 10)).crcOkO = true ↔
        (0x09 : BitVec 7) = crc7 ((Answer.short 8 0x000001AA).checked false)) :=
  command_response (.short 8 0x000001AA) false true 0x09 3 behindIfCond
    (fun clock => ifCond (50 + clock))
    (command_awaits_response if_cond_request rfl
      (fun _ => by
        change (1 : BitVec 3).getLsbD 1 = false
        decide)
      (Nat.le_refl 3)
      (fun _ => by
        change 3 ≤ (15 : BitVec 32).toNat
        decide))
    { idle := by
        intro clock _ before
        have early : 50 + clock < 53 := by omega
        simp [ifCond, early]
      startBit := rfl
      answer := by decide }

end MinionSubsystem.SdCmdResponse
