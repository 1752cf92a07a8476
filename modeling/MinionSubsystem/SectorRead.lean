import Mathlib.Logic.Function.Basic
import MinionSubsystem.ByteMemory
import MinionSubsystem.MinionDriver
import MinionSubsystem.SdReadBlock

/-!
# From the receive FIFO to the sector buffer

`queue_block_read` drains the FIFO into `iobuf`, `sd_read_sector` swaps the
bytes of every word and stores it. The controller and the FIFO are a parameter;
`ServesFifo` is what is assumed of them.
-/

namespace MinionSubsystem.SectorRead

open MinionSubsystem.BitStream
open MinionSubsystem.ByteMemory
open MinionSubsystem.ClockedRun
open MinionSubsystem.MinionDriver
open MinionSubsystem.SdBlock
open MinionSubsystem.SdDataRead
open MinionSubsystem.SdReadBlock

set_option autoImplicit false

/-- `___swab32`. -/
def toCpu (arg : BitVec 32) : BitVec 32 :=
  (arg &&& 0x000000ff) <<< 24 ||| (arg &&& 0x0000ff00) <<< 8 ||| (arg &&& 0x00ff0000) >>> 8 |||
    (arg &&& 0xff000000) >>> 24

theorem to_cpu_byte (word : BitVec 32) (place : Nat) (bound : place < 4) :
    wordByte (toCpu word) place = word.extractLsb' (24 - 8 * place) 8 := by
  apply BitVec.eq_of_getLsbD_eq
  intro index inside
  simp only [wordByte, toCpu, BitVec.getLsbD_extractLsb', BitVec.getLsbD_or,
    BitVec.getLsbD_shiftLeft, BitVec.getLsbD_ushiftRight, BitVec.getLsbD_and]
  interval_cases place <;> interval_cases index <;> simp

/-- The swapped FIFO word holds its bytes in the order of the block. -/
theorem to_cpu_block_word (bytes : Nat → BitVec 8) (index place : Nat) (bound : place < 4) :
    wordByte (toCpu (blockWord bytes index)) place = bytes (4 * index + place) := by
  rw [to_cpu_byte _ _ bound]
  apply BitVec.eq_of_getLsbD_eq
  intro bit inside
  simp only [blockWord, BitVec.getLsbD_extractLsb', BitVec.getLsbD_append]
  interval_cases place <;> interval_cases bit <;> rfl

/-- What the driver reaches: the controller behind its registers, which may never let
a poll end, the status word and the receive FIFO. -/
structure SdPort (Device : Type) where
  perform : Operation → Device → Option Device
  sdStat : Device → BitVec 32
  storeRxFifo : Device → Device
  loadRxFifo : Device → BitVec 32

/-- A store pops one word and the load behind it returns this word; bit 0 of the status
says that none is left. -/
structure ServesFifo {Device : Type} (port : SdPort Device)
    (contents : Device → List (BitVec 32)) : Prop where
  empty : ∀ device, (port.sdStat device).getLsbD 0 = (contents device).isEmpty
  pop : ∀ device word rest, contents device = word :: rest →
    contents (port.storeRxFifo device) = rest ∧
      port.loadRxFifo (port.storeRxFifo device) = word

structure Drain (Device : Type) where
  device : Device
  iobuf : Nat → BitVec 32
  cnt : BitVec 32

section Drains

variable {Device : Type} (port : SdPort Device)

/-- The body of the loop of `queue_block_read`; `cnt < iobuflen` compares unsigned. -/
def drainWord (iobuflen : BitVec 32) (s : Drain Device) : Drain Device :=
  let device := port.storeRxFifo s.device
  let data := port.loadRxFifo device
  if s.cnt < iobuflen then
    { device := device
      iobuf := Function.update s.iobuf s.cnt.toNat data
      cnt := s.cnt + 1 }
  else { s with device := device }

def drainLoop (iobuflen : BitVec 32) : Nat → Drain Device → Option (Drain Device)
  | 0, _ => none
  | fuel + 1, s =>
      if 1 &&& ~~~port.sdStat s.device ≠ 0 then
        drainLoop iobuflen fuel (drainWord port iobuflen s)
      else some s

def queueBlockRead (fuel : Nat) (iobuf : Nat → BitVec 32) (iobuflen : BitVec 32)
    (device : Device) : Option (Drain Device) :=
  drainLoop port iobuflen fuel { device := device, iobuf := iobuf, cnt := 0 }

theorem ready_bit (stat : BitVec 32) : 1 &&& ~~~stat ≠ 0 ↔ stat.getLsbD 0 = false := by
  constructor
  · intro notReady
    cases bit : stat.getLsbD 0 with
    | false => rfl
    | true =>
        refine absurd (BitVec.eq_of_getLsbD_eq ?_) notReady
        intro index inside
        cases index with
        | zero => simp only [BitVec.getLsbD_and, BitVec.getLsbD_not, bit]; rfl
        | succ index => simp [BitVec.getLsbD_and]
  · intro bit none
    have low := congrArg (fun word => BitVec.getLsbD word 0) none
    simp only [BitVec.getLsbD_and, BitVec.getLsbD_not, bit] at low
    exact absurd low (by decide)

variable {port} {contents : Device → List (BitVec 32)}

theorem drain_word_stores (serves : ServesFifo port contents) (iobuflen : BitVec 32)
    (s : Drain Device) (word : BitVec 32) (rest : List (BitVec 32))
    (holds : contents s.device = word :: rest) (fits : s.cnt < iobuflen) :
    contents (drainWord port iobuflen s).device = rest ∧
      (drainWord port iobuflen s).cnt.toNat = s.cnt.toNat + 1 ∧
      (drainWord port iobuflen s).iobuf = Function.update s.iobuf s.cnt.toNat word := by
  rcases serves.pop s.device word rest holds with ⟨left, data⟩
  have below : s.cnt.toNat < iobuflen.toNat := fits
  have limit := iobuflen.isLt
  have count : (s.cnt + 1).toNat = s.cnt.toNat + 1 := by
    change (s.cnt.toNat + 1) % 2 ^ 32 = _
    exact Nat.mod_eq_of_lt (by omega)
  rw [drainWord, if_pos fits, data]
  exact ⟨left, count, rfl⟩

theorem drain_word_drops (serves : ServesFifo port contents) (iobuflen : BitVec 32)
    (s : Drain Device) (word : BitVec 32) (rest : List (BitVec 32))
    (holds : contents s.device = word :: rest) (full : ¬s.cnt < iobuflen) :
    contents (drainWord port iobuflen s).device = rest ∧
      (drainWord port iobuflen s).cnt = s.cnt ∧ (drainWord port iobuflen s).iobuf = s.iobuf := by
  rw [drainWord, if_neg full]
  exact ⟨(serves.pop s.device word rest holds).1, rfl, rfl⟩

/-- What is left of the loop stores the next words as long as there is room, and
pops the others. -/
theorem drain_loop_stores (serves : ServesFifo port contents) (iobuflen : BitVec 32)
    (spare : Nat) (words : List (BitVec 32)) (s : Drain Device)
    (holds : contents s.device = words) (room : s.cnt.toNat ≤ iobuflen.toNat) :
    ∃ last, drainLoop port iobuflen (spare + words.length + 1) s = some last ∧
      contents last.device = [] ∧
      last.cnt.toNat = min (s.cnt.toNat + words.length) iobuflen.toNat ∧
      (∀ index word, words[index]? = some word → s.cnt.toNat + index < iobuflen.toNat →
        last.iobuf (s.cnt.toNat + index) = word) ∧
      ∀ place, place < s.cnt.toNat ∨ min (s.cnt.toNat + words.length) iobuflen.toNat ≤ place →
        last.iobuf place = s.iobuf place := by
  induction words generalizing s with
  | nil =>
      have stop : ¬1 &&& ~~~port.sdStat s.device ≠ 0 := by
        rw [ready_bit, serves.empty, holds]
        decide
      refine ⟨s, if_neg stop, holds, ?_, ?_, fun _ _ => rfl⟩
      · rw [List.length_nil, Nat.add_zero, Nat.min_eq_left room]
      · intro index word found
        exact absurd found (by simp)
  | cons word rest ih =>
      have more : 1 &&& ~~~port.sdStat s.device ≠ 0 := by
        rw [ready_bit, serves.empty, holds]
        rfl
      have round : drainLoop port iobuflen (spare + (word :: rest).length + 1) s =
          drainLoop port iobuflen (spare + rest.length + 1) (drainWord port iobuflen s) :=
        if_pos more
      rw [round, List.length_cons]
      by_cases fits : s.cnt < iobuflen
      · have below : s.cnt.toNat < iobuflen.toNat := fits
        rcases drain_word_stores serves iobuflen s word rest holds fits with
          ⟨left, count, written⟩
        obtain ⟨last, ends, empty, total, stored, kept⟩ :=
          ih (drainWord port iobuflen s) left (count.trans_le below)
        rw [count] at total stored kept
        rw [written] at kept
        refine ⟨last, ends, empty, by omega, ?_, ?_⟩
        · intro index found here inside
          cases index with
          | zero =>
              have first := kept s.cnt.toNat (Or.inl (Nat.lt_succ_self _))
              rw [Function.update_self] at first
              exact first.trans (Option.some.inj here)
          | succ index =>
              have place : s.cnt.toNat + 1 + index = s.cnt.toNat + (index + 1) := by omega
              have later := stored index found here (by omega)
              rw [place] at later
              exact later
        · intro place outside
          have elsewhere : place ≠ s.cnt.toNat := by omega
          rw [kept place (by omega), Function.update_of_ne elsewhere]
      · have full : ¬s.cnt.toNat < iobuflen.toNat := fits
        rcases drain_word_drops serves iobuflen s word rest holds fits with ⟨left, count, same⟩
        obtain ⟨last, ends, empty, total, stored, kept⟩ :=
          ih (drainWord port iobuflen s) left (by rw [count]; exact room)
        rw [count] at total kept
        rw [same] at kept
        refine ⟨last, ends, empty, by omega, ?_, ?_⟩
        · intro index found here inside
          exact absurd inside (by omega)
        · intro place outside
          exact kept place (by omega)

/-- The loop of `queue_block_read` ends, empties the FIFO and stores the words there is
room for. -/
theorem queue_block_read_stores (serves : ServesFifo port contents) (device : Device)
    (iobuf : Nat → BitVec 32) (iobuflen : BitVec 32) (fuel : Nat)
    (enough : (contents device).length < fuel) :
    ∃ last, queueBlockRead port fuel iobuf iobuflen device = some last ∧
      contents last.device = [] ∧
      last.cnt.toNat = min (contents device).length iobuflen.toNat ∧
      (∀ index word, (contents device)[index]? = some word → index < iobuflen.toNat →
        last.iobuf index = word) ∧
      ∀ place, min (contents device).length iobuflen.toNat ≤ place →
        last.iobuf place = iobuf place := by
  obtain ⟨spare, rfl⟩ := Nat.exists_eq_add_of_lt enough
  obtain ⟨last, ends, empty, total, stored, kept⟩ :=
    drain_loop_stores serves iobuflen spare (contents device)
      { device := device, iobuf := iobuf, cnt := 0 } rfl (Nat.zero_le _)
  have start : (0 : BitVec 32).toNat = 0 := rfl
  simp only [start, Nat.zero_add] at total stored kept
  refine ⟨last, ?_, empty, total, stored, fun place behind => kept place (Or.inr behind)⟩
  rw [queueBlockRead, Nat.add_comm (contents device).length spare]
  exact ends

/-- The calls of `sd_read_sector` that write, up to the read command. Those that only
read change nothing the rest depends on. -/
def sectorCalls (sect : BitVec 32) : List (BitVec 32 × UartRegister) :=
  [(0xFFFFFFFF, .intStatus), (0x00000200, .argument), (0x0000101A, .command),
    (0x00000001, .intStatus), (0xFFFFFFFF, .intStatus), (0xFFFFFFFF, .intStatus),
    (0x000001F4, .timeoutControl), (0x00000200, .blockSize), (0x00000001, .blockCount),
    (0x00000012, .transferMode), (sect, .argument), (0x0000113A, .command)]

def closingCalls : List (BitVec 32 × UartRegister) :=
  [(0x00000001, .intStatus), (0xFFFFFFFF, .intStatus)]

def accessesOf : Statics → List (BitVec 32 × UartRegister) → List Operation
  | _, [] => []
  | v, call :: calls =>
      minionUartWrite v call.1 call.2 ++ accessesOf (staticsAfter v call.1 call.2) calls

def staticsOf (v : Statics) (calls : List (BitVec 32 × UartRegister)) : Statics :=
  calls.foldl (fun v call => staticsAfter v call.1 call.2) v

variable (port)

def performAll (accesses : List Operation) (device : Device) : Option Device :=
  accesses.foldlM (fun device access => port.perform access device) device

structure Machine (Device : Type) where
  device : Device
  statics : Statics
  iobuf : Nat → BitVec 32
  memory : Memory

/-- `sd_read_sector(sect, buf, max)`; `max` is not used. `none` when a poll or the drain
loop does not end. -/
def sdReadSector (fuel : Nat) (sect : BitVec 32) (buf _max : Nat) (m : Machine Device) :
    Option (BitVec 32 × Machine Device) := do
  let commanded ← performAll port (accessesOf m.statics (sectorCalls sect)) m.device
  let statics := staticsOf m.statics (sectorCalls sect)
  let drained ← queueBlockRead port fuel m.iobuf 512 commanded
  let closed ← performAll port (accessesOf statics closingCalls) drained.device
  return (drained.cnt, {
    device := closed
    statics := staticsOf statics closingCalls
    iobuf := drained.iobuf
    memory :=
      storeWords buf (fun index => toCpu (drained.iobuf index)) drained.cnt.toNat m.memory })

/-- The calls behind the drain access nothing. -/
theorem closing_accesses (v : Statics) : accessesOf v closingCalls = [] := rfl

variable {port}

/-- A call that returns has drained the FIFO behind its read command. -/
theorem sd_read_sector_returns {fuel : Nat} {sect len : BitVec 32} {buf max : Nat}
    {m last : Machine Device}
    (returns : sdReadSector port fuel sect buf max m = some (len, last)) :
    ∃ commanded drained,
      performAll port (accessesOf m.statics (sectorCalls sect)) m.device = some commanded ∧
        queueBlockRead port fuel m.iobuf 512 commanded = some drained ∧
        last.device = drained.device := by
  simp only [sdReadSector, closing_accesses, Option.bind_eq_bind, Option.bind_eq_some_iff]
    at returns
  obtain ⟨commanded, finished, drained, ends, closed, same, result⟩ := returns
  have device : closed = drained.device := (Option.some.inj same).symm
  rw [device] at result
  exact ⟨commanded, drained, finished, ends, (congrArg (·.2.device) (Option.some.inj result)).symm⟩

/-- Once the read command has finished, the words in the FIFO decide what is stored. -/
theorem sd_read_sector_stores (serves : ServesFifo port contents) (fuel : Nat)
    (sect : BitVec 32) (buf max : Nat) (m : Machine Device) (commanded : Device)
    (finished : performAll port (accessesOf m.statics (sectorCalls sect)) m.device =
      some commanded)
    (enough : (contents commanded).length < fuel) :
    ∃ len last, sdReadSector port fuel sect buf max m = some (len, last) ∧
      len.toNat = min (contents commanded).length 512 ∧ contents last.device = [] ∧
      (∀ index word, (contents commanded)[index]? = some word → index < 512 →
        ∀ place, place < 4 →
          last.memory (buf + (4 * index + place)) = wordByte (toCpu word) place) ∧
      ∀ address, address < buf ∨ buf + 4 * min (contents commanded).length 512 ≤ address →
        last.memory address = m.memory address := by
  obtain ⟨drained, ends, empty, total, stored, kept⟩ :=
    queue_block_read_stores serves commanded m.iobuf 512 fuel enough
  have limit : (512 : BitVec 32).toNat = 512 := rfl
  rw [limit] at total stored
  have result : sdReadSector port fuel sect buf max m =
      some (drained.cnt, {
        device := drained.device
        statics := staticsOf (staticsOf m.statics (sectorCalls sect)) closingCalls
        iobuf := drained.iobuf
        memory :=
          storeWords buf (fun index => toCpu (drained.iobuf index)) drained.cnt.toNat
            m.memory }) := by
    rw [sdReadSector, finished]
    simp only [Option.bind_eq_bind, Option.bind_some, ends, closing_accesses]
    rfl
  refine ⟨drained.cnt, _, result, total, empty, ?_, ?_⟩
  · intro index word here inside place byte
    have listed : index < (contents commanded).length := (List.getElem?_eq_some_iff.mp here).1
    have quotient : (4 * index + place) / 4 = index := by omega
    have remainder : (4 * index + place) % 4 = place := by omega
    have byteStored := store_words_byte m.memory buf (fun index => toCpu (drained.iobuf index))
      drained.cnt.toNat (4 * index + place) (by omega)
    rw [quotient, remainder, stored index word here inside] at byteStored
    exact byteStored
  · intro address outside
    exact store_words_frame m.memory buf _ _ address (by omega)

/-- A 512-byte block that the read on four lanes has packed into 128 words. -/
def PackedBlock (bytes : Nat → BitVec 8) (words : List (BitVec 32)) : Prop :=
  words.length = 128 ∧
    ∃ (gap later : Nat) (checks : Fin 4 → BitVec 16) (start : SdDataSerialHost.State)
      (inputs : Nat → SdDataSerialHost.Inputs),
      ReadRequest true 512 gap start inputs ∧
        CardSends (fun clock => (inputs clock).datDatI) gap 512 bytes checks ∧
        gap + 2 * 512 + 19 ≤ later ∧
        words = transferred push (run SdDataSerialHost.step start inputs) 1 later

theorem packed_block_words {bytes : Nat → BitVec 8} {words : List (BitVec 32)}
    (packed : PackedBlock bytes words) : words = (List.range 128).map (blockWord bytes) := by
  rcases packed with ⟨length, gap, later, checks, start, inputs, request, card, past, pushed⟩
  rw [pushes_of_block (by decide) request card later past] at pushed
  have nothing : leftover start = [] := by
    have total := congrArg List.length pushed
    rw [length, List.length_append, List.length_map, List.length_range] at total
    exact List.length_eq_zero_iff.mp (by omega)
  rw [pushed, nothing]
  rfl

/-- Whatever the FIFO holds when a read command has finished, the drain loop ends,
empties it and stores the words there is room for; and a packed block reaches the
sector buffer byte by byte in the order of the bus. -/
theorem sector_byte_order (serves : ServesFifo port contents) :
    (∀ (device : Device) (iobuf : Nat → BitVec 32) (iobuflen : BitVec 32) (fuel : Nat),
      (contents device).length < fuel →
        ∃ last, queueBlockRead port fuel iobuf iobuflen device = some last ∧
          contents last.device = [] ∧
          last.cnt.toNat = min (contents device).length iobuflen.toNat ∧
          (∀ index word, (contents device)[index]? = some word → index < iobuflen.toNat →
            last.iobuf index = word) ∧
          ∀ place, min (contents device).length iobuflen.toNat ≤ place →
            last.iobuf place = iobuf place) ∧
      ∀ (bytes : Nat → BitVec 8) (sect : BitVec 32) (buf max fuel : Nat) (m : Machine Device)
        (commanded : Device),
        performAll port (accessesOf m.statics (sectorCalls sect)) m.device = some commanded →
          PackedBlock bytes (contents commanded) → 128 < fuel →
          ∃ len last, sdReadSector port fuel sect buf max m = some (len, last) ∧
            len.toNat = 128 ∧ contents last.device = [] ∧
            (∀ offset, offset < 512 → last.memory (buf + offset) = bytes offset) ∧
            ∀ address, address < buf ∨ buf + 512 ≤ address →
              last.memory address = m.memory address := by
  refine ⟨queue_block_read_stores serves, ?_⟩
  intro bytes sect buf max fuel m commanded finished packed enough
  have words := packed_block_words packed
  have length : (contents commanded).length = 128 := packed.1
  obtain ⟨len, last, result, total, empty, stored, kept⟩ :=
    sd_read_sector_stores serves fuel sect buf max m commanded finished (by omega)
  rw [length] at total kept
  refine ⟨len, last, result, total, empty, ?_, kept⟩
  intro offset inside
  have word : (contents commanded)[offset / 4]? = some (blockWord bytes (offset / 4)) := by
    have listed : offset / 4 < 128 := by omega
    rw [words]
    simp [listed]
  have byte := stored (offset / 4) _ word (by omega) (offset % 4) (Nat.mod_lt _ (by decide))
  rw [to_cpu_block_word bytes _ _ (Nat.mod_lt _ (by decide)), Nat.div_add_mod] at byte
  exact byte

end Drains

structure RxFifo where
  contents : List (BitVec 32)
  out : BitVec 32

def RxFifo.store (fifo : RxFifo) : RxFifo :=
  match fifo.contents with
  | [] => fifo
  | word :: rest => { contents := rest, out := word }

def RxFifo.status (fifo : RxFifo) : BitVec 32 :=
  (BitVec.ofBool fifo.contents.isEmpty).setWidth 32

theorem rx_fifo_serves {Device : Type} (rxFifo : Device → RxFifo) (port : SdPort Device)
    (stat : ∀ device, port.sdStat device = (rxFifo device).status)
    (store : ∀ device, rxFifo (port.storeRxFifo device) = (rxFifo device).store)
    (load : ∀ device, port.loadRxFifo device = (rxFifo device).out) :
    ServesFifo port fun device => (rxFifo device).contents where
  empty := by
    intro device
    rw [stat, RxFifo.status]
    cases (rxFifo device).contents.isEmpty <;> rfl
  pop := by
    intro device word rest holds
    rw [load, store, RxFifo.store, holds]
    exact ⟨rfl, rfl⟩

private def numbers (index : Nat) : BitVec 8 := BitVec.ofNat 8 index

private def numbersInputs (clock : Nat) : SdDataSerialHost.Inputs where
  rst := false
  dataIn := 0
  datDatI :=
    if clock < 3 then 0xF
    else if clock = 3 then 0
    else if clock < 1028 then blockNibble numbers (clock - 4)
    else 0xF
  blksize := 512
  bus4bit := true
  start := 2
  timeoutI := 500

private theorem numbers_request :
    ReadRequest true 512 3 SdDataSerialHost.afterReset numbersInputs where
  idle := rfl
  released := fun _ => rfl
  start := fun _ => rfl
  bus := rfl
  blksize := rfl
  ready := by decide
  patient := by decide

private theorem numbers_card :
    CardSends (fun clock => (numbersInputs clock).datDatI) 3 512 numbers (fun _ => 0xFFFF) where
  idle := fun clock before => if_pos before
  startBit := rfl
  data := by
    intro index inside
    have place : 3 + 1 + index = index + 4 := by omega
    have past : ¬index + 4 < 3 ∧ index + 4 ≠ 3 ∧ index + 4 < 1028 := by omega
    simp only [numbersInputs, place, past, if_false, if_true, Nat.add_sub_cancel]
  check := by
    intro index inside lane
    have past : ¬3 + 1 + 2 * 512 + index < 3 ∧ 3 + 1 + 2 * 512 + index ≠ 3 ∧
        ¬3 + 1 + 2 * 512 + index < 1028 := by omega
    simp only [numbersInputs, past, if_false]
    fin_cases lane <;> interval_cases index <;> rfl

private def numbersWords : List (BitVec 32) :=
  transferred push (run SdDataSerialHost.step SdDataSerialHost.afterReset numbersInputs) 1 1100

private theorem numbers_packed : PackedBlock numbers numbersWords := by
  have pushed : numbersWords = (List.range 128).map (blockWord numbers) :=
    pushes_of_block (by decide) numbers_request numbers_card 1100 (by decide)
  refine ⟨by rw [pushed, List.length_map, List.length_range], ?_⟩
  exact ⟨3, 1100, _, _, _, numbers_request, numbers_card, by decide, rfl⟩

/-- The wait for `finish_data` fills the FIFO with the block. -/
private def numbersPort : SdPort RxFifo where
  perform := fun access fifo =>
    match access with
    | .waitAll mask =>
        if mask.getLsbD 10 then some { fifo with contents := fifo.contents ++ numbersWords }
        else some fifo
    | _ => some fifo
  sdStat := RxFifo.status
  storeRxFifo := RxFifo.store
  loadRxFifo := RxFifo.out

private def numbersMachine : Machine RxFifo where
  device := { contents := [], out := 0 }
  statics := { minionUartHostControl := 2, minionUartTransferMode := 0 }
  iobuf := fun _ => 0
  memory := fun _ => 0

theorem sector_byte_order_of_numbers :
    ∃ len last, sdReadSector numbersPort 200 7 0x2000 512 numbersMachine = some (len, last) ∧
      len.toNat = 128 ∧ last.device.contents = [] ∧
      (∀ offset, offset < 512 → last.memory (0x2000 + offset) = BitVec.ofNat 8 offset) ∧
      ∀ address, address < 0x2000 ∨ 0x2000 + 512 ≤ address →
        last.memory address = numbersMachine.memory address :=
  (sector_byte_order
    (rx_fifo_serves id numbersPort (fun _ => rfl) (fun _ => rfl) (fun _ => rfl))).2 numbers 7 0x2000
      512 200 numbersMachine { contents := numbersWords, out := 0 } rfl numbers_packed (by decide)

end MinionSubsystem.SectorRead
