import MinionSubsystem.ByteMemory

/-!
# Packets of the Ethernet debug link

A packet is a 16-bit offset, a control word, an address and data, each word with its
most significant byte first. Here are the client's side, up to what it does with one
response, and a board that executes a request only under its own sequence number.
-/

namespace MinionSubsystem.Edcl

open MinionSubsystem.ByteMemory

set_option autoImplicit false

/-- `EdclControlRequestType` and `EdclControlResponseType`. The flag is `write` in the one and
`nak` in the other. -/
structure Control where
  unused : BitVec 7
  len : BitVec 10
  flag : BitVec 1
  seqidx : BitVec 14
  deriving DecidableEq, Repr

/-- The bit fields from the least significant bit on. -/
def Control.word (control : Control) : BitVec 32 :=
  control.seqidx ++ (control.flag ++ (control.len ++ control.unused))

def Control.ofWord (word : BitVec 32) : Control where
  unused := word.extractLsb' 0 7
  len := word.extractLsb' 7 10
  flag := word.extractLsb' 17 1
  seqidx := word.extractLsb' 18 14

def write16 (v : BitVec 16) : List (BitVec 8) :=
  [((v >>> 8) &&& 0xFF).setWidth 8, (v &&& 0xFF).setWidth 8]

def write32 (v : BitVec 32) : List (BitVec 8) :=
  [((v >>> 24) &&& 0xFF).setWidth 8, ((v >>> 16) &&& 0xFF).setWidth 8,
    ((v >>> 8) &&& 0xFF).setWidth 8, (v &&& 0xFF).setWidth 8]

def read32 (buf : Nat → BitVec 8) (off : Nat) : BitVec 32 :=
  (buf off).setWidth 32 <<< 24 ||| (buf (off + 1)).setWidth 32 <<< 16 |||
    (buf (off + 2)).setWidth 32 <<< 8 ||| (buf (off + 3)).setWidth 32 <<< 0

def packet (offset : BitVec 16) (control : Control) (address : BitVec 32)
    (data : List (BitVec 8)) : List (BitVec 8) :=
  write16 offset ++ write32 control.word ++ write32 address ++ data

def bytesOf (datagram : List (BitVec 8)) (place : Nat) : BitVec 8 := datagram.getD place 0

theorem control_of_word (control : Control) : Control.ofWord control.word = control := by
  obtain ⟨unused, len, flag, seqidx⟩ := control
  rw [Control.ofWord, Control.word]
  congr 1
  all_goals
    apply BitVec.eq_of_getLsbD_eq
    intro index inside
    simp only [BitVec.getLsbD_extractLsb', BitVec.getLsbD_append]
    interval_cases index <;> rfl

/-- Four bytes that start with the most significant one are read back as the word. -/
theorem read_32_bytes (v : BitVec 32) (buf : Nat → BitVec 8) (off : Nat)
    (written : ∀ place, place < 4 → buf (off + place) = (write32 v).getD place 0) :
    read32 buf off = v := by
  have first : buf off = ((v >>> 24) &&& 0xFF).setWidth 8 := written 0 (by decide)
  have second : buf (off + 1) = ((v >>> 16) &&& 0xFF).setWidth 8 := written 1 (by decide)
  have third : buf (off + 2) = ((v >>> 8) &&& 0xFF).setWidth 8 := written 2 (by decide)
  have last : buf (off + 3) = (v &&& 0xFF).setWidth 8 := written 3 (by decide)
  rw [read32, first, second, third, last]
  apply BitVec.eq_of_getLsbD_eq
  intro index inside
  interval_cases index <;> simp

@[simp] theorem packet_length (offset : BitVec 16) (control : Control) (address : BitVec 32)
    (data : List (BitVec 8)) : (packet offset control address data).length = 10 + data.length := by
  simp [packet, write16, write32]
  omega

theorem packet_control (offset : BitVec 16) (control : Control) (address : BitVec 32)
    (data : List (BitVec 8)) :
    read32 (bytesOf (packet offset control address data)) 2 = control.word := by
  apply read_32_bytes
  intro place inside
  interval_cases place <;> rfl

theorem packet_address (offset : BitVec 16) (control : Control) (address : BitVec 32)
    (data : List (BitVec 8)) :
    read32 (bytesOf (packet offset control address data)) 6 = address := by
  apply read_32_bytes
  intro place inside
  interval_cases place <;> rfl

theorem packet_data (offset : BitVec 16) (control : Control) (address : BitVec 32)
    (data : List (BitVec 8)) : (packet offset control address data).drop 10 = data := rfl

def payloadMaxWords32 : Nat := 8

def payloadMaxBytes : Nat := 4 * payloadMaxWords32

inductive Received where
  | error
  | timeout
  | datagram (bytes : List (BitVec 8))

/-- `UdpService::readData` into a buffer of 4096 bytes. -/
def readData (received : Received) (buf : Nat → BitVec 8) : Int × (Nat → BitVec 8) :=
  match received with
  | .error => (-1, buf)
  | .timeout => (0, buf)
  | .datagram bytes =>
      let res := min bytes.length 4096
      (res, storeBytes 0 res (bytesOf bytes) buf)

structure Client where
  seqCnt : BitVec 64
  rxBuf : Nat → BitVec 8

def chunkLen (bytes doneBytes : Nat) : BitVec 10 :=
  if bytes - doneBytes > payloadMaxBytes then BitVec.ofNat 10 payloadMaxBytes
  else BitVec.ofNat 10 (bytes - doneBytes)

def request (seqCnt : BitVec 64) (write : BitVec 1) (addr : BitVec 64) (bytes doneBytes : Nat) :
    Control × BitVec 32 :=
  ({ unused := 0
     len := chunkLen bytes doneBytes
     flag := write
     seqidx := (seqCnt.setWidth 32).setWidth 14 },
    (addr + BitVec.ofNat 64 doneBytes).setWidth 32)

/-- A call of `EdclService::read` before one of its rounds. -/
structure Reading where
  client : Client
  rdBytes : Nat
  obuf : Nat → BitVec 8

def readRequest (addr : BitVec 64) (bytes : Nat) (reading : Reading) : List (BitVec 8) :=
  let (control, address) := request reading.client.seqCnt 0 addr bytes reading.rdBytes
  write16 0 ++ write32 control.word ++ write32 address

/-- The rest of the round; `none` where it ends the call with -1. -/
def readReceived (reading : Reading) (received : Received) : Client × Option Reading :=
  let (off, rxBuf) := readData received reading.client.rxBuf
  let client := { reading.client with rxBuf := rxBuf }
  if off = -1 then (client, none)
  else if off = 0 then (client, none)
  else
    let rsp := Control.ofWord (read32 rxBuf 2)
    if rsp.flag = 1 then
      let client := { client with seqCnt := rsp.seqidx.setWidth 64 }
      (client, some { reading with client := client })
    else
      let client := { client with seqCnt := client.seqCnt + 1 }
      (client, some {
        client := client
        rdBytes := reading.rdBytes + rsp.len.toNat
        obuf := storeBytes reading.rdBytes rsp.len.toNat (fun place => rxBuf (10 + place))
          reading.obuf })

structure Writing where
  client : Client
  wrBytes : Nat

def writeRequest (addr : BitVec 64) (bytes : Nat) (ibuf : Nat → BitVec 8) (writing : Writing) :
    List (BitVec 8) :=
  let (control, address) := request writing.client.seqCnt 1 addr bytes writing.wrBytes
  write16 0 ++ write32 control.word ++ write32 address ++
    (List.range control.len.toNat).map fun place => ibuf (writing.wrBytes + place)

/-- The rest of the round. What was sent is counted, whatever length the response has. -/
def writeReceived (bytes : Nat) (writing : Writing) (received : Received) :
    Client × Option Writing :=
  let (off, rxBuf) := readData received writing.client.rxBuf
  let client := { writing.client with rxBuf := rxBuf }
  if off = -1 then (client, none)
  else if off = 0 then (client, none)
  else
    let rsp := Control.ofWord (read32 rxBuf 2)
    if rsp.flag = 1 then
      let client := { client with seqCnt := rsp.seqidx.setWidth 64 }
      (client, some { writing with client := client })
    else
      let client := { client with seqCnt := client.seqCnt + 1 }
      (client, some {
        client := client
        wrBytes := writing.wrBytes + (chunkLen bytes writing.wrBytes).toNat })

structure Executed where
  write : Bool
  address : BitVec 32
  data : List (BitVec 8)
  deriving DecidableEq, Repr

structure Board where
  counter : BitVec 14
  memory : BitVec 32 → BitVec 8
  executed : List Executed

/-- The fields of a response that are left to the board. -/
structure Fill where
  offset : BitVec 16
  unused : BitVec 7
  nakLen : BitVec 10
  ackSeq : BitVec 14
  address : BitVec 32
  deriving DecidableEq, Repr

def boardRead (memory : BitVec 32 → BitVec 8) (address : BitVec 32) (len : Nat) :
    List (BitVec 8) :=
  (List.range len).map fun place => memory (address + BitVec.ofNat 32 place)

def boardWrite (memory : BitVec 32 → BitVec 8) (address : BitVec 32) (data : List (BitVec 8))
    (place : BitVec 32) : BitVec 8 :=
  if (place - address).toNat < data.length then data.getD (place - address).toNat 0
  else memory place

/-- The response to a request: executed if it has the board's number, else refused with it. -/
def Board.answer (fill : Fill) (datagram : List (BitVec 8)) (board : Board) :
    Board × List (BitVec 8) :=
  let control := Control.ofWord (read32 (bytesOf datagram) 2)
  let address := read32 (bytesOf datagram) 6
  if control.seqidx = board.counter then
    let ack : Control :=
      { unused := fill.unused, len := control.len, flag := 0, seqidx := fill.ackSeq }
    if control.flag = 1 then
      let data := (datagram.drop 10).take control.len.toNat
      ({ counter := board.counter + 1
         memory := boardWrite board.memory address data
         executed := board.executed ++ [{ write := true, address := address, data := data }] },
        packet fill.offset ack fill.address [])
    else
      let data := boardRead board.memory address control.len.toNat
      ({ board with
         counter := board.counter + 1
         executed := board.executed ++ [{ write := false, address := address, data := data }] },
        packet fill.offset ack fill.address data)
  else
    let nak : Control :=
      { unused := fill.unused, len := fill.nakLen, flag := 1, seqidx := board.counter }
    (board, packet fill.offset nak fill.address [])

def filled (rxBuf : Nat → BitVec 8) (datagram : List (BitVec 8)) : Nat → BitVec 8 :=
  storeBytes 0 datagram.length (bytesOf datagram) rxBuf

theorem read_data_packet (rxBuf : Nat → BitVec 8) (datagram : List (BitVec 8))
    (short : datagram.length ≤ 4096) :
    readData (.datagram datagram) rxBuf = ((datagram.length : Int), filled rxBuf datagram) := by
  simp only [readData, Nat.min_eq_left short, filled]

theorem filled_byte (rxBuf : Nat → BitVec 8) (datagram : List (BitVec 8)) (place : Nat)
    (inside : place < datagram.length) :
    filled rxBuf datagram place = bytesOf datagram place := by
  have stored := store_bytes_byte rxBuf 0 datagram.length (bytesOf datagram) place inside
  rwa [Nat.zero_add] at stored

section

variable (offset : BitVec 16) (control : Control) (address : BitVec 32) (data : List (BitVec 8))

theorem filled_control (rxBuf : Nat → BitVec 8) :
    Control.ofWord (read32 (filled rxBuf (packet offset control address data)) 2) = control := by
  have same : read32 (filled rxBuf (packet offset control address data)) 2 =
      read32 (bytesOf (packet offset control address data)) 2 := by
    have inside : ∀ place, place < 10 →
        filled rxBuf (packet offset control address data) place =
          bytesOf (packet offset control address data) place := by
      intro place early
      exact filled_byte rxBuf _ place (by rw [packet_length]; omega)
    rw [read32, read32, inside 2 (by decide), inside (2 + 1) (by decide),
      inside (2 + 2) (by decide), inside (2 + 3) (by decide)]
  rw [same, packet_control, control_of_word]

theorem filled_data (rxBuf : Nat → BitVec 8) (place : Nat) (inside : place < data.length) :
    filled rxBuf (packet offset control address data) (10 + place) = bytesOf data place := by
  rw [filled_byte _ _ _ (by rw [packet_length]; omega), Nat.add_comm]
  rfl

/-- A refusal changes only the client's number. -/
theorem read_received_nak (reading : Reading) (short : data.length ≤ 1023)
    (nak : control.flag = 1) :
    ∃ rxBuf, readReceived reading (.datagram (packet offset control address data)) =
      ({ seqCnt := control.seqidx.setWidth 64, rxBuf := rxBuf },
        some { reading with
          client := { seqCnt := control.seqidx.setWidth 64, rxBuf := rxBuf } }) := by
  have length := packet_length offset control address data
  refine ⟨filled reading.client.rxBuf (packet offset control address data), ?_⟩
  rw [readReceived, read_data_packet _ _ (by omega)]
  simp only [filled_control, nak, if_true]
  rw [if_neg (by omega), if_neg (by omega)]

/-- The data of an acknowledgement is stored behind what has been read. -/
theorem read_received_ack (reading : Reading) (ack : control.flag = 0)
    (length : data.length = control.len.toNat) :
    ∃ rxBuf, readReceived reading (.datagram (packet offset control address data)) =
      ({ seqCnt := reading.client.seqCnt + 1, rxBuf := rxBuf },
        some {
          client := { seqCnt := reading.client.seqCnt + 1, rxBuf := rxBuf }
          rdBytes := reading.rdBytes + data.length
          obuf := storeBytes reading.rdBytes data.length (bytesOf data) reading.obuf }) := by
  have total := packet_length offset control address data
  have short := control.len.isLt
  have apart : ¬((0 : BitVec 1) = 1) := by decide
  have stored := store_bytes_congr reading.obuf reading.rdBytes data.length
    (fun place => filled reading.client.rxBuf (packet offset control address data) (10 + place))
    (bytesOf data) (filled_data offset control address data reading.client.rxBuf)
  refine ⟨filled reading.client.rxBuf (packet offset control address data), ?_⟩
  rw [readReceived, read_data_packet _ _ (by omega)]
  simp only [filled_control, ack, apart, if_false, ← length, stored]
  rw [if_neg (by omega), if_neg (by omega)]

theorem write_received_nak (bytes : Nat) (writing : Writing) (short : data.length ≤ 1023)
    (nak : control.flag = 1) :
    ∃ rxBuf, writeReceived bytes writing (.datagram (packet offset control address data)) =
      ({ seqCnt := control.seqidx.setWidth 64, rxBuf := rxBuf },
        some { writing with
          client := { seqCnt := control.seqidx.setWidth 64, rxBuf := rxBuf } }) := by
  have length := packet_length offset control address data
  refine ⟨filled writing.client.rxBuf (packet offset control address data), ?_⟩
  rw [writeReceived, read_data_packet _ _ (by omega)]
  simp only [filled_control, nak, if_true]
  rw [if_neg (by omega), if_neg (by omega)]

theorem write_received_ack (bytes : Nat) (writing : Writing) (short : data.length ≤ 1023)
    (ack : control.flag = 0) :
    ∃ rxBuf, writeReceived bytes writing (.datagram (packet offset control address data)) =
      ({ seqCnt := writing.client.seqCnt + 1, rxBuf := rxBuf },
        some {
          client := { seqCnt := writing.client.seqCnt + 1, rxBuf := rxBuf }
          wrBytes := writing.wrBytes + (chunkLen bytes writing.wrBytes).toNat }) := by
  have length := packet_length offset control address data
  have apart : ¬((0 : BitVec 1) = 1) := by decide
  refine ⟨filled writing.client.rxBuf (packet offset control address data), ?_⟩
  rw [writeReceived, read_data_packet _ _ (by omega)]
  simp only [filled_control, ack, apart, if_false]
  rw [if_neg (by omega), if_neg (by omega)]

/-- A request under another number is refused, and nothing else happens. -/
theorem answer_refused (fill : Fill) (board : Board) (other : control.seqidx ≠ board.counter) :
    board.answer fill (packet offset control address data) =
      (board, packet fill.offset
        { unused := fill.unused, len := fill.nakLen, flag := 1, seqidx := board.counter }
        fill.address []) := by
  simp only [Board.answer, packet_control, control_of_word]
  exact if_neg other

theorem answer_read (fill : Fill) (board : Board) (current : control.seqidx = board.counter)
    (read : control.flag = 0) :
    board.answer fill (packet offset control address data) =
      ({ board with
         counter := board.counter + 1
         executed := board.executed ++ [{
          write := false
          address := address
          data := boardRead board.memory address control.len.toNat }] },
        packet fill.offset
          { unused := fill.unused, len := control.len, flag := 0, seqidx := fill.ackSeq }
          fill.address (boardRead board.memory address control.len.toNat)) := by
  have apart : ¬((0 : BitVec 1) = 1) := by decide
  simp only [Board.answer, packet_control, control_of_word, packet_address, current, read, apart,
    if_true, if_false]

theorem answer_write (fill : Fill) (board : Board) (current : control.seqidx = board.counter)
    (write : control.flag = 1) (length : data.length = control.len.toNat) :
    board.answer fill (packet offset control address data) =
      ({ counter := board.counter + 1
         memory := boardWrite board.memory address data
         executed := board.executed ++ [{ write := true, address := address, data := data }] },
        packet fill.offset
          { unused := fill.unused, len := control.len, flag := 0, seqidx := fill.ackSeq }
          fill.address []) := by
  have payload : ((packet offset control address data).drop 10).take control.len.toNat = data := by
    rw [packet_data, ← length, List.take_length]
  simp only [Board.answer, packet_control, control_of_word, packet_address, current, write,
    payload, if_true]

end

end MinionSubsystem.Edcl
