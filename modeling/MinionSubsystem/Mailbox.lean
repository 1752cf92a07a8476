import MinionSubsystem.ByteMemory
import MinionSubsystem.DataBus

/-!
# The mailbox interpreter of the bootstrap firmware

`hello` runs the program that the host has put into the mailbox: one slot of 16
bytes for each access, a slot of mode 0 behind the last, the sentinel in slot
256. The mailbox is memory. Everything else is a device of which nothing is
assumed: the value of a load may depend on all accesses made so far.
-/

namespace MinionSubsystem.Mailbox

open MinionSubsystem.ByteMemory
open MinionSubsystem.DataBus

set_option autoImplicit false

inductive Access where
  | loadByte (addr : BitVec 32)
  | storeByte (addr : BitVec 32) (data : BitVec 8)
  | load (addr : BitVec 32)
  | store (addr data : BitVec 32)
  deriving DecidableEq, Repr

/-- `history` holds the accesses outside the mailbox, oldest first. -/
structure World where
  mailbox : Memory
  history : List Access

/-- The value a load finds, given the accesses up to and including it. -/
abbrev Device := List Access → BitVec 32

def mailboxBase : BitVec 32 := 8 <<< 20

/-- Slots 0 to 255 and the sentinel's. -/
def mailboxSize : Nat := 0x1010

/-- The shared memory has 64 KiB: its `addrb` is `core_lsu_addr[15:4]`. -/
def mailboxOffset (addr : BitVec 32) : Nat := (addr.extractLsb' 0 16).toNat

/-- The address decoder ignores bits 31:24, the memory bits 19:16. -/
def inMailbox (addr : BitVec 32) : Bool :=
  region addr = 8 && mailboxOffset addr < mailboxSize

section Accesses

variable (respond : Device)

def loadByte (addr : BitVec 32) (w : World) : BitVec 8 × World :=
  if inMailbox addr then (w.mailbox (mailboxOffset addr), w)
  else
    let history := w.history ++ [.loadByte addr]
    ((respond history).setWidth 8, { w with history := history })

def storeByte (addr : BitVec 32) (data : BitVec 8) (w : World) : World :=
  if inMailbox addr then
    { w with
      mailbox := fun place => if place = mailboxOffset addr then data else w.mailbox place }
  else { w with history := w.history ++ [.storeByte addr data] }

def readCodeData32 (addr : BitVec 32) (w : World) : BitVec 32 × World :=
  if inMailbox addr then (loadWord w.mailbox (mailboxOffset addr), w)
  else
    let history := w.history ++ [.load addr]
    (respond history, { w with history := history })

def writeCodeData32 (addr data : BitVec 32) (w : World) : World :=
  if inMailbox addr then { w with mailbox := storeWord w.mailbox (mailboxOffset addr) data }
  else { w with history := w.history ++ [.store addr data] }

/-- `read_code_data8` fetches a word byte by byte. -/
def readCodeData8 (addr : BitVec 32) (w : World) : BitVec 32 × World :=
  let first := loadByte respond addr w
  let second := loadByte respond (addr + 1) first.2
  let third := loadByte respond (addr + 2) second.2
  let fourth := loadByte respond (addr + 3) third.2
  (first.1.setWidth 32 ||| second.1.setWidth 32 <<< 8 ||| third.1.setWidth 32 <<< 16 |||
    fourth.1.setWidth 32 <<< 24, fourth.2)

def statBase : BitVec 32 := 5 <<< 20

def uartBase : BitVec 32 := 2 <<< 20

def myStat (sel : Nat) (w : World) : BitVec 32 × World :=
  readCodeData32 respond (statBase + BitVec.ofNat 32 (4 * sel)) w

def myputchar (c : BitVec 8) (w : World) : World :=
  writeCodeData32 uartBase (c.setWidth 32) w

def myputs (str : String) (w : World) : World :=
  str.toList.foldl (fun w c => myputchar (BitVec.ofNat 8 c.toNat) w) w

def putDigit (n : BitVec 32) (w : World) : World :=
  let digit := n &&& 15
  myputchar ((if 9 < digit then digit + 0x37 else digit + 0x30).setWidth 8) w

def myputhex : Nat → BitVec 32 → World → World
  | 0, n, w => putDigit n w
  | 1, n, w => putDigit n w
  | width + 2, n, w => putDigit n (myputhex (width + 1) (n >>> 4) w)

def memcpy (dst src : BitVec 32) (count : Nat) (w : World) : World :=
  (List.range count).foldl
    (fun w i =>
      let byte := loadByte respond (src + BitVec.ofNat 32 i) w
      storeByte (dst + BitVec.ofNat 32 i) byte.1 byte.2) w

end Accesses

inductive EdclMode where
  | unknown
  | read
  | write
  | blockRead
  | bootstrap
  deriving DecidableEq, Repr

/-- The enumerator a mode word stands for, if any. -/
def edclMode (mode : BitVec 32) : Option EdclMode :=
  match mode.toNat with
  | 0 => some .unknown
  | 1 => some .read
  | 2 => some .write
  | 3 => some .blockRead
  | 4 => some .bootstrap
  | _ => none

def sentinel : BitVec 32 := 0xDEADBEEF

def lastAddr : BitVec 32 := mailboxBase + 256 <<< 4 + 12

def slotAddr (i : BitVec 32) : BitVec 32 := mailboxBase + i <<< 4

/-- How the loop over the slots is left: at a slot of mode 0 or behind a block read,
by the `return` of the default case, or into the program that was loaded. -/
inductive Exit where
  | acknowledge (i : BitVec 32)
  | unknownMode
  | jump (addr2 : BitVec 32)
  deriving DecidableEq, Repr

section Interpreter

variable (respond : Device)

/-- The loop of `edcl_mode_block_read`, with the `cnt` it ends with. -/
def blockRead (addr2 addr3 mask : BitVec 32) :
    Nat → BitVec 32 → BitVec 32 → World → Option (BitVec 32 × World)
  | 0, _, _, _ => none
  | fuel + 1, cnt, ready, w =>
      if mask &&& ~~~ready ≠ 0 then
        let data := readCodeData32 respond addr2 (writeCodeData32 addr2 0 w)
        let stat := myStat respond 0 (writeCodeData32 (addr3 + 16 + cnt <<< 2) data.1 data.2)
        blockRead addr2 addr3 mask fuel (cnt + 1) stat.1 stat.2
      else some (cnt, w)

def bootstrap (addr2 : BitVec 32) (w : World) : World :=
  let w := myputs "Bootstrapping from ethernet ...\r\n" w
  let w := memcpy respond 0x2000 (mailboxBase + 0x2000) 0xE000 w
  let w :=
    (List.range 8).foldl
      (fun w i =>
        let addr := addr2 + BitVec.ofNat 32 (4 * i)
        let w := myputchar 0x3A (myputhex 8 addr w)
        let word := readCodeData32 respond addr w
        myputchar 0x0A (myputchar 0x0D (myputhex 8 word.1 word.2))) w
  myputs "Bye.\r\n" w

def interpret (rounds : Nat) : Nat → BitVec 32 → World → Option (Exit × World)
  | 0, _, _ => none
  | fuel + 1, i, w =>
      let addr3 := slotAddr i
      let addr2 := readCodeData8 respond (addr3 + 4) (myStat respond 0 w).2
      let mode := readCodeData8 respond addr3 addr2.2
      match edclMode mode.1 with
      | some .unknown => some (.acknowledge (i + 1), mode.2)
      | some .read =>
          let data := readCodeData32 respond addr2.1 mode.2
          interpret rounds fuel (i + 1) (writeCodeData32 (addr3 + 12) data.1 data.2)
      | some .write =>
          let data := readCodeData8 respond (addr3 + 12) mode.2
          interpret rounds fuel (i + 1) (writeCodeData32 addr2.1 data.1 data.2)
      | some .blockRead =>
          let mask := readCodeData8 respond (addr3 + 12) mode.2
          let ready := myStat respond 0 mask.2
          (blockRead respond addr2.1 addr3 mask.1 rounds 0 ready.1 ready.2).map fun read =>
            (.acknowledge (read.1 + 1), read.2)
      | some .bootstrap => some (.jump addr2.1, bootstrap respond addr2.1 mode.2)
      | none => some (.unknownMode, myputs "unknown mode\r\n" mode.2)

def waitSentinel : Nat → World → Option World
  | 0, _ => none
  | fuel + 1, w =>
      let addr4 := readCodeData8 respond lastAddr w
      if addr4.1 ≠ sentinel then waitSentinel fuel addr4.2 else some addr4.2

def acknowledge (i : BitVec 32) (w : World) : World :=
  writeCodeData32 lastAddr 0
    (writeCodeData32 (mailboxBase + 4) 0 (writeCodeData32 mailboxBase i w))

/-- `hello`, every loop for at most `fuel` rounds. -/
def hello (fuel : Nat) (w : World) : Option (Exit × World) := do
  let armed ← waitSentinel respond fuel w
  let left ← interpret respond fuel fuel 0 armed
  match left.1 with
  | .acknowledge i => return (left.1, acknowledge i left.2)
  | .unknownMode => return left
  | .jump _ => return left

end Interpreter

def byteAddr (offset : Nat) : BitVec 32 := mailboxBase + BitVec.ofNat 32 offset

theorem byte_addr_add (offset more : Nat) :
    byteAddr offset + BitVec.ofNat 32 more = byteAddr (offset + more) := by
  rw [byteAddr, byteAddr, BitVec.add_assoc, BitVec.ofNat_add_ofNat]

theorem byte_addr_offset (offset : Nat) (inside : offset < mailboxSize) :
    inMailbox (byteAddr offset) = true ∧ mailboxOffset (byteAddr offset) = offset := by
  have small : offset < 0x1010 := inside
  have number : (byteAddr offset).toNat = 0x800000 + offset := by
    have base : mailboxBase.toNat = 0x800000 := by decide
    rw [byteAddr, BitVec.toNat_add, base, BitVec.toNat_ofNat]
    omega
  have slave : region (byteAddr offset) = 8 := by
    rw [region, BitVec.extractLsb'_toNat, number, Nat.shiftRight_eq_div_pow]
    omega
  have place : mailboxOffset (byteAddr offset) = offset := by
    rw [mailboxOffset, BitVec.extractLsb'_toNat, number, Nat.shiftRight_zero]
    omega
  refine ⟨?_, place⟩
  rw [inMailbox, slave, place]
  simp [inside]

theorem slot_addr_byte (k : Nat) : slotAddr (BitVec.ofNat 32 k) = byteAddr (16 * k) := by
  have shifted : BitVec.ofNat 32 k <<< 4 = BitVec.ofNat 32 (16 * k) := by
    apply BitVec.eq_of_toNat_eq
    rw [BitVec.toNat_shiftLeft, BitVec.toNat_ofNat, BitVec.toNat_ofNat, Nat.shiftLeft_eq]
    omega
  rw [slotAddr, shifted]
  rfl

theorem last_addr_byte : lastAddr = byteAddr 0x100C := by decide

section MailboxAccesses

variable (respond : Device) (w : World)

theorem load_byte_mailbox (offset : Nat) (inside : offset < mailboxSize) :
    loadByte respond (byteAddr offset) w = (w.mailbox offset, w) := by
  rcases byte_addr_offset offset inside with ⟨mailbox, place⟩
  rw [loadByte, if_pos mailbox, place]

/-- The bytes of a word joined by shifts. -/
theorem join_bytes (first second third fourth : BitVec 8) :
    first.setWidth 32 ||| second.setWidth 32 <<< 8 ||| third.setWidth 32 <<< 16 |||
      fourth.setWidth 32 <<< 24 = fourth ++ third ++ second ++ first := by
  apply BitVec.eq_of_getLsbD_eq
  intro index inside
  simp only [BitVec.getLsbD_or, BitVec.getLsbD_shiftLeft, BitVec.getLsbD_setWidth,
    BitVec.getLsbD_append]
  interval_cases index <;> simp

theorem read_code_data8_mailbox (offset : Nat) (inside : offset + 4 ≤ mailboxSize) :
    readCodeData8 respond (byteAddr offset) w = (loadWord w.mailbox offset, w) := by
  have second : byteAddr offset + 1 = byteAddr (offset + 1) := byte_addr_add offset 1
  have third : byteAddr offset + 2 = byteAddr (offset + 2) := byte_addr_add offset 2
  have fourth : byteAddr offset + 3 = byteAddr (offset + 3) := byte_addr_add offset 3
  rw [readCodeData8, second, third, fourth]
  simp only [load_byte_mailbox respond w offset (by omega),
    load_byte_mailbox respond w (offset + 1) (by omega),
    load_byte_mailbox respond w (offset + 2) (by omega),
    load_byte_mailbox respond w (offset + 3) (by omega), join_bytes]
  rfl

theorem write_code_data32_mailbox (offset : Nat) (data : BitVec 32)
    (inside : offset < mailboxSize) :
    writeCodeData32 (byteAddr offset) data w =
      { w with mailbox := storeWord w.mailbox offset data } := by
  rcases byte_addr_offset offset inside with ⟨mailbox, place⟩
  rw [writeCodeData32, if_pos mailbox, place]

theorem read_code_data32_device (addr : BitVec 32) (outside : inMailbox addr = false) :
    readCodeData32 respond addr w =
      (respond (w.history ++ [.load addr]), { w with history := w.history ++ [.load addr] }) := by
  rw [readCodeData32, outside]
  rfl

theorem write_code_data32_device (addr data : BitVec 32) (outside : inMailbox addr = false) :
    writeCodeData32 addr data w = { w with history := w.history ++ [.store addr data] } := by
  rw [writeCodeData32, outside]
  rfl

theorem my_stat_device :
    (myStat respond 0 w).2 = { w with history := w.history ++ [.load statBase] } := by
  have addr : statBase + BitVec.ofNat 32 (4 * 0) = statBase := by decide
  rw [myStat, addr, read_code_data32_device respond w statBase (by decide)]

end MailboxAccesses

def slotMode (mailbox : Memory) (k : Nat) : BitVec 32 := loadWord mailbox (16 * k)

def slotTarget (mailbox : Memory) (k : Nat) : BitVec 32 := loadWord mailbox (16 * k + 4)

def slotData (mailbox : Memory) (k : Nat) : BitVec 32 := loadWord mailbox (16 * k + 12)

def modeRead : BitVec 32 := 1

def modeWrite : BitVec 32 := 2

/-- `n` slots of reads and writes outside the mailbox, a slot of mode 0, the sentinel set. -/
structure Program (n : Nat) (mailbox : Memory) : Prop where
  bound : n ≤ 255
  mode : ∀ k, k < n → slotMode mailbox k = modeRead ∨ slotMode mailbox k = modeWrite
  aligned : ∀ k, k < n → (slotTarget mailbox k).toNat % 4 = 0
  outside : ∀ k, k < n → inMailbox (slotTarget mailbox k) = false
  ends : slotMode mailbox n = 0
  armed : loadWord mailbox 0x100C = sentinel

def slotAccess (mailbox : Memory) (k : Nat) : Access :=
  if slotMode mailbox k = modeRead then .load (slotTarget mailbox k)
  else .store (slotTarget mailbox k) (slotData mailbox k)

/-- What serving the first `n` slots does outside the mailbox: for every slot `my_stat(0)`,
whose value is not used, and the access of the slot. -/
def slotAccesses (mailbox : Memory) (n : Nat) : List Access :=
  (List.range n).flatMap fun k => [.load statBase, slotAccess mailbox k]

def slotResult (respond : Device) (start : World) (k : Nat) : BitVec 32 :=
  respond (start.history ++ slotAccesses start.mailbox (k + 1))

theorem slot_accesses_succ (mailbox : Memory) (n : Nat) :
    slotAccesses mailbox (n + 1) =
      slotAccesses mailbox n ++ [.load statBase, slotAccess mailbox n] := by
  simp [slotAccesses, List.range_succ]

structure Served (respond : Device) (start : World) (k : Nat) (w : World) : Prop where
  history : w.history = start.history ++ slotAccesses start.mailbox k
  results : ∀ j, j < k → slotMode start.mailbox j = modeRead →
    slotData w.mailbox j = slotResult respond start j
  kept : ∀ place, (∀ j, j < k → slotMode start.mailbox j = modeRead →
    place < 16 * j + 12 ∨ 16 * j + 16 ≤ place) → w.mailbox place = start.mailbox place

theorem served_start (respond : Device) (start : World) : Served respond start 0 start where
  history := by simp [slotAccesses]
  results := fun j none => absurd none (Nat.not_lt_zero j)
  kept := fun _ _ => rfl

section Serve

variable {respond : Device} {start w : World} {n k : Nat}

theorem next_slot (k : Nat) : BitVec.ofNat 32 k + 1 = BitVec.ofNat 32 (k + 1) := by
  rw [BitVec.ofNat_add]
  rfl

theorem slot_data_byte (k : Nat) : byteAddr (16 * k) + 12 = byteAddr (16 * k + 12) :=
  byte_addr_add (16 * k) 12

theorem slot_room (program : Program n start.mailbox) (inside : k ≤ n) :
    16 * k + 16 ≤ mailboxSize := by
  have bound := program.bound
  change 16 * k + 16 ≤ 0x1010
  omega

/-- The words of the slots still to come are as the host wrote them. -/
theorem served_word (served : Served respond start k w) (offset : Nat)
    (behind : 16 * k ≤ offset) : loadWord w.mailbox offset = loadWord start.mailbox offset := by
  apply load_word_congr
  intro place _
  apply served.kept
  intro j earlier _
  omega

/-- The fetch of a slot: `my_stat(0)`, then the target and the mode from the mailbox. -/
theorem fetch_slot (program : Program n start.mailbox) (served : Served respond start k w)
    (inside : k ≤ n) :
    readCodeData8 respond (byteAddr (16 * k) + 4) (myStat respond 0 w).2 =
        (slotTarget start.mailbox k, { w with history := w.history ++ [.load statBase] }) ∧
      readCodeData8 respond (byteAddr (16 * k))
          { w with history := w.history ++ [.load statBase] } =
        (slotMode start.mailbox k, { w with history := w.history ++ [.load statBase] }) := by
  have room := slot_room program inside
  have target : byteAddr (16 * k) + 4 = byteAddr (16 * k + 4) := byte_addr_add (16 * k) 4
  rw [target, my_stat_device, read_code_data8_mailbox _ _ _ (by omega),
    read_code_data8_mailbox _ _ _ (by omega)]
  simp only [served_word served (16 * k + 4) (by omega),
    served_word served (16 * k) (Nat.le_refl _)]
  exact ⟨rfl, rfl⟩

theorem served_read (program : Program n start.mailbox) (served : Served respond start k w)
    (inside : k < n) (read : slotMode start.mailbox k = modeRead) (rounds fuel : Nat) :
    ∃ next, interpret respond rounds (fuel + 1) (BitVec.ofNat 32 k) w =
        interpret respond rounds fuel (BitVec.ofNat 32 (k + 1)) next ∧
      Served respond start (k + 1) next := by
  rcases fetch_slot program served (Nat.le_of_lt inside) with ⟨target, mode⟩
  have outside := program.outside k inside
  have room := slot_room program (Nat.le_of_lt inside)
  have within : 16 * k + 12 < mailboxSize := by omega
  have kind : edclMode modeRead = some .read := rfl
  have access : slotAccess start.mailbox k = .load (slotTarget start.mailbox k) := if_pos read
  have history : w.history ++ [.load statBase] ++ [.load (slotTarget start.mailbox k)] =
      start.history ++ slotAccesses start.mailbox (k + 1) := by
    rw [served.history, slot_accesses_succ, access]
    simp
  have step : interpret respond rounds (fuel + 1) (BitVec.ofNat 32 k) w =
      interpret respond rounds fuel (BitVec.ofNat 32 (k + 1))
        { mailbox := storeWord w.mailbox (16 * k + 12) (slotResult respond start k)
          history := start.history ++ slotAccesses start.mailbox (k + 1) } := by
    simp only [interpret, slot_addr_byte, target, mode, read, kind,
      read_code_data32_device _ _ _ outside, slot_data_byte,
      write_code_data32_mailbox _ _ _ within, next_slot, history]
    rfl
  refine ⟨_, step, rfl, ?_, ?_⟩
  · intro j earlier reads
    by_cases current : j = k
    · rw [current]
      exact load_store_word w.mailbox (16 * k + 12) _
    · have kept := load_store_frame w.mailbox (16 * k + 12) (16 * j + 12)
        (slotResult respond start k) (by omega)
      exact kept.trans (served.results j (by omega) reads)
  · intro place apart
    have kept := store_word_frame w.mailbox (16 * k + 12) (slotResult respond start k) place
      (by have := apart k (Nat.lt_succ_self k) read; omega)
    exact kept.trans (served.kept place fun j earlier => apart j (by omega))

theorem served_write (program : Program n start.mailbox) (served : Served respond start k w)
    (inside : k < n) (write : slotMode start.mailbox k = modeWrite) (rounds fuel : Nat) :
    ∃ next, interpret respond rounds (fuel + 1) (BitVec.ofNat 32 k) w =
        interpret respond rounds fuel (BitVec.ofNat 32 (k + 1)) next ∧
      Served respond start (k + 1) next := by
  rcases fetch_slot program served (Nat.le_of_lt inside) with ⟨target, mode⟩
  have outside := program.outside k inside
  have within : 16 * k + 12 + 4 ≤ mailboxSize := slot_room program (Nat.le_of_lt inside)
  have kind : edclMode modeWrite = some .write := rfl
  have notRead : slotMode start.mailbox k ≠ modeRead := by
    rw [write]
    decide
  have data : loadWord w.mailbox (16 * k + 12) = slotData start.mailbox k :=
    served_word served (16 * k + 12) (by omega)
  have access : slotAccess start.mailbox k =
      .store (slotTarget start.mailbox k) (slotData start.mailbox k) := if_neg notRead
  have history : w.history ++ [.load statBase] ++
      [.store (slotTarget start.mailbox k) (slotData start.mailbox k)] =
        start.history ++ slotAccesses start.mailbox (k + 1) := by
    rw [served.history, slot_accesses_succ, access]
    simp
  have step : interpret respond rounds (fuel + 1) (BitVec.ofNat 32 k) w =
      interpret respond rounds fuel (BitVec.ofNat 32 (k + 1))
        { w with history := start.history ++ slotAccesses start.mailbox (k + 1) } := by
    simp only [interpret, slot_addr_byte, target, mode, write, kind, slot_data_byte,
      read_code_data8_mailbox _ _ _ within, data, write_code_data32_device _ _ _ outside,
      next_slot, history]
  refine ⟨_, step, rfl, ?_, ?_⟩
  · intro j earlier reads
    have before : j ≠ k := fun current => notRead (current ▸ reads)
    exact served.results j (by omega) reads
  · intro place apart
    exact served.kept place fun j earlier => apart j (by omega)

theorem served_step (program : Program n start.mailbox) (served : Served respond start k w)
    (inside : k < n) (rounds fuel : Nat) :
    ∃ next, interpret respond rounds (fuel + 1) (BitVec.ofNat 32 k) w =
        interpret respond rounds fuel (BitVec.ofNat 32 (k + 1)) next ∧
      Served respond start (k + 1) next := by
  rcases program.mode k inside with read | write
  · exact served_read program served inside read rounds fuel
  · exact served_write program served inside write rounds fuel

theorem served_run (respond : Device) (program : Program n start.mailbox) (rounds spare : Nat)
    (inside : k ≤ n) :
    ∃ next, interpret respond rounds (spare + n + 1) 0 start =
        interpret respond rounds (spare + (n - k) + 1) (BitVec.ofNat 32 k) next ∧
      Served respond start k next := by
  induction k with
  | zero => exact ⟨start, rfl, served_start respond start⟩
  | succ k ih =>
      obtain ⟨here, reached, served⟩ := ih (by omega)
      obtain ⟨next, step, advanced⟩ :=
        served_step program served inside rounds (spare + (n - (k + 1)) + 1)
      have fuel : spare + (n - k) + 1 = spare + (n - (k + 1)) + 1 + 1 := by omega
      rw [fuel] at reached
      exact ⟨next, reached.trans step, advanced⟩

/-- Behind the last slot the loop is left with the number of slots and one. -/
theorem interpret_program (respond : Device) (program : Program n start.mailbox)
    (rounds spare : Nat) :
    ∃ next, interpret respond rounds (spare + n + 1) 0 start =
        some (.acknowledge (BitVec.ofNat 32 (n + 1)),
          { next with history := next.history ++ [.load statBase] }) ∧
      Served respond start n next := by
  obtain ⟨next, reached, served⟩ := served_run respond program rounds spare (Nat.le_refl n)
  rcases fetch_slot program served (Nat.le_refl n) with ⟨target, mode⟩
  have kind : edclMode 0 = some .unknown := rfl
  refine ⟨next, reached.trans ?_, served⟩
  simp only [interpret, slot_addr_byte, target, mode, program.ends, kind, next_slot]

end Serve

def acknowledged (i : BitVec 32) (mailbox : Memory) : Memory :=
  storeWord (storeWord (storeWord mailbox 0 i) 4 0) 0x100C 0

theorem acknowledge_stores (i : BitVec 32) (w : World) :
    acknowledge i w = { w with mailbox := acknowledged i w.mailbox } := by
  have first : mailboxBase = byteAddr 0 := by decide
  have second : mailboxBase + 4 = byteAddr 4 := by decide
  rw [acknowledge, second, first, last_addr_byte, write_code_data32_mailbox _ _ _ (by decide),
    write_code_data32_mailbox _ _ _ (by decide), write_code_data32_mailbox _ _ _ (by decide)]
  rfl

theorem acknowledged_words (i : BitVec 32) (mailbox : Memory) :
    loadWord (acknowledged i mailbox) 0 = i ∧ loadWord (acknowledged i mailbox) 4 = 0 ∧
      loadWord (acknowledged i mailbox) 0x100C = 0 := by
  refine ⟨?_, ?_, load_store_word _ _ _⟩
  · rw [acknowledged, load_store_frame _ _ _ _ (by decide), load_store_frame _ _ _ _ (by decide),
      load_store_word]
  · rw [acknowledged, load_store_frame _ _ _ _ (by decide), load_store_word]

theorem acknowledged_frame (i : BitVec 32) (mailbox : Memory) (place : Nat) (behind : 8 ≤ place)
    (apart : place < 0x100C ∨ 0x1010 ≤ place) : acknowledged i mailbox place = mailbox place := by
  rw [acknowledged, store_word_frame _ _ _ _ (by omega), store_word_frame _ _ _ _ (by omega),
    store_word_frame _ _ _ _ (by omega)]

/-- `hello` returns, having made the accesses of the program in their order, and
acknowledges; of the mailbox only the acknowledged words and the results of the
reads differ. -/
theorem hello_runs_program (respond : Device) (start : World) (n fuel : Nat)
    (program : Program n start.mailbox) (enough : n < fuel) :
    ∃ last, hello respond fuel start = some (.acknowledge (BitVec.ofNat 32 (n + 1)), last) ∧
      last.history = start.history ++ slotAccesses start.mailbox n ++ [.load statBase] ∧
      loadWord last.mailbox 0 = BitVec.ofNat 32 (n + 1) ∧
      loadWord last.mailbox 4 = 0 ∧
      loadWord last.mailbox 0x100C = 0 ∧
      (∀ k, k < n → slotMode start.mailbox k = modeRead →
        slotData last.mailbox k = slotResult respond start k) ∧
      ∀ place, 8 ≤ place → place < 0x100C ∨ 0x1010 ≤ place →
        (∀ k, k < n → slotMode start.mailbox k = modeRead →
          place < 16 * k + 12 ∨ 16 * k + 16 ≤ place) →
        last.mailbox place = start.mailbox place := by
  obtain ⟨spare, rfl⟩ := Nat.exists_eq_add_of_lt enough
  have bound := program.bound
  have armed : waitSentinel respond (n + spare + 1) start = some start := by
    have word : readCodeData8 respond lastAddr start = (sentinel, start) := by
      rw [last_addr_byte, read_code_data8_mailbox respond start 0x100C (by decide), program.armed]
    simp only [waitSentinel, word, ne_eq, not_true_eq_false, if_false]
  obtain ⟨next, left, served⟩ := interpret_program respond program (n + spare + 1) spare
  rw [Nat.add_comm spare n] at left
  have result : hello respond (n + spare + 1) start =
      some (.acknowledge (BitVec.ofNat 32 (n + 1)),
        { mailbox := acknowledged (BitVec.ofNat 32 (n + 1)) next.mailbox
          history := next.history ++ [.load statBase] }) := by
    simp only [hello, armed, left, Option.bind_eq_bind, Option.bind_some, acknowledge_stores]
    rfl
  rcases acknowledged_words (BitVec.ofNat 32 (n + 1)) next.mailbox with ⟨count, second, last⟩
  refine ⟨_, result, by rw [served.history], count, second, last, ?_, ?_⟩
  · intro k inside reads
    rw [← served.results k inside reads]
    apply load_word_congr
    intro place byte
    exact acknowledged_frame _ _ _ (by omega) (by omega)
  · intro place behind apart unread
    exact (acknowledged_frame _ _ place behind apart).trans (served.kept place unread)

/-- The host's words: write 1 to `0x00600014`, read `0x00600010`, end. -/
private def twoSlots (word : Nat) : BitVec 32 :=
  match word with
  | 0 => 2
  | 1 => 0x00600014
  | 3 => 1
  | 4 => 1
  | 5 => 0x00600010
  | 0x403 => 0xDEADBEEF
  | _ => 0

private def twoSlotsWorld : World where
  mailbox := fun place => wordByte (twoSlots (place / 4)) (place % 4)
  history := []

private theorem two_slots_program : Program 2 twoSlotsWorld.mailbox where
  bound := by decide
  mode := by decide
  aligned := by decide
  outside := by decide
  ends := by decide
  armed := by decide

theorem hello_runs_program_of_two_slots :
    ∃ last, hello (fun _ => 7) 3 twoSlotsWorld = some (.acknowledge (BitVec.ofNat 32 (2 + 1)), last) ∧
      last.history = twoSlotsWorld.history ++ slotAccesses twoSlotsWorld.mailbox 2 ++
        [.load statBase] ∧
      loadWord last.mailbox 0 = BitVec.ofNat 32 (2 + 1) ∧
      loadWord last.mailbox 4 = 0 ∧
      loadWord last.mailbox 0x100C = 0 ∧
      (∀ k, k < 2 → slotMode twoSlotsWorld.mailbox k = modeRead →
        slotData last.mailbox k = slotResult (fun _ => 7) twoSlotsWorld k) ∧
      ∀ place, 8 ≤ place → place < 0x100C ∨ 0x1010 ≤ place →
        (∀ k, k < 2 → slotMode twoSlotsWorld.mailbox k = modeRead →
          place < 16 * k + 12 ∨ 16 * k + 16 ≤ place) →
        last.mailbox place = twoSlotsWorld.mailbox place :=
  hello_runs_program (fun _ => 7) twoSlotsWorld 2 3 two_slots_program (by decide)

end MinionSubsystem.Mailbox
