import MinionSubsystem.ClockedRun
import MinionSubsystem.Mailbox

/-!
# Polling the mailbox

`main` calls `hello` whenever it finds the sentinel. Here the firmware moves one
round of one loop at a time, so that the host may write the mailbox at any
moment, and a program that a bootstrap has started may come back. Slots run once
for each arm of the sentinel as long as every exit of `hello` clears it and the
loop does not pass all slots of the shared memory. The exit by the default case
does not clear it.
-/

namespace MinionSubsystem.MailboxPolling

open MinionSubsystem.ByteMemory
open MinionSubsystem.ClockedRun
open MinionSubsystem.DataBus
open MinionSubsystem.Mailbox

set_option autoImplicit false

inductive Place where
  /-- In the loop of `main`. -/
  | polling
  /-- In the first loop of `hello`. -/
  | waiting
  | slot (i : Nat)
  | blockRead (addr2 addr3 mask cnt ready : BitVec 32)
  /-- In the program that slot `i` has loaded. -/
  | program (i : Nat)

/-- The firmware with four history variables: how often the host has armed the
sentinel, the slot that the loop was at then, which slots have been carried out in which
arm, and, once `hello` has returned in this arm, the accesses made until then. -/
structure Firmware where
  place : Place
  world : World
  arms : Nat
  first : Nat
  executed : List (Nat × Nat)
  returned : Option (List Access)

inductive Event where
  | firmware
  | programReturns (world : World)
  | host (mailbox : Memory)

def Armed (mailbox : Memory) : Prop := loadWord mailbox 0x100C = sentinel

instance (mailbox : Memory) : Decidable (Armed mailbox) :=
  inferInstanceAs (Decidable (loadWord mailbox 0x100C = sentinel))

structure Fetch where
  addr2 : BitVec 32
  mode : BitVec 32
  world : World

def helloReturns (w : World) (f : Firmware) : Firmware :=
  { f with place := .polling, world := w, returned := f.returned.or (some w.history) }

def goTo (place : Place) (w : World) (f : Firmware) : Firmware :=
  { f with place := place, world := w }

def execute (i : Nat) (place : Place) (w : World) (f : Firmware) : Firmware :=
  { f with place := place, world := w, executed := (f.arms, i) :: f.executed }

section Machine

variable (respond : Device)

def fetch (i : Nat) (w : World) : Fetch :=
  let addr3 := slotAddr (BitVec.ofNat 32 i)
  let addr2 := readCodeData8 respond (addr3 + 4) (myStat respond 0 w).2
  let mode := readCodeData8 respond addr3 addr2.2
  ⟨addr2.1, mode.1, mode.2⟩

/-- A case of the `switch`, and mode 0, which leaves the loop. -/
def carryOut (i : Nat) (slot : Fetch) (f : Firmware) : EdclMode → Firmware
  | .unknown => helloReturns (acknowledge (BitVec.ofNat 32 (i + 1)) slot.world) f
  | .read =>
      let data := readCodeData32 respond slot.addr2 slot.world
      execute i (.slot (i + 1))
        (writeCodeData32 (slotAddr (BitVec.ofNat 32 i) + 12) data.1 data.2) f
  | .write =>
      let data := readCodeData8 respond (slotAddr (BitVec.ofNat 32 i) + 12) slot.world
      execute i (.slot (i + 1)) (writeCodeData32 slot.addr2 data.1 data.2) f
  | .blockRead =>
      let addr3 := slotAddr (BitVec.ofNat 32 i)
      let mask := readCodeData8 respond (addr3 + 12) slot.world
      let ready := myStat respond 0 mask.2
      execute i (.blockRead slot.addr2 addr3 mask.1 0 ready.1) ready.2 f
  | .bootstrap => execute i (.program i) (bootstrap respond slot.addr2 slot.world) f

/-- One round of the loop over the slots. The default case returns. -/
def serveSlot (i : Nat) (f : Firmware) : Firmware :=
  let slot := fetch respond i f.world
  match edclMode slot.mode with
  | some mode => carryOut respond i slot f mode
  | none => helloReturns (myputs "unknown mode\r\n" slot.world) f

/-- One round of the loop the firmware is in: `poll_shm` and the loops of `hello`. -/
def firmwareStep (f : Firmware) : Firmware :=
  match f.place with
  | .polling =>
      let addr4 := readCodeData8 respond lastAddr f.world
      goTo (if addr4.1 = sentinel then .waiting else .polling) addr4.2 f
  | .waiting =>
      let addr4 := readCodeData8 respond lastAddr f.world
      goTo (if addr4.1 = sentinel then .slot 0 else .waiting) addr4.2 f
  | .slot i => serveSlot respond i f
  | .blockRead addr2 addr3 mask cnt ready =>
      if mask &&& ~~~ready ≠ 0 then
        let data := readCodeData32 respond addr2 (writeCodeData32 addr2 0 f.world)
        let stat := myStat respond 0 (writeCodeData32 (addr3 + 16 + cnt <<< 2) data.1 data.2)
        goTo (.blockRead addr2 addr3 mask (cnt + 1) stat.1) stat.2 f
      else helloReturns (acknowledge (cnt + 1) f.world) f
  | .program _ => f

/-- The next slot that the loop comes to; outside the loop it is the first. -/
def nextSlot : Place → Nat
  | .slot i => i
  | .program i => i + 1
  | .polling | .waiting | .blockRead .. => 0

/-- The host arms the sentinel by writing it where it was not. -/
def hostStep (mailbox : Memory) (f : Firmware) : Firmware :=
  let written := { f with world := { f.world with mailbox := mailbox } }
  if Armed mailbox ∧ ¬Armed f.world.mailbox then
    { written with arms := f.arms + 1, first := nextSlot f.place, returned := none }
  else written

def programStep (w : World) (f : Firmware) : Firmware :=
  match f.place with
  | .program i => goTo (.slot (i + 1)) w f
  | _ => f

def step (event : Event) (f : Firmware) : Firmware :=
  match event with
  | .firmware => firmwareStep respond f
  | .programReturns w => programStep w f
  | .host mailbox => hostStep mailbox f

def boot (w : World) : Firmware where
  place := .polling
  world := w
  arms := 0
  first := 0
  executed := []
  returned := none

end Machine

/-- Where a slot lies. The decoder takes bits 23:20 of an address, the shared memory of
region 8 bits 15:4, so it has 4096 slots. -/
def slotPlace (i : Nat) : Nat × Nat :=
  let addr := slotAddr (BitVec.ofNat 32 i)
  (region addr, if region addr = 8 then mailboxOffset addr else (addr.extractLsb' 0 20).toNat)

/-- No slot has been carried out twice in an arm, and since `hello` returned nothing
has been accessed. -/
structure AtMostOnce (f : Firmware) : Prop where
  once : (f.executed.map fun entry => (entry.1, slotPlace entry.2)).Nodup
  quiet : ∀ history, f.returned = some history → f.world.history = history

/-- The loop has not passed this place since the host armed the sentinel. -/
def Unpassed (i : Nat) (f : Firmware) : Prop :=
  ∀ k, k < i → f.first ≤ k → slotPlace k ≠ slotPlace i

instance (i : Nat) (f : Firmware) : Decidable (Unpassed i f) :=
  inferInstanceAs (Decidable (∀ k, k < i → f.first ≤ k → slotPlace k ≠ slotPlace i))

/-- Fewer than 4096 slots since the arm lie apart. -/
theorem unpassed_of_few {i : Nat} {f : Firmware} (few : i < f.first + 4096) : Unpassed i f := by
  intro k before later same
  have low : ∀ j : Nat, (slotPlace j).2 % 0x10000 = 16 * j % 0x10000 := by
    intro j
    have address : (slotAddr (BitVec.ofNat 32 j)).toNat = (0x800000 + 16 * j) % 2 ^ 32 := by
      have base : mailboxBase.toNat = 0x800000 := by decide
      rw [slot_addr_byte, byteAddr, BitVec.toNat_add, base, BitVec.toNat_ofNat]
      omega
    simp only [slotPlace]
    split_ifs
    · rw [mailboxOffset, BitVec.extractLsb'_toNat, address, Nat.shiftRight_zero]
      omega
    · rw [BitVec.extractLsb'_toNat, address, Nat.shiftRight_zero]
      omega
  have first := low k
  have second := low i
  rw [same] at first
  omega

/-- The firmware is not about to leave `hello` by the default case with the sentinel set, nor
to carry out a slot that the loop has come to before. -/
def Regular (respond : Device) (f : Firmware) : Prop :=
  match f.place with
  | .slot i =>
      (edclMode (fetch respond i f.world).mode = none → ¬Armed f.world.mailbox) ∧
        (edclMode (fetch respond i f.world).mode ≠ none →
          edclMode (fetch respond i f.world).mode ≠ some .unknown → Unpassed i f)
  | .polling | .waiting | .blockRead .. | .program _ => True

instance (respond : Device) : (f : Firmware) → Decidable (Regular respond f)
  | ⟨.slot i, w, arms, first, executed, returned⟩ =>
      inferInstanceAs (Decidable
        ((edclMode (fetch respond i w).mode = none → ¬Armed w.mailbox) ∧
          (edclMode (fetch respond i w).mode ≠ none →
            edclMode (fetch respond i w).mode ≠ some .unknown →
              Unpassed i ⟨.slot i, w, arms, first, executed, returned⟩)))
  | ⟨.polling, _, _, _, _, _⟩ => .isTrue trivial
  | ⟨.waiting, _, _, _, _, _⟩ => .isTrue trivial
  | ⟨.blockRead .., _, _, _, _, _⟩ => .isTrue trivial
  | ⟨.program _, _, _, _, _, _⟩ => .isTrue trivial

/-- The host and a loaded program may move at any time. -/
def Orderly (respond : Device) (event : Event) (f : Firmware) : Prop :=
  match event with
  | .firmware => Regular respond f
  | .programReturns _ | .host _ => True

instance (respond : Device) (f : Firmware) : (event : Event) → Decidable (Orderly respond event f)
  | .firmware => inferInstanceAs (Decidable (Regular respond f))
  | .programReturns _ => .isTrue trivial
  | .host _ => .isTrue trivial

section Frames

variable (respond : Device) (w : World)

theorem load_byte_keeps (addr : BitVec 32) : (loadByte respond addr w).2.mailbox = w.mailbox := by
  unfold loadByte
  split_ifs <;> rfl

theorem read_code_data8_keeps (addr : BitVec 32) :
    (readCodeData8 respond addr w).2.mailbox = w.mailbox := by
  simp only [readCodeData8, load_byte_keeps]

theorem my_stat_keeps : (myStat respond 0 w).2.mailbox = w.mailbox := by
  rw [my_stat_device]

theorem myputchar_keeps (c : BitVec 8) : (myputchar c w).mailbox = w.mailbox := by
  rw [myputchar, write_code_data32_device _ _ _ (by decide)]

theorem myputs_keeps (str : String) : (myputs str w).mailbox = w.mailbox := by
  unfold myputs
  generalize str.toList = letters
  induction letters generalizing w with
  | nil => rfl
  | cons letter letters ih => rw [List.foldl_cons, ih, myputchar_keeps]

theorem fetch_keeps (i : Nat) : (fetch respond i w).world.mailbox = w.mailbox := by
  simp only [fetch, read_code_data8_keeps, my_stat_keeps]

theorem poll_reads : readCodeData8 respond lastAddr w = (loadWord w.mailbox 0x100C, w) := by
  rw [last_addr_byte]
  exact read_code_data8_mailbox respond w 0x100C (by decide)

theorem acknowledge_disarms (i : BitVec 32) : ¬Armed (acknowledge i w).mailbox := by
  rw [acknowledge_stores, Armed, (acknowledged_words i w.mailbox).2.2]
  decide

end Frames

def Fresh (f : Firmware) : Prop := ∀ entry ∈ f.executed, entry.1 ≠ f.arms

/-- In this arm the loop has carried out the slots in front of `i`. -/
def Before (i : Nat) (f : Firmware) : Prop :=
  ∀ k, (f.arms, k) ∈ f.executed ↔ f.first ≤ k ∧ k < i

def AtPlace (f : Firmware) : Prop :=
  match f.place with
  | .polling => Armed f.world.mailbox → f.returned = none ∧ Fresh f ∧ f.first = 0
  | .waiting => f.returned = none ∧ (Armed f.world.mailbox → Fresh f ∧ f.first = 0)
  | .slot i => f.returned = none ∧ f.first ≤ i ∧ Before i f
  | .blockRead .. => f.returned = none
  | .program i => f.returned = none ∧ f.first ≤ i + 1 ∧ Before (i + 1) f

structure Invariant (f : Firmware) : Prop where
  safe : AtMostOnce f
  past : ∀ entry ∈ f.executed, entry.1 ≤ f.arms
  place : AtPlace f

theorem boot_invariant (w : World) : Invariant (boot w) where
  safe := ⟨List.nodup_nil, fun _ returned => absurd returned.symm (Option.some_ne_none _)⟩
  past := fun _ none => absurd none List.not_mem_nil
  place := fun _ => ⟨rfl, fun _ none => absurd none List.not_mem_nil, rfl⟩

section Steps

variable {respond : Device} {f : Firmware} {w : World} {i : Nat}

theorem before_succ (reached : f.first ≤ i) (before : Before i f) (place : Place) (w : World) :
    Before (i + 1) (execute i place w f) := by
  intro k
  have listed : (f.arms, k) ∈ (f.arms, i) :: f.executed ↔ k = i ∨ f.first ≤ k ∧ k < i := by
    rw [List.mem_cons, before k, Prod.mk.injEq, and_iff_right rfl]
  refine listed.trans ⟨?_, ?_⟩
  · rintro (same | ⟨later, earlier⟩)
    · exact ⟨same ▸ reached, same ▸ Nat.lt_succ_self i⟩
    · exact ⟨later, Nat.lt_succ_of_lt earlier⟩
  · rintro ⟨later, earlier⟩
    exact (Nat.lt_succ_iff_lt_or_eq.mp earlier).symm.imp id fun less => ⟨later, less⟩

/-- An exit that leaves the sentinel cleared. -/
theorem returns_invariant (invariant : Invariant f) (first : f.returned = none)
    (clear : ¬Armed w.mailbox) : Invariant (helloReturns w f) where
  safe :=
    { once := invariant.safe.once
      quiet := by
        intro history now
        rw [helloReturns, first] at now
        exact Option.some.inj now }
  past := invariant.past
  place := fun armed => absurd armed clear

theorem execute_invariant (invariant : Invariant f) (unreturned : f.returned = none)
    (before : Before i f) (unpassed : Unpassed i f) (place : Place)
    (at_place : AtPlace (execute i place w f)) : Invariant (execute i place w f) where
  safe :=
    { once := by
        apply List.nodup_cons.mpr ⟨_, invariant.safe.once⟩
        intro again
        obtain ⟨entry, member, same⟩ := List.mem_map.mp again
        have arm : entry.1 = f.arms := congrArg Prod.fst same
        have passed := (before entry.2).mp (arm ▸ member)
        exact unpassed entry.2 passed.2 passed.1 (congrArg Prod.snd same)
      quiet := by
        intro history returned
        exact absurd (returned.symm.trans unreturned) (Option.some_ne_none _) }
  past := by
    intro entry member
    rcases List.mem_cons.mp member with now | earlier
    · rw [now]
      exact Nat.le_refl _
    · exact invariant.past entry earlier
  place := at_place

theorem go_to_invariant (invariant : Invariant f) (place : Place)
    (quiet : f.returned = none ∨ w = f.world) (at_place : AtPlace (goTo place w f)) :
    Invariant (goTo place w f) where
  safe :=
    { once := invariant.safe.once
      quiet := by
        intro history returned
        rcases quiet with unreturned | same
        · exact absurd (returned.symm.trans unreturned) (Option.some_ne_none _)
        · exact (congrArg World.history same).trans (invariant.safe.quiet history returned) }
  past := invariant.past
  place := at_place

theorem carry_out_invariant (slot : Fetch) (invariant : Invariant f)
    (unreturned : f.returned = none) (reached : f.first ≤ i) (before : Before i f)
    (mode : EdclMode) (unpassed : mode ≠ .unknown → Unpassed i f) :
    Invariant (carryOut respond i slot f mode) := by
  have reached_next : f.first ≤ i + 1 := Nat.le_succ_of_le reached
  cases mode with
  | unknown => exact returns_invariant invariant unreturned (acknowledge_disarms _ _)
  | read =>
      exact execute_invariant invariant unreturned before (unpassed (by decide)) _
        ⟨unreturned, reached_next, before_succ reached before _ _⟩
  | write =>
      exact execute_invariant invariant unreturned before (unpassed (by decide)) _
        ⟨unreturned, reached_next, before_succ reached before _ _⟩
  | blockRead =>
      exact execute_invariant invariant unreturned before (unpassed (by decide)) _ unreturned
  | bootstrap =>
      exact execute_invariant invariant unreturned before (unpassed (by decide)) _
        ⟨unreturned, reached_next, before_succ reached before _ _⟩

theorem serve_invariant (regular : Regular respond f) (place : f.place = .slot i)
    (invariant : Invariant f) : Invariant (serveSlot respond i f) := by
  have here := invariant.place
  simp only [AtPlace, place] at here
  rcases here with ⟨unreturned, reached, before⟩
  simp only [Regular, place] at regular
  simp only [serveSlot]
  split
  · next mode known =>
      rw [known] at regular
      exact carry_out_invariant _ invariant unreturned reached before mode fun carried =>
        regular.2 (Option.some_ne_none _) fun same => carried (Option.some.inj same)
  · next unknown =>
      apply returns_invariant invariant unreturned
      rw [myputs_keeps, fetch_keeps]
      exact regular.1 unknown

theorem firmware_invariant (regular : Regular respond f) (invariant : Invariant f) :
    Invariant (firmwareStep respond f) := by
  have here := invariant.place
  cases place : f.place with
  | polling =>
      simp only [AtPlace, place] at here
      simp only [firmwareStep, place, poll_reads]
      apply go_to_invariant invariant _ (.inr rfl)
      split_ifs with armed
      · rcases here armed with ⟨unreturned, fresh⟩
        exact ⟨unreturned, fun _ => fresh⟩
      · exact fun now => absurd now armed
  | waiting =>
      simp only [AtPlace, place] at here
      simp only [firmwareStep, place, poll_reads]
      apply go_to_invariant invariant _ (.inr rfl)
      split_ifs with armed
      · obtain ⟨fresh, start⟩ := here.2 armed
        exact ⟨here.1, Nat.le_of_eq start, fun k =>
          ⟨fun member => absurd rfl (fresh _ member),
            fun inside => absurd inside.2 (Nat.not_lt_zero k)⟩⟩
      · exact here
  | slot i =>
      simp only [firmwareStep, place]
      exact serve_invariant regular place invariant
  | blockRead addr2 addr3 mask cnt ready =>
      simp only [AtPlace, place] at here
      simp only [firmwareStep, place]
      split_ifs with more
      · exact go_to_invariant invariant _ (.inl here) here
      · exact returns_invariant invariant here (acknowledge_disarms _ _)
  | program i =>
      simp only [firmwareStep, place]
      exact invariant

theorem host_invariant (mailbox : Memory) (invariant : Invariant f) :
    Invariant (hostStep mailbox f) := by
  have here := invariant.place
  unfold hostStep
  split_ifs with arms
  · -- nothing has been carried out in the new arm
    have new : ∀ entry ∈ f.executed, entry.1 ≠ f.arms + 1 := by
      intro entry member same
      have past := invariant.past entry member
      omega
    have unserved : ∀ i k, (f.arms + 1, k) ∈ f.executed ↔ i ≤ k ∧ k < i := fun i k =>
      ⟨fun member => absurd rfl (new _ member), fun inside => absurd inside.1 (by omega)⟩
    refine ⟨⟨invariant.safe.once, ?_⟩, ?_, ?_⟩
    · exact fun _ returned => absurd returned.symm (Option.some_ne_none _)
    · exact fun entry member => Nat.le_succ_of_le (invariant.past entry member)
    · cases place : f.place with
      | polling => exact fun _ => ⟨rfl, new, rfl⟩
      | waiting => exact ⟨rfl, fun _ => ⟨new, rfl⟩⟩
      | slot i => exact ⟨rfl, Nat.le_refl i, unserved i⟩
      | blockRead addr2 addr3 mask cnt ready => exact rfl
      | program i => exact ⟨rfl, Nat.le_refl (i + 1), unserved (i + 1)⟩
  · have kept : Armed mailbox → Armed f.world.mailbox := by
      intro armed
      by_contra before
      exact arms ⟨armed, before⟩
    refine ⟨⟨invariant.safe.once, invariant.safe.quiet⟩, invariant.past, ?_⟩
    cases place : f.place with
    | polling =>
        simp only [AtPlace, place] at here ⊢
        exact fun armed => here (kept armed)
    | waiting =>
        simp only [AtPlace, place] at here ⊢
        exact ⟨here.1, fun armed => here.2 (kept armed)⟩
    | slot i =>
        simp only [AtPlace, place] at here ⊢
        exact here
    | blockRead addr2 addr3 mask cnt ready =>
        simp only [AtPlace, place] at here ⊢
        exact here
    | program i =>
        simp only [AtPlace, place] at here ⊢
        exact here

theorem program_invariant (w : World) (invariant : Invariant f) :
    Invariant (programStep w f) := by
  have here := invariant.place
  cases place : f.place with
  | program i =>
      simp only [AtPlace, place] at here
      simp only [programStep, place]
      exact go_to_invariant invariant _ (.inl here.1) here
  | polling => simpa only [programStep, place] using invariant
  | waiting => simpa only [programStep, place] using invariant
  | slot i => simpa only [programStep, place] using invariant
  | blockRead addr2 addr3 mask cnt ready => simpa only [programStep, place] using invariant

theorem step_invariant (event : Event) (allowed : Orderly respond event f)
    (invariant : Invariant f) : Invariant (step respond event f) := by
  cases event with
  | firmware => exact firmware_invariant allowed invariant
  | programReturns w => exact program_invariant w invariant
  | host mailbox => exact host_invariant mailbox invariant

end Steps

/-- In every run in which the firmware leaves `hello` by the default case only with the
sentinel cleared and the loop carries out no slot that it has come to before in the arm,
every slot is carried out at most once for each arm, and once `hello` has returned nothing
is accessed until the host arms the sentinel again. -/
theorem commands_run_at_most_once (respond : Device) (w : World) (events : List Event)
    (orderly : AllAllowed (step respond) (Orderly respond) (boot w) events) :
    AtMostOnce (runEvents (step respond) (boot w) events) := by
  have invariant := run_events_guarded (step respond) _ Invariant
    (fun event _ allowed holds => step_invariant event allowed holds) events (boot w)
    (boot_invariant w) orderly
  exact invariant.safe

/-- The host's words: write 1 to `0x00600014`, read `0x00600010`, end. -/
private def pollingSlots (word : Nat) : BitVec 32 :=
  match word with
  | 0 => 2
  | 1 => 0x00600014
  | 3 => 1
  | 4 => 1
  | 5 => 0x00600010
  | 0x403 => 0xDEADBEEF
  | _ => 0

private def clearedWorld : World where
  mailbox := fun _ => 0
  history := []

private def hostProgram : List Event :=
  [.firmware, .host fun place => wordByte (pollingSlots (place / 4)) (place % 4)] ++
    List.replicate 10 .firmware

theorem commands_run_at_most_once_of_two_slots :
    AtMostOnce (runEvents (step fun _ => 7) (boot clearedWorld) hostProgram) :=
  commands_run_at_most_once (fun _ => 7) clearedWorld hostProgram (by decide +kernel)

section Rounds

variable {respond : Device}

def LeftAt (f : Firmware) (last : World) : Exit → Prop
  | .acknowledge i => f.place = .polling ∧ f.world = acknowledge i last
  | .unknownMode => f.place = .polling ∧ f.world = last
  | .jump _ => (∃ i, f.place = .program i) ∧ f.world = last

theorem block_read_rounds (addr2 addr3 mask : BitVec 32) (fuel : Nat) (cnt ready : BitVec 32)
    (f : Firmware) (read : BitVec 32 × World)
    (place : f.place = .blockRead addr2 addr3 mask cnt ready)
    (result : blockRead respond addr2 addr3 mask fuel cnt ready f.world = some read) :
    ∃ count, LeftAt ((firmwareStep respond)^[count] f) read.2 (.acknowledge (read.1 + 1)) := by
  induction fuel generalizing cnt ready f with
  | zero => simp [blockRead] at result
  | succ fuel ih =>
      rw [blockRead] at result
      by_cases more : mask &&& ~~~ready ≠ 0
      · rw [if_pos more] at result
        obtain ⟨count, left⟩ := ih _ _ (firmwareStep respond f)
          (by simp only [firmwareStep, place, if_pos more]; rfl)
          (by simp only [firmwareStep, place, if_pos more]; exact result)
        exact ⟨count + 1, left⟩
      · rw [if_neg more] at result
        have same := Option.some.inj result
        refine ⟨1, ?_⟩
        simp only [Function.iterate_one, firmwareStep, place, if_neg more, ← same]
        exact ⟨rfl, rfl⟩

theorem interpret_rounds (rounds fuel k : Nat) (f : Firmware) (left : Exit × World)
    (place : f.place = .slot k)
    (result : interpret respond rounds fuel (BitVec.ofNat 32 k) f.world = some left) :
    ∃ count, LeftAt ((firmwareStep respond)^[count] f) left.2 left.1 := by
  induction fuel generalizing k f with
  | zero => simp [interpret] at result
  | succ fuel ih =>
      have round : firmwareStep respond f = serveSlot respond k f := by
        simp only [firmwareStep, place]
      have later : ∀ next : Firmware, next = firmwareStep respond f →
          (∃ count, LeftAt ((firmwareStep respond)^[count] next) left.2 left.1) →
          ∃ count, LeftAt ((firmwareStep respond)^[count] f) left.2 left.1 := by
        rintro next rfl ⟨count, reached⟩
        exact ⟨count + 1, reached⟩
      cases mode : edclMode (fetch respond k f.world).mode with
      | none =>
          have served : serveSlot respond k f =
              helloReturns (myputs "unknown mode\r\n" (fetch respond k f.world).world) f := by
            simp only [serveSlot, mode]
          simp only [fetch] at mode
          simp only [interpret, mode] at result
          refine ⟨1, ?_⟩
          rw [Function.iterate_one, round, served, ← Option.some.inj result]
          exact ⟨rfl, rfl⟩
      | some kind =>
          have served : serveSlot respond k f =
              carryOut respond k (fetch respond k f.world) f kind := by
            simp only [serveSlot, mode]
          simp only [fetch] at mode
          simp only [interpret, mode] at result
          rw [served] at round
          cases kind with
          | unknown =>
              refine ⟨1, ?_⟩
              rw [Function.iterate_one, round, ← Option.some.inj result]
              exact ⟨rfl, congrArg (acknowledge · _) (next_slot k).symm⟩
          | read =>
              rw [next_slot] at result
              obtain ⟨count, reached⟩ := ih (k + 1) (firmwareStep respond f) (by rw [round]; rfl)
                (by rw [round]; exact result)
              exact ⟨count + 1, reached⟩
          | write =>
              rw [next_slot] at result
              obtain ⟨count, reached⟩ := ih (k + 1) (firmwareStep respond f) (by rw [round]; rfl)
                (by rw [round]; exact result)
              exact ⟨count + 1, reached⟩
          | blockRead =>
              obtain ⟨read, looped, same⟩ := Option.map_eq_some_iff.mp result
              obtain ⟨count, reached⟩ := block_read_rounds _ _ _ rounds 0 _
                (firmwareStep respond f) read (by rw [round]; rfl) (by rw [round]; exact looped)
              rw [← same]
              exact ⟨count + 1, reached⟩
          | bootstrap =>
              refine ⟨1, ?_⟩
              rw [Function.iterate_one, round, ← Option.some.inj result]
              exact ⟨⟨k, rfl⟩, rfl⟩

theorem wait_rounds (fuel : Nat) (f : Firmware) (armed : World) (place : f.place = .waiting)
    (result : waitSentinel respond fuel f.world = some armed) :
    ∃ count, ((firmwareStep respond)^[count] f).place = .slot 0 ∧
      ((firmwareStep respond)^[count] f).world = armed := by
  induction fuel with
  | zero => simp [waitSentinel] at result
  | succ fuel ih =>
      simp only [waitSentinel, poll_reads] at result
      by_cases sentinelSet : loadWord f.world.mailbox 0x100C = sentinel
      · rw [if_neg (not_not.mpr sentinelSet)] at result
        refine ⟨1, ?_⟩
        simp only [Function.iterate_one, firmwareStep, place, poll_reads, if_pos sentinelSet]
        exact ⟨rfl, Option.some.inj result⟩
      · rw [if_pos sentinelSet] at result
        exact ih result

/-- What `hello` does is a run of rounds: from its first loop to where it is left. -/
theorem hello_rounds (fuel : Nat) (f : Firmware) (exit : Exit) (last : World)
    (place : f.place = .waiting) (result : hello respond fuel f.world = some (exit, last)) :
    ∃ count, ((firmwareStep respond)^[count] f).world = last ∧
      (((firmwareStep respond)^[count] f).place = .polling ∨
        ∃ i, ((firmwareStep respond)^[count] f).place = .program i) := by
  simp only [hello, Option.bind_eq_bind, Option.bind_eq_some_iff] at result
  obtain ⟨armed, waited, left, looped, exited⟩ := result
  obtain ⟨before, atSlot, world⟩ := wait_rounds fuel f armed place waited
  rw [← world] at looped
  obtain ⟨count, reached⟩ := interpret_rounds fuel fuel 0 _ left atSlot looped
  rw [← Function.iterate_add_apply] at reached
  refine ⟨count + before, ?_⟩
  cases leaves : left.1 with
  | acknowledge i =>
      rw [leaves] at reached exited
      have same := Option.some.inj exited
      exact ⟨reached.2.trans (congrArg Prod.snd same), .inl reached.1⟩
  | unknownMode =>
      rw [leaves] at reached exited
      have same := Option.some.inj exited
      exact ⟨reached.2.trans (congrArg Prod.snd same), .inl reached.1⟩
  | jump addr2 =>
      rw [leaves] at reached exited
      have same := Option.some.inj exited
      exact ⟨reached.2.trans (congrArg Prod.snd same), .inr reached.1⟩

end Rounds

section Growth

variable (respond : Device) (w : World)

theorem load_byte_grows (addr : BitVec 32) :
    w.history.length ≤ (loadByte respond addr w).2.history.length := by
  unfold loadByte
  split_ifs <;> simp

theorem store_byte_grows (addr : BitVec 32) (data : BitVec 8) :
    w.history.length ≤ (storeByte addr data w).history.length := by
  unfold storeByte
  split_ifs <;> simp

theorem read_code_data32_grows (addr : BitVec 32) :
    w.history.length ≤ (readCodeData32 respond addr w).2.history.length := by
  unfold readCodeData32
  split_ifs <;> simp

theorem write_code_data32_grows (addr data : BitVec 32) :
    w.history.length ≤ (writeCodeData32 addr data w).history.length := by
  unfold writeCodeData32
  split_ifs <;> simp

theorem myputchar_grows (c : BitVec 8) : w.history.length ≤ (myputchar c w).history.length :=
  write_code_data32_grows w uartBase (c.setWidth 32)

theorem read_code_data8_grows (addr : BitVec 32) :
    w.history.length ≤ (readCodeData8 respond addr w).2.history.length :=
  ((load_byte_grows respond w addr).trans (load_byte_grows respond _ _)).trans
    ((load_byte_grows respond _ _).trans (load_byte_grows respond _ _))

theorem my_stat_grows : w.history.length < (myStat respond 0 w).2.history.length := by
  rw [my_stat_device, List.length_append]
  exact Nat.lt_succ_self _

theorem fold_grows {Item : Type} (op : World → Item → World)
    (grows : ∀ w item, w.history.length ≤ (op w item).history.length) (items : List Item) :
    w.history.length ≤ (items.foldl op w).history.length := by
  induction items generalizing w with
  | nil => exact Nat.le_refl _
  | cons item items ih => exact (grows w item).trans (ih (op w item))

theorem myputs_grows (str : String) : w.history.length ≤ (myputs str w).history.length :=
  fold_grows w _ (fun w _ => myputchar_grows w _) str.toList

theorem myputhex_grows (width : Nat) (n : BitVec 32) :
    w.history.length ≤ (myputhex width n w).history.length := by
  induction width generalizing n with
  | zero => exact myputchar_grows w _
  | succ width ih =>
      cases width with
      | zero => exact myputchar_grows w _
      | succ width => exact (ih _).trans (myputchar_grows _ _)

theorem memcpy_grows (dst src : BitVec 32) (count : Nat) :
    w.history.length ≤ (memcpy respond dst src count w).history.length :=
  fold_grows w _ (fun w _ => (load_byte_grows respond w _).trans (store_byte_grows _ _ _)) _

theorem word_line_grows (addr : BitVec 32) :
    let word := readCodeData32 respond addr (myputchar 0x3A (myputhex 8 addr w))
    w.history.length ≤
      (myputchar 0x0A (myputchar 0x0D (myputhex 8 word.1 word.2))).history.length := by
  intro word
  have address := (myputhex_grows w 8 addr).trans (myputchar_grows _ 0x3A)
  have number := address.trans (read_code_data32_grows respond _ addr)
  exact ((number.trans (myputhex_grows _ 8 _)).trans (myputchar_grows _ 0x0D)).trans
    (myputchar_grows _ 0x0A)

theorem bootstrap_grows (addr2 : BitVec 32) :
    w.history.length ≤ (bootstrap respond addr2 w).history.length := by
  have copied := (myputs_grows w "Bootstrapping from ethernet ...\r\n").trans
    (memcpy_grows respond _ 0x2000 (mailboxBase + 0x2000) 0xE000)
  have listed := copied.trans (fold_grows _ _
    (fun w i => word_line_grows respond w (addr2 + BitVec.ofNat 32 (4 * i))) (List.range 8))
  exact listed.trans (myputs_grows _ _)

theorem acknowledge_history (i : BitVec 32) : (acknowledge i w).history = w.history := by
  rw [acknowledge_stores]

end Growth

section Repeats

variable {respond : Device} {f : Firmware}

theorem carry_out_grows (i : Nat) (slot : Fetch) (mode : EdclMode) :
    slot.world.history.length ≤ (carryOut respond i slot f mode).world.history.length := by
  cases mode with
  | unknown => exact Nat.le_of_eq (congrArg List.length (acknowledge_history slot.world _).symm)
  | read =>
      exact (read_code_data32_grows respond slot.world _).trans (write_code_data32_grows _ _ _)
  | write =>
      exact (read_code_data8_grows respond slot.world _).trans (write_code_data32_grows _ _ _)
  | blockRead =>
      exact (read_code_data8_grows respond slot.world _).trans
        (Nat.le_of_lt (my_stat_grows respond _))
  | bootstrap => exact bootstrap_grows respond slot.world _

theorem carry_out_returned (i : Nat) (slot : Fetch) (mode : EdclMode) {history : List Access}
    (returned : f.returned = some history) :
    (carryOut respond i slot f mode).returned = some history := by
  cases mode with
  | unknown =>
      change f.returned.or _ = _
      rw [returned]
      rfl
  | read => exact returned
  | write => exact returned
  | blockRead => exact returned
  | bootstrap => exact returned

theorem serve_grows (i : Nat) :
    f.world.history.length < (serveSlot respond i f).world.history.length := by
  have fetched : f.world.history.length < (fetch respond i f.world).world.history.length :=
    (my_stat_grows respond f.world).trans_le
      ((read_code_data8_grows respond _ _).trans (read_code_data8_grows respond _ _))
  simp only [serveSlot]
  split
  · exact fetched.trans_le (carry_out_grows i _ _)
  · exact fetched.trans_le (myputs_grows _ _)

theorem serve_returned (i : Nat) {history : List Access} (returned : f.returned = some history) :
    (serveSlot respond i f).returned = some history := by
  simp only [serveSlot]
  split
  · exact carry_out_returned i _ _ returned
  · change f.returned.or _ = _
    rw [returned]
    rfl

theorem polling_calls (polling : f.place = .polling) (armed : Armed f.world.mailbox) :
    firmwareStep respond f = goTo .waiting f.world f := by
  have found : loadWord f.world.mailbox 0x100C = sentinel := armed
  simp only [firmwareStep, polling, poll_reads, found, if_true]

theorem waiting_enters (waiting : f.place = .waiting) (armed : Armed f.world.mailbox) :
    firmwareStep respond f = goTo (.slot 0) f.world f := by
  have found : loadWord f.world.mailbox 0x100C = sentinel := armed
  simp only [firmwareStep, waiting, poll_reads, found, if_true]

/-- Behind the exit by the default case the sentinel is still set: three rounds later
slot 0 is served again. -/
theorem default_exit_repeats (i : Nat) (place : f.place = .slot i) (running : f.returned = none)
    (unknown : edclMode (fetch respond i f.world).mode = none) (armed : Armed f.world.mailbox) :
    ¬AtMostOnce ((firmwareStep respond)^[4] f) := by
  have left : firmwareStep respond f =
      helloReturns (myputs "unknown mode\r\n" (fetch respond i f.world).world) f := by
    simp only [firmwareStep, place, serveSlot, unknown]
  have polling : (firmwareStep respond f).place = .polling := by
    rw [left]
    rfl
  have still : Armed (firmwareStep respond f).world.mailbox := by
    rw [left]
    change Armed (myputs _ _).mailbox
    rw [myputs_keeps, fetch_keeps]
    exact armed
  have returned : (firmwareStep respond f).returned =
      some (firmwareStep respond f).world.history := by
    rw [left]
    change f.returned.or _ = _
    rw [running]
    rfl
  have entered : (firmwareStep respond)^[3] f =
      goTo (.slot 0) (firmwareStep respond f).world (firmwareStep respond f) := by
    change firmwareStep respond (firmwareStep respond (firmwareStep respond f)) = _
    rw [polling_calls polling still]
    exact waiting_enters rfl still
  have served : (firmwareStep respond)^[4] f =
      serveSlot respond 0 ((firmwareStep respond)^[3] f) := by
    rw [Function.iterate_succ_apply', entered]
    rfl
  intro most
  rw [served] at most
  have ended : ((firmwareStep respond)^[3] f).returned =
      some (firmwareStep respond f).world.history := by
    rw [entered]
    exact returned
  have kept : (serveSlot respond 0 ((firmwareStep respond)^[3] f)).returned =
      some (firmwareStep respond f).world.history := serve_returned 0 ended
  have grown : ((firmwareStep respond)^[3] f).world.history.length <
      (serveSlot respond 0 ((firmwareStep respond)^[3] f)).world.history.length := serve_grows 0
  rw [most.quiet _ kept, entered] at grown
  exact Nat.lt_irrefl _ grown

/-- A slot that the loop has passed before is carried out again. -/
theorem passed_slot_repeats (i : Nat) (invariant : Invariant f) (place : f.place = .slot i)
    (passed : ¬Unpassed i f) (known : edclMode (fetch respond i f.world).mode ≠ none)
    (carried : edclMode (fetch respond i f.world).mode ≠ some .unknown) :
    ¬AtMostOnce (firmwareStep respond f) := by
  have here := invariant.place
  simp only [AtPlace, place] at here
  simp only [Unpassed, not_forall, not_not] at passed
  obtain ⟨k, earlier, later, same⟩ := passed
  have member := (here.2.2 k).mpr ⟨later, earlier⟩
  have executed : (firmwareStep respond f).executed = (f.arms, i) :: f.executed := by
    simp only [firmwareStep, place, serveSlot]
    split
    · next mode found =>
        rw [found] at carried
        cases mode with
        | unknown => exact absurd rfl carried
        | read | write | blockRead | bootstrap => rfl
    · next unknown => exact absurd unknown known
  intro most
  have once := most.once
  rw [executed, List.map_cons, List.nodup_cons] at once
  exact once.1 (List.mem_map.mpr ⟨(f.arms, k), member, by rw [same]⟩)

end Repeats

/-- A write to `0x00600014`, then a slot of a mode that the enumeration does not have. -/
private def unknownSlots (word : Nat) : BitVec 32 :=
  match word with
  | 0 => 2
  | 1 => 0x00600014
  | 3 => 1
  | 4 => 5
  | 0x403 => 0xDEADBEEF
  | _ => 0

private def unknownWorld : World where
  mailbox := fun place => wordByte (unknownSlots (place / 4)) (place % 4)
  history := []

private def sevenRounds : List Event := List.replicate 7 .firmware

theorem unknown_mode_repeats_write :
    (runEvents (step fun _ => 0) (boot unknownWorld) sevenRounds).executed = [(0, 0), (0, 0)] ∧
      ¬∀ (respond : Device) (w : World) (events : List Event),
        AtMostOnce (runEvents (step respond) (boot w) events) := by
  have twice : (runEvents (step fun _ => 0) (boot unknownWorld) sevenRounds).executed =
      [(0, 0), (0, 0)] := by
    decide +kernel
  refine ⟨twice, ?_⟩
  intro always
  have once := (always (fun _ => 0) unknownWorld sevenRounds).once
  rw [twice] at once
  exact absurd once (by decide)

end MinionSubsystem.MailboxPolling
