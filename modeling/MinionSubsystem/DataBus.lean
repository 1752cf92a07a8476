import MinionSubsystem.LoadStoreUnit

/-!
# The data bus of `minion_soc`

The address decoder selects one of sixteen slaves by bits 23:20. A FIFO strobe
is decoded from the request on the bus, not from its grant, and the read
multiplexer from the address on the bus, not from the granted one; the two
results say exactly which sequences of accesses notice.
-/

namespace MinionSubsystem.DataBus

open MinionSubsystem.ClockedRun
open MinionSubsystem.Coremem
open MinionSubsystem.LoadStoreUnit

set_option autoImplicit false

def region (addr : BitVec 32) : Nat := (addr.extractLsb' 20 4).toNat

def oneHotDataAddr (addr : BitVec 32) (slave : Nat) : Bool := region addr = slave

def regionStore (slave : Nat) (m : Request) : Bool :=
  m.dataReq && m.dataWe && oneHotDataAddr m.dataAddr slave

def uartRxFifoRdEn : Request → Bool := regionStore 3

def rxFifoRdEn : Request → Bool := regionStore 4

def txFifoWrEn : Request → Bool := regionStore 5

def keybFifoRdEn : Request → Bool := regionStore 9

inductive FifoSlot where
  | uartRxFifo
  | rxFifo
  | txFifo
  | keybFifo
  deriving DecidableEq, Repr

def fifoEnable : FifoSlot → Request → Bool
  | .uartRxFifo => uartRxFifoRdEn
  | .rxFifo => rxFifoRdEn
  | .txFifo => txFifoWrEn
  | .keybFifo => keybFifoRdEn

theorem fifo_enable_requests {slot : FifoSlot} {m : Request} (enabled : fifoEnable slot m = true) :
    m.dataReq = true := by
  cases slot <;>
    simp_all [fifoEnable, uartRxFifoRdEn, rxFifoRdEn, txFifoWrEn, keybFifoRdEn, regionStore]

section Strobes

variable (master : Nat → Request)

/-- The first clock an access granted at `clock` can have been on the bus: the one
behind the grant before it. -/
def opened : Nat → Nat
  | 0 => 0
  | clock + 1 => if granted master clock then clock + 1 else opened clock

/-- Every granted store to a FIFO slot strobes its FIFO in one clock of the time it
is on the bus, and every strobe is part of such a store. -/
def ExactlyOnce : Prop :=
  (∀ slot clock, granted master clock = true → fifoEnable slot (master clock) = true →
    clocksHigh (fifoEnable slot) master (opened master clock)
      (clock + 1 - opened master clock) = 1) ∧
  ∀ slot clock, fifoEnable slot (master clock) = true →
    ∃ store, granted master store = true ∧ fifoEnable slot (master store) = true ∧
      opened master store ≤ clock ∧ clock ≤ store

def NoOverlap : Prop :=
  ∀ slot clock, (port master clock).cs ≠ .idle → fifoEnable slot (master clock) = false

variable {master}

theorem opened_le (clock : Nat) : opened master clock ≤ clock := by
  induction clock with
  | zero => exact Nat.le_refl 0
  | succ clock ih =>
      unfold opened
      split_ifs
      · exact Nat.le_refl _
      · exact Nat.le_succ_of_le ih

theorem not_granted_since_opened (clock earlier : Nat) (since : opened master clock ≤ earlier)
    (before : earlier < clock) : granted master earlier = false := by
  induction clock with
  | zero => exact absurd before (Nat.not_lt_zero earlier)
  | succ clock ih =>
      unfold opened at since
      split_ifs at since with grant
      · omega
      · by_cases last : earlier = clock
        · rw [last]
          simpa using grant
        · exact ih since (by omega)

/-- A request on the bus is granted now or in the next clock. -/
theorem granted_soon (held : HeldUntilGrant master) (clock : Nat)
    (requested : (master clock).dataReq = true) :
    granted master clock = true ∨
      ((port master clock).cs ≠ .idle ∧ granted master clock = false ∧
        granted master (clock + 1) = true ∧ master (clock + 1) = master clock) := by
  cases grant : granted master clock with
  | true => exact Or.inl rfl
  | false =>
      right
      have same := held clock requested grant
      have waits : (port master clock).cs ≠ .idle := by
        intro idle
        rw [(granted_iff clock).mpr ⟨idle, requested⟩] at grant
        exact absurd grant (by decide)
      refine ⟨waits, rfl, (granted_iff (clock + 1)).mpr ⟨idle_behind_wait clock waits, ?_⟩, same⟩
      rw [same]
      exact requested

theorem strobes_belong (held : HeldUntilGrant master) (slot : FifoSlot) (clock : Nat)
    (strobe : fifoEnable slot (master clock) = true) :
    ∃ store, granted master store = true ∧ fifoEnable slot (master store) = true ∧
      opened master store ≤ clock ∧ clock ≤ store := by
  rcases granted_soon held clock (fifo_enable_requests strobe) with
    grant | ⟨_, refused, later, same⟩
  · exact ⟨clock, grant, strobe, opened_le clock, Nat.le_refl clock⟩
  · refine ⟨clock + 1, later, by rw [same]; exact strobe, ?_, Nat.le_succ clock⟩
    simp only [opened, refused, Bool.false_eq_true, if_false]
    exact opened_le clock

/-- A store raised while the port answers strobes its FIFO twice. -/
theorem overlap_strobes_twice (held : HeldUntilGrant master) (slot : FifoSlot) (clock : Nat)
    (waits : (port master clock).cs ≠ .idle) (strobe : fifoEnable slot (master clock) = true) :
    granted master (clock + 1) = true ∧ fifoEnable slot (master (clock + 1)) = true ∧
      clocksHigh (fifoEnable slot) master (opened master (clock + 1))
        (clock + 1 + 1 - opened master (clock + 1)) = 2 := by
  have requested := fifo_enable_requests strobe
  rcases granted_soon held clock requested with grant | ⟨_, refused, later, same⟩
  · exact absurd ((granted_iff clock).mp grant).1 waits
  · have again : fifoEnable slot (master (clock + 1)) = true := by
      rw [same]
      exact strobe
    rcases waits_behind_grant clock waits with ⟨earlier, rfl, before⟩
    have start : opened master (earlier + 1 + 1) = earlier + 1 := by
      simp only [opened, refused, before, Bool.false_eq_true, if_false, if_true]
    have length : earlier + 1 + 1 + 1 - (earlier + 1) = 0 + 1 + 1 := by omega
    refine ⟨later, again, ?_⟩
    rw [start, length, clocks_high_succ, clocks_high_succ, clocks_high_zero, Nat.add_zero, strobe,
      Nat.zero_add, again]
    rfl

/-- Without such stores the only strobe of a store is in the clock of its grant. -/
theorem no_overlap_strobes_once (apart : NoOverlap master) (slot : FifoSlot) (clock : Nat)
    (strobe : fifoEnable slot (master clock) = true) :
    clocksHigh (fifoEnable slot) master (opened master clock)
      (clock + 1 - opened master clock) = 1 := by
  have before : opened master clock ≤ clock := opened_le clock
  obtain ⟨extra, length⟩ := Nat.exists_eq_add_of_le before
  have quiet : ∀ offset, offset < extra →
      fifoEnable slot (master (opened master clock + 0 + offset)) = false := by
    intro offset inside
    cases early : fifoEnable slot (master (opened master clock + 0 + offset)) with
    | false => rfl
    | true =>
        have refused : granted master (opened master clock + 0 + offset) = false :=
          not_granted_since_opened clock _ (by omega) (by omega)
        by_cases idle : (port master (opened master clock + 0 + offset)).cs = .idle
        · rw [(granted_iff _).mpr ⟨idle, fifo_enable_requests early⟩] at refused
          exact absurd refused (by decide)
        · rw [apart slot _ idle] at early
          exact absurd early (by decide)
  have none := clocks_high_low (fifoEnable slot) master (opened master clock) 0 extra quiet
  rw [Nat.zero_add, clocks_high_zero] at none
  have window : clock + 1 - opened master clock = extra + 1 := by omega
  rw [window, clocks_high_succ, none, ← length, strobe]
  rfl

/-- A master that keeps the port's protocol has every FIFO store take effect exactly
once if and only if it raises none while the port answers another access. -/
theorem fifo_stores_exactly_once (master : Nat → Request) (held : HeldUntilGrant master) :
    ExactlyOnce master ↔ NoOverlap master := by
  constructor
  · intro once slot clock waits
    cases strobe : fifoEnable slot (master clock) with
    | false => rfl
    | true =>
        rcases overlap_strobes_twice held slot clock waits strobe with ⟨grant, again, twice⟩
        have count := once.1 slot (clock + 1) grant again
        rw [twice] at count
        exact absurd count (by decide)
  · intro apart
    exact ⟨fun slot clock _ strobe => no_overlap_strobes_once apart slot clock strobe,
      strobes_belong held⟩

def storesInARow (clock : Nat) : ExStage where
  dataReqExI := clock < 3
  dataWeExI := true
  operandAExI := 0x00500000
  operandBExI := 0
  addrUseincrExI := true
  exValidI := true

private theorem stores_in_a_row_held : HeldUntilGrant (lsuMaster storesInARow) := by
  apply lsu_follows_protocol
  intro clock unready
  by_cases last : clock = 2
  · subst last
    exact absurd unready (by decide)
  · have same : decide (clock + 1 < 3) = decide (clock < 3) := by
      rw [decide_eq_decide]
      omega
    simp only [storesInARow, same]

theorem fifo_stores_exactly_once_in_a_row :
    ExactlyOnce (lsuMaster storesInARow) ↔ NoOverlap (lsuMaster storesInARow) :=
  fifo_stores_exactly_once (lsuMaster storesInARow) stores_in_a_row_held

/-- The core's own load-store unit makes a FIFO take its second store twice. -/
theorem stores_in_a_row_strobe_twice :
    HeldUntilGrant (lsuMaster storesInARow) ∧
      clocksHigh txFifoWrEn (lsuMaster storesInARow) 1 2 = 2 ∧
      ¬ExactlyOnce (lsuMaster storesInARow) := by
  refine ⟨stores_in_a_row_held, by decide, ?_⟩
  intro once
  rcases overlap_strobes_twice stores_in_a_row_held .txFifo 1 (by decide) (by decide) with
    ⟨grant, again, twice⟩
  have count := once.1 .txFifo 2 grant again
  rw [twice] at count
  exact absurd count (by decide)

end Strobes

section ReadData

def coreLsuRdata (addr : BitVec 32) (oneHotRdata : Nat → BitVec 32) : BitVec 32 :=
  (List.range 16).foldl
    (fun rdata slave => rdata ||| if oneHotDataAddr addr slave then oneHotRdata slave else 0) 0

theorem multiplexer_selects (slave count : Nat) (oneHotRdata : Nat → BitVec 32) :
    (List.range count).foldl
      (fun rdata other => rdata ||| if decide (slave = other) then oneHotRdata other else 0) 0 =
        if slave < count then oneHotRdata slave else 0 := by
  induction count with
  | zero => rfl
  | succ count ih =>
      rw [List.range_succ, List.foldl_append, ih]
      by_cases last : slave = count
      · simp [last]
      · have below : slave < count + 1 ↔ slave < count := by omega
        simp [last, below]

theorem core_lsu_rdata_selects (addr : BitVec 32) (oneHotRdata : Nat → BitVec 32) :
    coreLsuRdata addr oneHotRdata = oneHotRdata (region addr) := by
  have bound : region addr < 16 := (addr.extractLsb' 20 4).isLt
  have selected := multiplexer_selects (region addr) 16 oneHotRdata
  rw [if_pos bound] at selected
  exact selected

/-- Whatever the slaves output, every granted load is answered with the output of
the slave its address selected. -/
def LoadsRouted (master : Nat → Request) : Prop :=
  ∀ (oneHotRdata : Nat → Nat → BitVec 32) (clock : Nat), granted master clock = true →
    (master clock).dataWe = false →
    dataRvalidO (port master (clock + 1)) = true ∧
      coreLsuRdata (master (clock + 1)).dataAddr (oneHotRdata (clock + 1)) =
        oneHotRdata (clock + 1) (region (master clock).dataAddr)

def RegionKept (master : Nat → Request) : Prop :=
  ∀ clock, granted master clock = true → (master clock).dataWe = false →
    region (master (clock + 1)).dataAddr = region (master clock).dataAddr

/-- Loads are routed if and only if the core leaves the address on the bus in their
region for the clock behind the grant. -/
theorem loads_routed_iff (master : Nat → Request) : LoadsRouted master ↔ RegionKept master := by
  constructor
  · intro routed clock grant load
    have word := (routed (fun _ slave => BitVec.ofNat 32 slave) clock grant load).2
    rw [core_lsu_rdata_selects] at word
    have left : region (master (clock + 1)).dataAddr < 16 := BitVec.isLt _
    have right : region (master clock).dataAddr < 16 := BitVec.isLt _
    have numbers := congrArg BitVec.toNat word
    simp only [BitVec.toNat_ofNat] at numbers
    omega
  · intro kept oneHotRdata clock grant load
    refine ⟨answer_behind_grant clock grant, ?_⟩
    rw [core_lsu_rdata_selects, kept clock grant load]

def loadThenOther (clock : Nat) : ExStage where
  dataReqExI := clock = 0
  dataWeExI := false
  operandAExI := if clock = 0 then 0x00100000 else 0
  operandBExI := 0
  addrUseincrExI := true
  exValidI := true

/-- The core's own load-store unit reads the data RAM and receives the output of
whatever slave the next instruction's operand selects. -/
theorem load_then_other_misrouted :
    HeldUntilGrant (lsuMaster loadThenOther) ∧ ¬LoadsRouted (lsuMaster loadThenOther) := by
  constructor
  · apply lsu_follows_protocol
    intro clock unready
    cases clock with
    | zero => exact absurd unready (by decide)
    | succ clock => rfl
  · intro routed
    have word := (routed (fun _ slave => BitVec.ofNat 32 slave) 0 (by decide) (by decide)).2
    exact absurd word (by decide)

end ReadData

end MinionSubsystem.DataBus
