import MinionSubsystem.ClockedRun

/-!
# The memory port `coremem`

The state machine that grants an access and answers it a clock later. The ready
inputs of its write and read channels are tied to 1 in the source, so of the
five states only three are reached, and each waiting state lasts one clock.
-/

namespace MinionSubsystem.Coremem

open MinionSubsystem.ClockedRun

set_option autoImplicit false

inductive PortState where
  | idle
  | readWait
  | writeData
  | writeAddr
  | writeWait
  deriving DecidableEq, Repr, Inhabited

structure State where
  cs : PortState
  rValidI : Bool
  bValidI : Bool
  deriving DecidableEq

structure Request where
  dataReq : Bool
  dataWe : Bool
  dataAddr : BitVec 32
  deriving DecidableEq

structure Wires where
  ns : PortState
  dataGntO : Bool
  awValidO : Bool
  arValidO : Bool
  wValidO : Bool

def awReadyI : Bool := true

def arReadyI : Bool := true

def wReadyI : Bool := true

def silent (ns : PortState) : Wires where
  ns := ns
  dataGntO := false
  awValidO := false
  arValidO := false
  wValidO := false

def dataRvalidO (s : State) : Bool :=
  match s.cs with
  | .writeWait => s.bValidI
  | .readWait => s.rValidI
  | .idle | .writeData | .writeAddr => false

def wires (i : Request) (s : State) : Wires :=
  match s.cs with
  | .idle =>
      if i.dataReq then
        if i.dataWe then
          { ns :=
              if awReadyI then if wReadyI then .writeWait else .writeData
              else if wReadyI then .writeAddr else .idle
            dataGntO := awReadyI && wReadyI
            awValidO := true
            arValidO := false
            wValidO := true }
        else
          { silent (if arReadyI then .readWait else .idle) with
            dataGntO := arReadyI
            arValidO := true }
      else silent .idle
  | .writeData =>
      { silent (if wReadyI then .writeWait else .writeData) with
        dataGntO := wReadyI
        wValidO := true }
  | .writeAddr =>
      { silent (if awReadyI then .writeWait else .writeAddr) with
        dataGntO := awReadyI
        awValidO := true }
  | .writeWait => silent (if s.bValidI then .idle else .writeWait)
  | .readWait => silent (if s.rValidI then .idle else .readWait)

def reset : State where
  cs := .idle
  rValidI := false
  bValidI := false

def step (i : Request) (s : State) : State :=
  let w := wires i s
  { cs := w.ns
    rValidI := w.dataGntO && w.arValidO
    bValidI := w.dataGntO && w.wValidO }

/-- Idle, or waiting with the answer already there. -/
def Answering (s : State) : Prop :=
  s.cs = .idle ∨ (s.cs = .readWait ∧ s.rValidI = true) ∨ (s.cs = .writeWait ∧ s.bValidI = true)

variable {i : Request} {s : State}

/-- A granted access is answered in the next clock and the port is idle behind it. -/
theorem step_answering (answering : Answering s) :
    Answering (step i s) ∧
      ((step i s).cs = .idle ↔ ¬(s.cs = .idle ∧ i.dataReq = true)) := by
  rcases answering with idle | ⟨reading, valid⟩ | ⟨writing, valid⟩
  · cases request : i.dataReq with
    | false => simp [step, wires, idle, request, silent, Answering]
    | true =>
        cases write : i.dataWe <;>
          simp [step, wires, idle, request, write, silent, Answering, awReadyI, arReadyI, wReadyI]
  · simp [step, wires, reading, valid, silent, Answering]
  · simp [step, wires, writing, valid, silent, Answering]

theorem grant_iff (answering : Answering s) :
    (wires i s).dataGntO = true ↔ s.cs = .idle ∧ i.dataReq = true := by
  rcases answering with idle | ⟨reading, _⟩ | ⟨writing, _⟩
  · cases request : i.dataReq with
    | false => simp [wires, idle, request, silent]
    | true =>
        cases write : i.dataWe <;>
          simp [wires, idle, request, write, awReadyI, arReadyI, wReadyI]
  · simp [wires, reading, silent]
  · simp [wires, writing, silent]

theorem rvalid_iff (answering : Answering s) : dataRvalidO s = true ↔ s.cs ≠ .idle := by
  rcases answering with idle | ⟨reading, valid⟩ | ⟨writing, valid⟩
  · simp [dataRvalidO, idle]
  · simp [dataRvalidO, reading, valid]
  · simp [dataRvalidO, writing, valid]

def port (master : Nat → Request) : Nat → State := run step reset master

def granted (master : Nat → Request) (clock : Nat) : Bool :=
  (wires (master clock) (port master clock)).dataGntO

variable {master : Nat → Request}

theorem port_answering (master : Nat → Request) (clock : Nat) : Answering (port master clock) := by
  induction clock with
  | zero => exact Or.inl rfl
  | succ clock ih => exact (step_answering ih).1

theorem granted_iff (clock : Nat) :
    granted master clock = true ↔
      (port master clock).cs = .idle ∧ (master clock).dataReq = true :=
  grant_iff (port_answering master clock)

/-- The port waits in exactly the clock behind a grant. -/
theorem waits_iff (clock : Nat) :
    (port master (clock + 1)).cs ≠ .idle ↔ granted master clock = true := by
  have next : (step (master clock) (port master clock)).cs = .idle ↔ _ :=
    (step_answering (port_answering master clock)).2
  rw [granted_iff, ← not_iff_not, ← next, not_not]
  rfl

theorem waits_behind_grant (clock : Nat) (waits : (port master clock).cs ≠ .idle) :
    ∃ earlier, clock = earlier + 1 ∧ granted master earlier = true := by
  cases clock with
  | zero => exact absurd rfl waits
  | succ clock => exact ⟨clock, rfl, (waits_iff clock).mp waits⟩

theorem idle_behind_wait (clock : Nat) (waits : (port master clock).cs ≠ .idle) :
    (port master (clock + 1)).cs = .idle := by
  by_contra again
  exact waits ((granted_iff clock).mp ((waits_iff clock).mp again)).1

theorem answer_behind_grant (clock : Nat) (grant : granted master clock = true) :
    dataRvalidO (port master (clock + 1)) = true :=
  (rvalid_iff (port_answering master (clock + 1))).mpr ((waits_iff clock).mpr grant)

/-- The protocol of the core's masters: request, address and write enable stay
until the grant. A new request may come as soon as the next clock. -/
def HeldUntilGrant (master : Nat → Request) : Prop :=
  ∀ clock, (master clock).dataReq = true → granted master clock = false →
    master (clock + 1) = master clock

end MinionSubsystem.Coremem
