import Mathlib.Tactic.SplitIfs
import MinionSubsystem.Coremem

/-!
# The load-store unit of the core as a master of `coremem`

The request side of `riscv_load_store_unit`, coupled to the port as in
`minion_soc`. It keeps the port's protocol as long as the EX stage keeps an
access that the unit is not ready for.
-/

namespace MinionSubsystem.LoadStoreUnit

open MinionSubsystem.ClockedRun
open MinionSubsystem.Coremem

set_option autoImplicit false

inductive UnitState where
  | idle
  | waitRvalid
  | waitRvalidExStall
  | idleExStall
  deriving DecidableEq, Repr

structure ExStage where
  dataReqExI : Bool
  dataWeExI : Bool
  operandAExI : BitVec 32
  operandBExI : BitVec 32
  addrUseincrExI : Bool
  exValidI : Bool

def dataAddrInt (i : ExStage) : BitVec 32 :=
  if i.addrUseincrExI then i.operandAExI + i.operandBExI else i.operandAExI

def dataReqO (i : ExStage) (dataRvalidI : Bool) : UnitState → Bool
  | .idle => i.dataReqExI
  | .waitRvalid => dataRvalidI && i.dataReqExI
  | .waitRvalidExStall | .idleExStall => false

def lsuReadyExO (i : ExStage) (dataGntI dataRvalidI : Bool) : UnitState → Bool
  | .idle => if i.dataReqExI then dataGntI else true
  | .waitRvalid => if dataRvalidI && i.dataReqExI then dataGntI else true
  | .waitRvalidExStall | .idleExStall => true

def granted (i : ExStage) : UnitState :=
  if i.exValidI then .waitRvalid else .waitRvalidExStall

def nextState (i : ExStage) (dataGntI dataRvalidI : Bool) : UnitState → UnitState
  | .idle => if i.dataReqExI && dataGntI then granted i else .idle
  | .waitRvalid =>
      if dataRvalidI then if i.dataReqExI && dataGntI then granted i else .idle
      else .waitRvalid
  | .waitRvalidExStall =>
      if dataRvalidI then if i.exValidI then .idle else .idleExStall
      else if i.exValidI then .waitRvalid
      else .waitRvalidExStall
  | .idleExStall => if i.exValidI then .idle else .idleExStall

structure Core where
  lsu : UnitState
  port : Coremem.State

def resetCore : Core where
  lsu := .idle
  port := Coremem.reset

def request (i : ExStage) (c : Core) : Request where
  dataReq := dataReqO i (dataRvalidO c.port) c.lsu
  dataWe := i.dataWeExI
  dataAddr := dataAddrInt i

def dataGnt (i : ExStage) (c : Core) : Bool := (wires (request i c) c.port).dataGntO

def stepCore (i : ExStage) (c : Core) : Core where
  lsu := nextState i (dataGnt i c) (dataRvalidO c.port) c.lsu
  port := Coremem.step (request i c) c.port

def core (ex : Nat → ExStage) : Nat → Core := run stepCore resetCore ex

def lsuMaster (ex : Nat → ExStage) (clock : Nat) : Request := request (ex clock) (core ex clock)

/-- The EX stage keeps its operands while the unit is not ready. -/
def Stalls (ex : Nat → ExStage) : Prop :=
  ∀ clock, lsuReadyExO (ex clock) (dataGnt (ex clock) (core ex clock))
      (dataRvalidO (core ex clock).port) (core ex clock).lsu = false →
    ex (clock + 1) = { ex clock with exValidI := (ex (clock + 1)).exValidI }

variable {ex : Nat → ExStage}

theorem lsu_port (clock : Nat) : port (lsuMaster ex) clock = (core ex clock).port := by
  induction clock with
  | zero => rfl
  | succ clock ih =>
      change Coremem.step _ (port (lsuMaster ex) clock) = Coremem.step _ _
      rw [ih]
      rfl

theorem lsu_granted (clock : Nat) :
    Coremem.granted (lsuMaster ex) clock = dataGnt (ex clock) (core ex clock) := by
  rw [Coremem.granted, lsu_port]
  rfl

/-- An access of the unit that is not granted stays on the bus. -/
theorem lsu_follows_protocol (stalls : Stalls ex) : HeldUntilGrant (lsuMaster ex) := by
  intro clock requested refused
  rw [lsu_granted] at refused
  have present : (ex clock).dataReqExI = true ∧
      lsuReadyExO (ex clock) false (dataRvalidO (core ex clock).port) (core ex clock).lsu =
        false ∧
      nextState (ex clock) false (dataRvalidO (core ex clock).port) (core ex clock).lsu =
        .idle := by
    change dataReqO (ex clock) (dataRvalidO (core ex clock).port) (core ex clock).lsu = true
      at requested
    cases unit : (core ex clock).lsu with
    | idle =>
        rw [unit] at requested
        have asked : (ex clock).dataReqExI = true := requested
        simp [lsuReadyExO, nextState, asked]
    | waitRvalid =>
        rw [unit] at requested
        simp only [dataReqO, Bool.and_eq_true] at requested
        simp [lsuReadyExO, nextState, requested.1, requested.2]
    | waitRvalidExStall | idleExStall =>
        rw [unit] at requested
        exact absurd requested (by simp [dataReqO])
  rcases present with ⟨asked, unready, next⟩
  have kept := stalls clock (by rw [refused]; exact unready)
  have idle : (core ex (clock + 1)).lsu = .idle := by
    change nextState (ex clock) (dataGnt (ex clock) (core ex clock)) _ _ = _
    rw [refused]
    exact next
  have again : (lsuMaster ex (clock + 1)).dataReq = true := by
    change dataReqO (ex (clock + 1)) _ (core ex (clock + 1)).lsu = true
    rw [idle, kept]
    exact asked
  have same : lsuMaster ex (clock + 1) =
      { dataReq := (lsuMaster ex (clock + 1)).dataReq
        dataWe := (ex clock).dataWeExI
        dataAddr := dataAddrInt (ex clock) } := by
    simp only [lsuMaster, request]
    rw [kept]
    rfl
  rw [same, again, ← requested]
  rfl

end MinionSubsystem.LoadStoreUnit
