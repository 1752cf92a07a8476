import Mathlib.Data.List.Chain
import Mathlib.Data.List.Nodup
import Mathlib.Logic.Function.Basic
import Mathlib.Logic.Relation
import Mathlib.Tactic.SplitIfs
import Mathlib.Tactic.Tauto

/-!
# Chains of linked cells

A table says of each cell whether it is free, the last of a chain, or followed by another
one. Chains that have no cell in common are kept apart by what is done to one of them.
-/

namespace MinionSubsystem.LinkedCells

set_option autoImplicit false

variable {α : Type}

inductive Link (α : Type) where
  | free
  | last
  | next (target : α)
  deriving DecidableEq, Repr

/-- Each cell is followed by the next one, and the last one by none. -/
def Chain (table : α → Link α) (cells : List α) : Prop :=
  cells.IsChain (fun cell target => table cell = .next target) ∧
    ∀ cell, cells.getLast? = some cell → table cell = .last

structure Owned (table : α → Link α) (files : List (List α)) : Prop where
  chains : ∀ cells ∈ files, Chain table cells
  apart : files.flatten.Nodup

section Chains

variable {table : α → Link α}

theorem chain_nil : Chain table [] :=
  ⟨List.isChain_nil, fun _ last => nomatch last⟩

theorem chain_singleton {cell : α} : Chain table [cell] ↔ table cell = .last := by
  constructor
  · intro chain
    exact chain.2 cell rfl
  · intro last
    refine ⟨List.isChain_singleton cell, ?_⟩
    intro other same
    rw [← Option.some.inj same]
    exact last

theorem chain_cons_cons {cell target : α} {cells : List α} :
    Chain table (cell :: target :: cells) ↔
      table cell = .next target ∧ Chain table (target :: cells) := by
  have tail : (cell :: target :: cells).getLast? = (target :: cells).getLast? := by
    simp [List.getLast?_cons_cons]
  rw [Chain, Chain, List.isChain_cons_cons, tail]
  tauto

theorem chain_tail {cell : α} {cells : List α} (chain : Chain table (cell :: cells)) :
    Chain table cells := by
  cases cells with
  | nil => exact chain_nil
  | cons target cells => exact (chain_cons_cons.mp chain).2

theorem chain_drop {cells : List α} (chain : Chain table cells) (count : Nat) :
    Chain table (cells.drop count) := by
  induction count generalizing cells with
  | zero => exact chain
  | succ count ih =>
      cases cells with
      | nil => exact chain_nil
      | cons cell cells => exact ih (chain_tail chain)

/-- What the table says of a cell of a chain is the cell behind it. -/
theorem chain_at {cells : List α} (chain : Chain table cells) {place : Nat} {cell : α}
    (here : cells[place]? = some cell) :
    table cell = match cells[place + 1]? with
      | some target => .next target
      | none => .last := by
  induction place generalizing cells with
  | zero =>
      cases cells with
      | nil => exact absurd here (by simp)
      | cons first cells =>
          have same : first = cell := by simpa using here
          cases cells with
          | nil => exact same ▸ chain_singleton.mp chain
          | cons target cells => exact same ▸ (chain_cons_cons.mp chain).1
  | succ place ih =>
      cases cells with
      | nil => exact absurd here (by simp)
      | cons first cells => exact ih (chain_tail chain) (by simpa using here)

theorem chain_not_free {cells : List α} (chain : Chain table cells) {cell : α}
    (member : cell ∈ cells) : table cell ≠ .free := by
  obtain ⟨place, here⟩ := List.mem_iff_getElem?.mp member
  rw [chain_at chain here]
  split <;> simp

/-- A chain depends on its own cells. -/
theorem chain_congr {other : α → Link α} {cells : List α} (chain : Chain table cells)
    (same : ∀ cell ∈ cells, other cell = table cell) : Chain other cells := by
  induction cells with
  | nil => exact chain_nil
  | cons cell cells ih =>
      have here := same cell List.mem_cons_self
      have rest := ih (chain_tail chain) fun cell member =>
        same cell (List.mem_cons_of_mem _ member)
      cases cells with
      | nil => exact chain_singleton.mpr (here.trans (chain_singleton.mp chain))
      | cons target cells =>
          exact chain_cons_cons.mpr ⟨here.trans (chain_cons_cons.mp chain).1, rest⟩

/-- A cell that is linked behind the last one. -/
theorem chain_concat {cells : List α} {new : α} {other : α → Link α}
    (chain : Chain table cells) (alone : cells.Nodup)
    (kept : ∀ cell ∈ cells, cells.getLast? ≠ some cell → other cell = table cell)
    (linked : ∀ cell, cells.getLast? = some cell → other cell = .next new)
    (ended : other new = .last) : Chain other (cells ++ [new]) := by
  induction cells with
  | nil => exact chain_singleton.mpr ended
  | cons cell cells ih =>
      cases cells with
      | nil => exact chain_cons_cons.mpr ⟨linked cell rfl, chain_singleton.mpr ended⟩
      | cons target cells =>
          have tail : (cell :: target :: cells).getLast? = (target :: cells).getLast? := by
            simp [List.getLast?_cons_cons]
          have outside := (List.nodup_cons.mp alone).1
          have inner : (cell :: target :: cells).getLast? ≠ some cell := by
            rw [tail]
            exact fun last => outside (List.mem_of_getLast? last)
          rw [tail] at kept linked
          refine chain_cons_cons.mpr ⟨?_, ih (chain_tail chain) (List.nodup_cons.mp alone).2 ?_
            linked⟩
          · rw [kept cell List.mem_cons_self (tail ▸ inner)]
            exact (chain_cons_cons.mp chain).1
          · exact fun cell member => kept cell (List.mem_cons_of_mem _ member)

/-- A chain that is ended at one of its cells. -/
theorem chain_take {cells : List α} {other : α → Link α} (chain : Chain table cells)
    (alone : cells.Nodup) {count : Nat} {cell : α} (here : cells[count]? = some cell)
    (kept : ∀ inner ∈ cells.take count, other inner = table inner)
    (ended : other cell = .last) : Chain other (cells.take (count + 1)) := by
  induction count generalizing cells with
  | zero =>
      cases cells with
      | nil => exact absurd here (by simp)
      | cons first cells =>
          have same : first = cell := by simpa using here
          exact chain_singleton.mpr (same ▸ ended)
  | succ count ih =>
      cases cells with
      | nil => exact absurd here (by simp)
      | cons first cells =>
          have rest : cells[count]? = some cell := by simpa using here
          have shorter := ih (chain_tail chain) (List.nodup_cons.mp alone).2 rest
            (fun inner member => kept inner (List.mem_cons_of_mem _ member))
          cases cells with
          | nil => exact absurd rest (by simp)
          | cons target cells =>
              refine chain_cons_cons.mpr ⟨?_, shorter⟩
              rw [kept first List.mem_cons_self]
              exact (chain_cons_cons.mp chain).1

end Chains

section Count

/-- One cell that comes to be counted. -/
theorem count_one_more {cells : List α} (alone : cells.Nodup) (old new : α → Bool) {cell : α}
    (member : cell ∈ cells) (before : old cell = false) (now : new cell = true)
    (same : ∀ other ∈ cells, other ≠ cell → new other = old other) :
    cells.countP new = cells.countP old + 1 := by
  induction cells with
  | nil => exact absurd member List.not_mem_nil
  | cons first cells ih =>
      obtain ⟨outside, inner⟩ := List.nodup_cons.mp alone
      by_cases here : first = cell
      · have rest : cells.countP new = cells.countP old := by
          apply List.countP_congr
          intro other there
          have apart : other ≠ cell := fun equal => outside (here ▸ equal ▸ there)
          rw [same other (List.mem_cons_of_mem _ there) apart]
        rw [List.countP_cons_of_pos (here ▸ now), List.countP_cons_of_neg (by simp [here, before]),
          rest]
      · have there : cell ∈ cells := (List.mem_cons.mp member).resolve_left (Ne.symm here)
        have rest := ih inner there fun other place => same other (List.mem_cons_of_mem _ place)
        have equal := same first List.mem_cons_self here
        rw [List.countP_cons, List.countP_cons, rest, equal]
        omega

end Count

section Files

variable {table other : α → Link α} {before after : List (List α)}
  {cells : List α}

theorem owned_member (owned : Owned table (before ++ cells :: after)) :
    Chain table cells ∧ cells.Nodup ∧
      ∀ cell ∈ cells, ∀ file, file ∈ before ∨ file ∈ after → cell ∉ file := by
  obtain ⟨chains, apart⟩ := owned
  rw [List.flatten_append, List.flatten_cons] at apart
  refine ⟨chains cells (by simp), apart.of_append_right.of_append_left, ?_⟩
  intro cell member file place inside
  rcases place with early | late
  · exact List.disjoint_of_nodup_append apart (List.mem_flatten.mpr ⟨file, early, inside⟩)
      (List.mem_append_left _ member)
  · exact List.disjoint_of_nodup_append apart.of_append_right member
      (List.mem_flatten.mpr ⟨file, late, inside⟩)

/-- A change of one file and of cells that no other file has. -/
theorem owned_change (owned : Owned table (before ++ cells :: after)) {changed : List α}
    (chain : Chain other changed) (alone : changed.Nodup)
    (fresh : ∀ cell ∈ changed, cell ∈ cells ∨ table cell = .free)
    (kept : ∀ cell, cell ∉ cells → table cell ≠ .free → other cell = table cell) :
    Owned other (before ++ changed :: after) := by
  obtain ⟨own, _, separate⟩ := owned_member owned
  obtain ⟨chains, apart⟩ := owned
  have rest : ∀ file, file ∈ before ∨ file ∈ after → Chain table file := by
    intro file place
    apply chains
    simp only [List.mem_append, List.mem_cons]
    tauto
  have outside : ∀ cell ∈ changed, ∀ file, file ∈ before ∨ file ∈ after → cell ∉ file := by
    intro cell member file place inside
    rcases fresh cell member with old | free
    · exact separate cell old file place inside
    · exact chain_not_free (rest file place) inside free
  have stays : ∀ file, file ∈ before ∨ file ∈ after → Chain other file := by
    intro file place
    apply chain_congr (rest file place)
    intro cell member
    apply kept cell
    · exact fun old => separate cell old file place member
    · exact chain_not_free (rest file place) member
  refine ⟨?_, ?_⟩
  · intro file member
    simp only [List.mem_append, List.mem_cons] at member
    rcases member with early | rfl | late
    · exact stays file (.inl early)
    · exact chain
    · exact stays file (.inr late)
  · rw [List.flatten_append, List.flatten_cons] at apart ⊢
    have behind := apart.of_append_right.of_append_right
    have inner : (changed ++ after.flatten).Nodup := by
      apply List.Nodup.append alone behind
      intro cell member flat
      obtain ⟨file, late, inside⟩ := List.mem_flatten.mp flat
      exact outside cell member file (.inr late) inside
    apply List.Nodup.append apart.of_append_left inner
    intro cell flat member
    obtain ⟨file, early, inside⟩ := List.mem_flatten.mp flat
    rcases List.mem_append.mp member with new | late
    · exact outside cell new file (.inl early) inside
    · exact List.disjoint_of_nodup_append apart flat (List.mem_append_right _ late)

/-- The change of the file at one place of the list. -/
theorem owned_set {files : List (List α)} (owned : Owned table files) {place : Nat}
    (here : files[place]? = some cells) {changed : List α} (chain : Chain other changed)
    (alone : changed.Nodup) (fresh : ∀ cell ∈ changed, cell ∈ cells ∨ table cell = .free)
    (kept : ∀ cell, cell ∉ cells → table cell ≠ .free → other cell = table cell) :
    Owned other (files.set place changed) := by
  obtain ⟨inside, same⟩ := List.getElem?_eq_some_iff.mp here
  have split : files = files.take place ++ cells :: files.drop (place + 1) := by
    rw [← same, List.getElem_cons_drop, List.take_append_drop]
  rw [List.set_eq_take_append_cons_drop, if_pos inside]
  rw [split] at owned
  exact owned_change owned chain alone fresh kept

/-- The cells of all files, where one has changed. -/
theorem flatten_set_length {files : List (List α)} {place : Nat}
    (here : files[place]? = some cells) (changed : List α) :
    (files.set place changed).flatten.length + cells.length =
      files.flatten.length + changed.length := by
  obtain ⟨inside, same⟩ := List.getElem?_eq_some_iff.mp here
  have split : files = files.take place ++ cells :: files.drop (place + 1) := by
    rw [← same, List.getElem_cons_drop, List.take_append_drop]
  have whole := congrArg (fun list => list.flatten.length) split
  rw [List.set_eq_take_append_cons_drop, if_pos inside]
  simp only [List.flatten_append, List.flatten_cons, List.length_append] at whole ⊢
  omega

end Files

section Reach

def Reached (table : α → Link α) : α → α → Prop :=
  Relation.ReflTransGen fun cell target => table cell = .next target

variable {table other : α → Link α} {cell target goal : α}

theorem reached_end (ended : ∀ target, table cell ≠ .next target) :
    Reached table cell goal ↔ goal = cell := by
  constructor
  · intro reached
    rcases Relation.ReflTransGen.cases_head reached with same | ⟨middle, step, _⟩
    · exact same.symm
    · exact absurd step (ended middle)
  · intro same
    rw [same]
    exact Relation.ReflTransGen.refl

/-- What is reached from a cell that is freed is reached behind it without it. -/
theorem reached_freed (here : table cell = .next target) (freed : other cell = .free)
    (same : ∀ apart, apart ≠ cell → other apart = table apart) :
    Reached table cell goal ↔ goal = cell ∨ Reached other target goal := by
  have no_link : ∀ behind, other cell ≠ .next behind := by
    intro behind
    rw [freed]
    exact fun free => nomatch free
  constructor
  · intro reached
    induction reached with
    | refl => exact .inl rfl
    | @tail middle last _ step ih =>
        by_cases at_cell : middle = cell
        · rw [at_cell, here] at step
          rw [← Link.next.inj step]
          exact .inr Relation.ReflTransGen.refl
        · exact .inr ((ih.resolve_left at_cell).tail ((same middle at_cell).trans step))
  · intro reached
    rcases reached with start | behind
    · rw [start]
      exact Relation.ReflTransGen.refl
    · have still : Reached table target goal := by
        refine Relation.ReflTransGen.mono ?_ _ _ behind
        intro middle last step
        have apart : middle ≠ cell := fun at_cell => no_link last (at_cell ▸ step)
        exact (same middle apart).symm.trans step
      exact still.head here

end Reach

end MinionSubsystem.LinkedCells
