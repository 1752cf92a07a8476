import MinionSubsystem.FatTable
import MinionSubsystem.LinkedCells
import Mathlib.Data.List.Perm.Subperm

/-!
# Cluster chains

`create_chain` and `remove_chain` of `ff.c`, with the count of free clusters that they
keep. The chains of the files stay apart in every run of the two on a working drive.
-/

namespace MinionSubsystem.FatChain

open MinionSubsystem.FatWindow MinionSubsystem.FatTable MinionSubsystem.LinkedCells
  MinionSubsystem.PackedTable

set_option autoImplicit false

variable (v : Volume)

def clust2sect (clst : Nat) : Nat :=
  let clst := sub32 clst 2
  if sub32 v.nFatent 2 ≤ clst then 0 else clst * v.csize + v.database

def unknownCount : Nat := 0xFFFFFFFF

def countFreed (fs : Fs) : Fs :=
  if fs.freeClust ≠ unknownCount then
    { fs with freeClust := (fs.freeClust + 1) % 0x100000000, fsiFlag := fs.fsiFlag ||| 1 }
  else fs

def removeLoop : Nat → Nat → Fs → Option (FResult × Fs)
  | 0, _, _ => none
  | fuel + 1, clst, fs =>
      if clst < v.nFatent then
        let got := getFat v clst fs
        if got.1 = 0 then some (.frOk, got.2)
        else if got.1 = 1 then some (.frIntErr, got.2)
        else if got.1 = diskError then some (.frDiskErr, got.2)
        else
          let put := putFat v clst 0 got.2
          if put.1 ≠ .frOk then some put else removeLoop fuel got.1 (countFreed put.2)
      else some (.frOk, fs)

def removeChain (clst : Nat) (fs : Fs) : Option (FResult × Fs) :=
  if clst < 2 ∨ v.nFatent ≤ clst then some (.frIntErr, fs)
  else removeLoop v v.nFatent clst fs

/-- How the search for a free cluster ends: with `break`, or with a value to return. -/
inductive Search where
  | found (ncl : Nat)
  | stopped (value : Nat)
  deriving DecidableEq, Repr

def searchLoop (scl : Nat) : Nat → Nat → Fs → Option (Search × Fs)
  | 0, _, _ => none
  | fuel + 1, ncl, fs =>
      if v.nFatent ≤ ncl + 1 ∧ scl < 2 then some (.stopped 0, fs)
      else
        let ncl := if v.nFatent ≤ ncl + 1 then 2 else ncl + 1
        let got := getFat v ncl fs
        if got.1 = 0 then some (.found ncl, got.2)
        else if got.1 = diskError ∨ got.1 = 1 then some (.stopped got.1, got.2)
        else if ncl = scl then some (.stopped 0, got.2)
        else searchLoop scl fuel ncl got.2

def countTaken (ncl : Nat) (fs : Fs) : Fs :=
  let fs := { fs with lastClust := ncl }
  if fs.freeClust ≠ unknownCount then
    { fs with freeClust := sub32 fs.freeClust 1, fsiFlag := fs.fsiFlag ||| 1 }
  else fs

def lastLink : BitVec 32 := 0x0FFFFFFF

def linkWrites (clst ncl : Nat) (fs : Fs) : FResult × Fs :=
  let first := putFat v ncl lastLink fs
  if first.1 = .frOk ∧ clst ≠ 0 then putFat v clst (BitVec.ofNat 32 ncl) first.2 else first

def linkCluster (clst ncl : Nat) (fs : Fs) : Nat × Fs :=
  let put := linkWrites v clst ncl fs
  if put.1 = .frOk then (ncl, countTaken ncl put.2)
  else (if put.1 = .frDiskErr then diskError else 1, put.2)

def searchFrom (clst scl : Nat) (fs : Fs) : Option (Nat × Fs) :=
  match searchLoop v scl v.nFatent scl fs with
  | some (.found ncl, fs) => some (linkCluster v clst ncl fs)
  | some (.stopped value, fs) => some (value, fs)
  | none => none

def createChain (clst : Nat) (fs : Fs) : Option (Nat × Fs) :=
  if clst = 0 then
    let scl := if fs.lastClust = 0 ∨ v.nFatent ≤ fs.lastClust then 1 else fs.lastClust
    searchFrom v clst scl fs
  else
    let got := getFat v clst fs
    if got.1 < 2 then some (1, got.2)
    else if got.1 = diskError then some (got.1, got.2)
    else if got.1 < v.nFatent then some (got.1, got.2)
    else searchFrom v clst clst got.2

/-- The part of `f_truncate` that shortens the chain behind the current cluster. -/
def cutChain (clust : Nat) (fs : Fs) : Option (FResult × Fs) :=
  let got := getFat v clust fs
  if got.1 = diskError then some (.frDiskErr, got.2)
  else if got.1 = 1 then some (.frIntErr, got.2)
  else if got.1 < v.nFatent then
    let put := putFat v clust lastLink got.2
    if put.1 = .frOk then removeChain v got.1 put.2 else some put
  else some (.frOk, got.2)

def linkOf (fs : Fs) (clst : Nat) : Link Nat :=
  if Cluster v clst then
    let value := fatEntry v fs clst
    if value = 0 then .free else if value < v.nFatent then .next value else .last
  else .free

def clusters : List Nat := (List.range v.nFatent).filter fun clst => 2 ≤ clst

def freeCount (fs : Fs) : Nat := (clusters v).countP fun clst => fatEntry v fs clst = 0

/-- What is known of the number of free clusters is right. -/
def Counted (fs : Fs) : Prop := fs.freeClust ≠ unknownCount → fs.freeClust = freeCount v fs

/-- One free cluster more than is known. -/
def CountedShort (fs : Fs) : Prop :=
  fs.freeClust ≠ unknownCount → fs.freeClust + 1 = freeCount v fs

/-- No entry has the invalid value 1. -/
def Valid (fs : Fs) : Prop := ∀ clst, Cluster v clst → fatEntry v fs clst ≠ 1

structure Allocated (fs : Fs) (files : List (List Nat)) : Prop where
  coherent : Coherent v fs
  owned : Owned (linkOf v fs) files
  valid : Valid v fs
  counted : Counted v fs

/-- What is done to the chain of a file: `f_write` and `f_lseek` stretch it, `f_unlink` and
`f_open` release it, `f_truncate` cuts it behind one of its clusters. -/
inductive Call where
  | stretch (file : Nat)
  | release (file : Nat)
  | cut (file keep : Nat)
  deriving DecidableEq, Repr

def callOn (cells : List Nat) (fs : Fs) : Call → Option (List Nat × Fs)
  | .stretch _ =>
      match createChain v (cells.getLast?.getD 0) fs with
      | some (value, fs) =>
          if value = 0 then some (cells, fs)
          else if value = 1 ∨ value = diskError then none
          else some (cells ++ [value], fs)
      | none => none
  | .release _ =>
      match cells with
      | [] => some ([], fs)
      | first :: _ =>
          match removeChain v first fs with
          | some (.frOk, fs) => some ([], fs)
          | _ => none
  | .cut _ keep =>
      match cells[keep]? with
      | none => some (cells, fs)
      | some clust =>
          match cutChain v clust fs with
          | some (.frOk, fs) => some (cells.take (keep + 1), fs)
          | _ => none

def Call.file : Call → Nat
  | .stretch file => file
  | .release file => file
  | .cut file _ => file

def calls : List Call → List (List Nat) × Fs → Option (List (List Nat) × Fs)
  | [], s => some s
  | call :: rest, (files, fs) =>
      match files[call.file]? with
      | none => calls rest (files, fs)
      | some cells =>
          match callOn v cells fs call with
          | some (changed, fs) => calls rest (files.set call.file changed, fs)
          | none => none

/-- `fs'` differs from `fs` in the FAT and the count only. -/
structure Rewrites (fs fs' : Fs) : Prop where
  content : ∀ place, Plain v place → ¬InTable v place → content fs' place = content fs place
  coherent : Coherent v fs'
  reliable : fs.drive.Reliable → fs'.drive.Reliable
  mirrored : fs.drive.Reliable → Mirrored v fs → Mirrored v fs'

section Links

variable {v}

theorem Rewrites.trans {first middle last : Fs} (one : Rewrites v first middle)
    (two : Rewrites v middle last) : Rewrites v first last where
  content := fun place plain outside =>
    (two.content place plain outside).trans (one.content place plain outside)
  coherent := two.coherent
  reliable := fun reliable => two.reliable (one.reliable reliable)
  mirrored := fun reliable mirrored =>
    two.mirrored (one.reliable reliable) (one.mirrored reliable mirrored)

theorem keeps_rewrites {fs fs' : Fs} (keeps : Keeps v fs fs') : Rewrites v fs fs' where
  content := keeps.content
  coherent := keeps.coherent
  reliable := keeps.reliable
  mirrored := keeps.mirrored

/-- The counts are not looked at by the window. -/
theorem recount_rewrites {fs : Fs} (coherent : Coherent v fs) (flag : BitVec 8)
    (clst count : Nat) :
    Rewrites v fs { fs with fsiFlag := flag, lastClust := clst, freeClust := count } where
  content := fun _ _ _ => rfl
  coherent := ⟨coherent.sector, coherent.clean, coherent.own⟩
  reliable := id
  mirrored := fun _ => id

theorem count_freed_rewrites {fs : Fs} (coherent : Coherent v fs) :
    Rewrites v fs (countFreed fs) := by
  unfold countFreed
  split_ifs
  · exact recount_rewrites coherent _ _ _
  · exact recount_rewrites coherent _ _ _

theorem count_freed_entry (fs : Fs) (clst : Nat) :
    fatEntry v (countFreed fs) clst = fatEntry v fs clst := by
  unfold countFreed
  split_ifs <;> rfl

theorem count_taken_rewrites {fs : Fs} (coherent : Coherent v fs) (ncl : Nat) :
    Rewrites v fs (countTaken ncl fs) := by
  unfold countTaken
  dsimp only
  split_ifs
  · exact recount_rewrites coherent _ _ _
  · exact recount_rewrites coherent _ _ _

theorem count_taken_entry (fs : Fs) (ncl clst : Nat) :
    fatEntry v (countTaken ncl fs) clst = fatEntry v fs clst := by
  unfold countTaken
  dsimp only
  split_ifs <;> rfl

theorem mem_clusters (clst : Nat) : clst ∈ clusters v ↔ Cluster v clst := by
  rw [clusters, List.mem_filter, List.mem_range, Cluster]
  simp only [decide_eq_true_eq]
  exact and_comm

theorem clusters_nodup : (clusters v).Nodup := List.nodup_range.filter _

theorem clusters_length : (clusters v).length < v.nFatent := by
  have some_cluster := v.some_cluster
  have fewer : (clusters v).length < (List.range v.nFatent).length := by
    apply List.length_filter_lt_length_iff_exists.mpr
    exact ⟨0, List.mem_range.mpr (by omega), by decide⟩
  rwa [List.length_range] at fewer

theorem free_count_lt (fs : Fs) : freeCount v fs < v.nFatent :=
  Nat.lt_of_le_of_lt List.countP_le_length clusters_length

theorem few_clusters : v.nFatent < unknownCount := by
  have few := v.few_entries
  have bits : 2 ^ v.fsType.width.bits ≤ 2 ^ 28 := by
    cases v.fsType <;> decide
  have bound : 2 ^ 28 < unknownCount := by decide
  omega

theorem link_congr {fs fs' : Fs} (clst : Nat)
    (same : Cluster v clst → fatEntry v fs' clst = fatEntry v fs clst) :
    linkOf v fs' clst = linkOf v fs clst := by
  unfold linkOf
  by_cases cluster : Cluster v clst
  · rw [if_pos cluster, if_pos cluster, same cluster]
  · rw [if_neg cluster, if_neg cluster]

theorem link_free {fs : Fs} {clst : Nat} (cluster : Cluster v clst) :
    linkOf v fs clst = .free ↔ fatEntry v fs clst = 0 := by
  rw [linkOf, if_pos cluster]
  dsimp only
  split_ifs with zero <;> simp [zero]

theorem link_cluster {fs : Fs} {clst : Nat} (used : linkOf v fs clst ≠ .free) :
    Cluster v clst := by
  by_contra outside
  exact used (if_neg outside)

theorem link_next {fs : Fs} {clst target : Nat} (linked : linkOf v fs clst = .next target) :
    fatEntry v fs clst = target ∧ target ≠ 0 ∧ target < v.nFatent := by
  have cluster := link_cluster (by rw [linked]; exact fun free => nomatch free)
  rw [linkOf, if_pos cluster] at linked
  dsimp only at linked
  split_ifs at linked with zero inside
  have same := Link.next.inj linked
  exact ⟨same, same ▸ zero, same ▸ inside⟩

theorem link_last {fs : Fs} {clst : Nat} (linked : linkOf v fs clst = .last) :
    v.nFatent ≤ fatEntry v fs clst := by
  have cluster := link_cluster (by rw [linked]; exact fun free => nomatch free)
  rw [linkOf, if_pos cluster] at linked
  dsimp only at linked
  split_ifs at linked with zero inside
  exact Nat.le_of_not_lt inside

/-- The value that marks a last cluster is no cluster. -/
theorem last_value : v.nFatent ≤ lastLink.toNat % 2 ^ v.fsType.width.bits := by
  have few := v.few_entries
  cases kind : v.fsType with
  | fat12 =>
      have mark : lastLink.toNat % 2 ^ FatType.fat12.width.bits = 4095 := by decide
      have bits : 2 ^ FatType.fat12.width.bits = 4096 := by decide
      rw [kind, bits] at few
      omega
  | fat16 =>
      have mark : lastLink.toNat % 2 ^ FatType.fat16.width.bits = 65535 := by decide
      have bits : 2 ^ FatType.fat16.width.bits = 65536 := by decide
      rw [kind, bits] at few
      omega
  | fat32 =>
      have mark : lastLink.toNat % 2 ^ FatType.fat32.width.bits = 268435455 := by decide
      have bits : 2 ^ FatType.fat32.width.bits = 268435456 := by decide
      rw [kind, bits] at few
      omega

theorem cluster_value {clst : Nat} (cluster : Cluster v clst) :
    (BitVec.ofNat 32 clst).toNat % 2 ^ v.fsType.width.bits = clst := by
  have few := v.few_entries
  have small := few_clusters (v := v)
  have bound : unknownCount < 2 ^ 32 := by decide
  rw [Cluster] at cluster
  rw [BitVec.toNat_ofNat, Nat.mod_eq_of_lt (a := clst) (by omega)]
  exact Nat.mod_eq_of_lt (by omega)

end Links

section Search

variable {v}

/-- The clusters that the search has been at, which starts behind `scl` and wraps around. -/
def Seen (scl ncl clst : Nat) : Prop :=
  if scl ≤ ncl then scl < clst ∧ clst ≤ ncl else scl < clst ∨ clst ≤ ncl

def rounds (v : Volume) (scl ncl : Nat) : Nat :=
  if scl ≤ ncl then v.nFatent - 1 - ncl + max (scl - 1) 1 else scl - ncl

def Outcome (v : Volume) (fs : Fs) : Search → Prop
  | .found ncl => Cluster v ncl ∧ fatEntry v fs ncl = 0
  | .stopped value =>
      value = diskError ∧ ¬fs.drive.Reliable ∨
        value = 1 ∧ (∃ clst, Cluster v clst ∧ fatEntry v fs clst = 1) ∨
        value = 0 ∧ ∀ clst, Cluster v clst → fatEntry v fs clst ≠ 0

theorem shows_outcome {fs fs' : Fs} (shown : Shows v fs fs') (s : Search)
    (outcome : Outcome v fs' s) : Outcome v fs s := by
  cases s with
  | found ncl =>
      refine ⟨outcome.1, ?_⟩
      rw [← shows_fat_entry shown ncl outcome.1.2]
      exact outcome.2
  | stopped value =>
      rcases outcome with ⟨same, faulty⟩ | ⟨same, clst, cluster, one⟩ | ⟨same, full⟩
      · exact .inl ⟨same, fun reliable => faulty (shown.reliable reliable)⟩
      · refine .inr (.inl ⟨same, clst, cluster, ?_⟩)
        rw [← shows_fat_entry shown clst cluster.2]
        exact one
      · refine .inr (.inr ⟨same, ?_⟩)
        intro clst cluster
        rw [← shows_fat_entry shown clst cluster.2]
        exact full clst cluster

theorem entry_ne_disk_error (fs : Fs) (clst : Nat) : fatEntry v fs clst ≠ diskError := by
  have small := entry_lt v.fsType.width (content fs) (512 * v.fatbase) clst
  have bits : 2 ^ v.fsType.width.bits ≤ 2 ^ 28 := by
    cases v.fsType <;> decide
  have bound : 2 ^ 28 < diskError := by decide
  rw [fatEntry]
  omega

/-- Every round that goes on has seen one more cluster that is not free. -/
theorem search_loop_searched (scl : Nat) (start : 1 ≤ scl ∧ scl < v.nFatent) (fuel ncl : Nat)
    (here : ncl < v.nFatent ∧ (scl ≤ ncl ∨ 2 ≤ ncl)) (enough : rounds v scl ncl ≤ fuel)
    {fs : Fs} (coherent : Coherent v fs)
    (taken : ∀ clst, Cluster v clst → Seen scl ncl clst → fatEntry v fs clst ≠ 0) :
    ∃ s fs', searchLoop v scl fuel ncl fs = some (s, fs') ∧ Shows v fs fs' ∧
      Outcome v fs s := by
  induction fuel generalizing ncl fs with
  | zero =>
      rw [rounds] at enough
      split_ifs at enough <;> omega
  | succ fuel ih =>
      rw [searchLoop]
      by_cases upon : v.nFatent ≤ ncl + 1 ∧ scl < 2
      · refine ⟨_, _, if_pos upon, Shows.refl coherent, .inr (.inr ⟨rfl, ?_⟩)⟩
        intro clst cluster
        apply taken clst cluster
        rw [Cluster] at cluster
        rw [Seen, if_pos (by omega)]
        omega
      · rw [if_neg upon]
        generalize step : (if v.nFatent ≤ ncl + 1 then 2 else ncl + 1) = new
        have cluster : Cluster v new := by
          have some_cluster := v.some_cluster
          rw [← step, Cluster]
          split_ifs <;> omega
        have got := get_fat_got coherent new cluster
        dsimp only
        by_cases free : (getFat v new fs).1 = 0
        · refine ⟨_, _, if_pos free, got.shows, cluster, ?_⟩
          rcases got.value with bad | good
          · exact absurd (bad.symm.trans free) (by decide)
          · exact good.symm.trans free
        · rw [if_neg free]
          by_cases bad : (getFat v new fs).1 = diskError ∨ (getFat v new fs).1 = 1
          · refine ⟨_, _, if_pos bad, got.shows, ?_⟩
            rcases bad with failed | one
            · refine .inl ⟨failed, fun reliable => ?_⟩
              exact entry_ne_disk_error fs new ((got.done reliable).symm.trans failed)
            · refine .inr (.inl ⟨one, new, cluster, ?_⟩)
              rcases got.value with failed | good
              · exact absurd (failed.symm.trans one) (by decide)
              · exact good.symm.trans one
          · rw [if_neg bad]
            have used : fatEntry v fs new ≠ 0 := by
              rcases got.value with failed | good
              · exact absurd (.inl failed) bad
              · exact fun zero => free (good.trans zero)
            by_cases round : new = scl
            · refine ⟨_, _, if_pos round, got.shows, .inr (.inr ⟨rfl, ?_⟩)⟩
              intro clst there
              by_cases same : clst = new
              · exact same ▸ used
              · apply taken clst there
                rw [Cluster] at there
                rw [Seen]
                split_ifs at step ⊢ <;> omega
            · rw [if_neg round]
              have more : rounds v scl new ≤ fuel := by
                rw [rounds] at enough ⊢
                split_ifs at step enough ⊢ <;> omega
              obtain ⟨s, fs', ran, shown, outcome⟩ := ih new
                (by rw [Cluster] at cluster; omega) more got.shows.coherent (by
                  intro clst there behind
                  rw [shows_fat_entry got.shows clst there.2]
                  by_cases same : clst = new
                  · exact same ▸ used
                  · apply taken clst there
                    rw [Cluster] at there
                    rw [Seen] at behind ⊢
                    split_ifs at step behind ⊢ <;> omega)
              exact ⟨s, fs', ran, got.shows.trans shown, shows_outcome got.shows s outcome⟩

end Search

section Remove

variable {v}

structure Freed (v : Volume) (cells : List Nat) (fs fs' : Fs) : Prop where
  rewrites : Rewrites v fs fs'
  freed : ∀ clst ∈ cells, fatEntry v fs' clst = 0
  others : ∀ clst, clst < v.nFatent → clst ∉ cells → fatEntry v fs' clst = fatEntry v fs clst
  count : freeCount v fs' = freeCount v fs + cells.length
  counted : Counted v fs → Counted v fs'

theorem shows_count {fs fs' : Fs} (shown : Shows v fs fs') : freeCount v fs' = freeCount v fs := by
  apply List.countP_congr
  intro clst member
  rw [shows_fat_entry shown clst ((mem_clusters clst).mp member).2]

theorem freed_none {fs fs' : Fs} (shown : Shows v fs fs') : Freed v [] fs fs' where
  rewrites := keeps_rewrites (shows_keeps shown)
  freed := fun _ member => absurd member List.not_mem_nil
  others := fun clst bound _ => shows_fat_entry shown clst bound
  count := shows_count shown
  counted := by
    intro counted known
    rw [shows_count shown, shown.freeClust]
    exact counted (shown.freeClust ▸ known)

theorem Freed.cons {clst : Nat} {cells : List Nat} {first middle last : Fs}
    (one : Freed v [clst] first middle) (rest : Freed v cells middle last)
    (bound : clst < v.nFatent) (outside : clst ∉ cells) : Freed v (clst :: cells) first last where
  rewrites := one.rewrites.trans rest.rewrites
  freed := by
    intro other member
    rcases List.mem_cons.mp member with same | later
    · rw [same, rest.others clst bound outside]
      exact one.freed clst List.mem_cons_self
    · exact rest.freed other later
  others := by
    intro other inside apart
    rw [List.mem_cons, not_or] at apart
    rw [rest.others other inside apart.2]
    exact one.others other inside (by simpa using apart.1)
  count := by
    rw [rest.count, one.count, List.length_cons, List.length_cons, List.length_nil]
    omega
  counted := fun counted => rest.counted (one.counted counted)

theorem shows_freed {first fs fs' : Fs} {cells : List Nat} (shown : Shows v first fs)
    (freed : Freed v cells fs fs') : Freed v cells first fs' where
  rewrites := (keeps_rewrites (shows_keeps shown)).trans freed.rewrites
  freed := freed.freed
  others := fun other bound apart =>
    (freed.others other bound apart).trans (shows_fat_entry shown other bound)
  count := freed.count.trans (congrArg (· + cells.length) (shows_count shown))
  counted := fun counted => freed.counted ((freed_none shown).counted counted)

/-- One entry that was in use and is free now. -/
theorem count_freed {fs fs' : Fs} {clst : Nat} (cluster : Cluster v clst)
    (used : fatEntry v fs clst ≠ 0) (free : fatEntry v fs' clst = 0)
    (others : ∀ other, other < v.nFatent → other ≠ clst →
      fatEntry v fs' other = fatEntry v fs other) :
    freeCount v fs' = freeCount v fs + 1 := by
  apply count_one_more clusters_nodup _ _ ((mem_clusters clst).mpr cluster)
  · exact decide_eq_false used
  · exact decide_eq_true free
  · intro other member apart
    rw [others other ((mem_clusters other).mp member).2 apart]

theorem count_freed_count (fs : Fs) : freeCount v (countFreed fs) = freeCount v fs := by
  unfold countFreed
  split_ifs <;> rfl

theorem put_freed {fs : Fs} {clst : Nat} (cluster : Cluster v clst)
    (used : fatEntry v fs clst ≠ 0) {r : FResult × Fs} (put : Put v clst 0 fs r)
    (ok : r.1 = .frOk) : Freed v [clst] fs (countFreed r.2) := by
  have more : freeCount v r.2 = freeCount v fs + 1 := by
    apply count_freed cluster used _ put.others
    rw [put.entry ok]
    exact Nat.zero_mod _
  exact
  { rewrites := (keeps_rewrites put.keeps).trans (count_freed_rewrites put.keeps.coherent)
    freed := by
      intro other member
      rw [List.mem_singleton.mp member, count_freed_entry, put.entry ok]
      exact Nat.zero_mod _
    others := by
      intro other bound apart
      rw [count_freed_entry]
      exact put.others other bound (by simpa using apart)
    count := (count_freed_count r.2).trans more
    counted := by
      intro counted known
      have few := free_count_lt (v := v) r.2
      have small := few_clusters (v := v)
      have top : unknownCount = 0xFFFFFFFF := rfl
      rw [count_freed_count, more]
      unfold countFreed at known ⊢
      rw [put.keeps.freeClust] at known ⊢
      split_ifs at known ⊢ with old
      · dsimp only at known ⊢
        have right := counted old
        omega
      · exact absurd (put.keeps.freeClust ▸ known) old }

/-- Of a write that fails the cluster may be free or not. -/
theorem put_count {fs : Fs} {clst : Nat} (cluster : Cluster v clst) (used : fatEntry v fs clst ≠ 0)
    {value : BitVec 32} {r : FResult × Fs} (put : Put v clst value fs r) :
    freeCount v r.2 = freeCount v fs ∨ freeCount v r.2 = freeCount v fs + 1 := by
  by_cases free : fatEntry v r.2 clst = 0
  · exact .inr (count_freed cluster used free put.others)
  · refine .inl (List.countP_congr ?_)
    intro other member
    have there := (mem_clusters other).mp member
    by_cases here : other = clst
    · rw [here]
      simp only [free, used]
    · rw [put.others other there.2 here]

/-- `remove_chain` frees a chain from its first cluster to its last one. -/
theorem remove_loop_freed (cells : List Nat) (fuel clst : Nat) {fs : Fs}
    (coherent : Coherent v fs) (reliable : fs.drive.Reliable) (valid : Valid v fs)
    (chain : Chain (linkOf v fs) cells) (alone : cells.Nodup) (enough : cells.length < fuel)
    (start : match cells.head? with
      | some first => clst = first
      | none => v.nFatent ≤ clst) :
    ∃ fs', removeLoop v fuel clst fs = some (.frOk, fs') ∧ Freed v cells fs fs' := by
  induction cells generalizing fuel clst fs with
  | nil =>
      cases fuel with
      | zero => omega
      | succ fuel =>
          exact ⟨fs, if_neg (Nat.not_lt.mpr start), freed_none (Shows.refl coherent)⟩
  | cons first cells ih =>
      cases fuel with
      | zero => omega
      | succ fuel =>
          have same : clst = first := start
          subst same
          obtain ⟨outside, inner⟩ := List.nodup_cons.mp alone
          have used := chain_not_free chain List.mem_cons_self
          have cluster := link_cluster used
          have nonzero : fatEntry v fs clst ≠ 0 := fun zero => used ((link_free cluster).mpr zero)
          have got := get_fat_got coherent clst cluster
          have value := got.done reliable
          have entry_same := shows_fat_entry got.shows clst cluster.2
          have put := put_fat_put got.shows.coherent clst cluster 0
          have ok := put.done (got.shows.reliable reliable)
          have one : Freed v [clst] fs (countFreed (putFat v clst 0 (getFat v clst fs).2).2) :=
            shows_freed got.shows (put_freed cluster (by rw [entry_same]; exact nonzero) put ok)
          have next_same : ∀ other ∈ cells,
              fatEntry v (countFreed (putFat v clst 0 (getFat v clst fs).2).2) other =
                fatEntry v fs other := by
            intro other member
            have there := link_cluster (chain_not_free (chain_tail chain) member)
            exact one.others other there.2 (by
              rw [List.mem_singleton]
              exact fun equal => outside (equal ▸ member))
          have rest := ih fuel (getFat v clst fs).1 one.rewrites.coherent
            (one.rewrites.reliable reliable)
            (by
              intro other there
              by_cases equal : other = clst
              · rw [equal, one.freed clst List.mem_cons_self]
                decide
              · rw [one.others other there.2 (by simpa using equal)]
                exact valid other there)
            (chain_congr (chain_tail chain) fun other member =>
              link_congr other fun _ => next_same other member)
            inner (by rw [List.length_cons] at enough; omega)
            (by
              rw [value]
              have first : (clst :: cells)[0]? = some clst := rfl
              have here := chain_at chain first
              cases cells with
              | nil => exact link_last here
              | cons target cells => exact (link_next here).1)
          obtain ⟨fs', ran, freed⟩ := rest
          refine ⟨fs', ?_, one.cons freed cluster.2 outside⟩
          rw [removeLoop, if_pos cluster.2]
          dsimp only
          rw [if_neg (value ▸ nonzero), if_neg (value ▸ valid clst cluster),
            if_neg (value ▸ entry_ne_disk_error fs clst), if_neg (not_not.mpr ok)]
          exact ran

theorem chain_length {fs : Fs} {cells : List Nat} (chain : Chain (linkOf v fs) cells)
    (alone : cells.Nodup) : cells.length < v.nFatent := by
  have inside : cells ⊆ clusters v := fun clst member =>
    (mem_clusters clst).mpr (link_cluster (chain_not_free chain member))
  exact Nat.lt_of_le_of_lt (List.subperm_of_subset alone inside).length_le clusters_length

theorem remove_chain_freed {fs : Fs} {first : Nat} {cells : List Nat}
    (coherent : Coherent v fs) (reliable : fs.drive.Reliable) (valid : Valid v fs)
    (chain : Chain (linkOf v fs) (first :: cells)) (alone : (first :: cells).Nodup) :
    ∃ fs', removeChain v first fs = some (.frOk, fs') ∧ Freed v (first :: cells) fs fs' := by
  have cluster := link_cluster (chain_not_free chain List.mem_cons_self)
  have range : ¬(first < 2 ∨ v.nFatent ≤ first) := by
    rw [Cluster] at cluster
    omega
  rw [removeChain, if_neg range]
  exact remove_loop_freed (first :: cells) v.nFatent first coherent reliable valid chain alone
    (chain_length chain alone) rfl

end Remove

section Create

variable {v}

structure Linked (v : Volume) (clst ncl : Nat) (fs fs' : Fs) : Prop where
  rewrites : Rewrites v fs fs'
  ended : v.nFatent ≤ fatEntry v fs' ncl
  linked : clst ≠ 0 → fatEntry v fs' clst = ncl
  others : ∀ other, other < v.nFatent → other ≠ ncl → other ≠ clst →
    fatEntry v fs' other = fatEntry v fs other
  count : freeCount v fs = freeCount v fs' + 1
  counted : Counted v fs → Counted v fs'

/-- The clusters in use keep their entries, `clst` apart. -/
def Spared (v : Volume) (clst : Nat) (fs fs' : Fs) : Prop :=
  ∀ other, Cluster v other → other ≠ clst → fatEntry v fs other ≠ 0 →
    fatEntry v fs' other = fatEntry v fs other

theorem shows_spared {first fs fs' : Fs} {clst : Nat} (shown : Shows v first fs)
    (spared : Spared v clst fs fs') : Spared v clst first fs' := by
  intro other cluster apart used
  have same := shows_fat_entry shown other cluster.2
  rw [← same] at used ⊢
  exact spared other cluster apart used

theorem spared_refl (clst : Nat) (fs : Fs) : Spared v clst fs fs := fun _ _ _ _ => rfl

theorem count_taken {fs fs' : Fs} {ncl : Nat} (cluster : Cluster v ncl)
    (free : fatEntry v fs ncl = 0) (used : fatEntry v fs' ncl ≠ 0)
    (others : ∀ other, Cluster v other → other ≠ ncl →
      (fatEntry v fs' other = 0 ↔ fatEntry v fs other = 0)) :
    freeCount v fs = freeCount v fs' + 1 := by
  apply count_one_more clusters_nodup _ _ ((mem_clusters ncl).mpr cluster)
  · exact decide_eq_false used
  · exact decide_eq_true free
  · intro other member apart
    exact decide_eq_decide.mpr (others other ((mem_clusters other).mp member) apart).symm

theorem count_taken_count (ncl : Nat) (fs : Fs) :
    freeCount v (countTaken ncl fs) = freeCount v fs := by
  unfold countTaken
  dsimp only
  split_ifs <;> rfl

/-- Taking one cluster off the count. -/
theorem counted_taken {fs fs' : Fs} (ncl : Nat) (same : fs'.freeClust = fs.freeClust)
    (fewer : freeCount v fs = freeCount v fs' + 1) (counted : Counted v fs) :
    Counted v (countTaken ncl fs') := by
  have few := free_count_lt (v := v) fs
  have small := few_clusters (v := v)
  have top : unknownCount = 0xFFFFFFFF := rfl
  intro known
  rw [count_taken_count]
  unfold countTaken at known ⊢
  dsimp only at known ⊢
  rw [same] at known ⊢
  split_ifs at known ⊢ with old
  · have right := counted old
    dsimp only [sub32] at known ⊢
    omega
  · exact absurd (same ▸ known) old

theorem count_taken_last (ncl : Nat) (fs : Fs) : (countTaken ncl fs).lastClust = ncl := by
  unfold countTaken
  dsimp only
  split_ifs <;> rfl

/-- With the end mark in the new cluster, and the link in front of it where there is one, the
cluster is taken. -/
theorem marked_linked {fs fs' : Fs} {clst ncl : Nat} (cluster : Cluster v ncl)
    (free : fatEntry v fs ncl = 0) (keeps : Keeps v fs fs')
    (used : clst ≠ 0 → fatEntry v fs clst ≠ 0) (ended : v.nFatent ≤ fatEntry v fs' ncl)
    (linked : clst ≠ 0 → fatEntry v fs' clst = ncl)
    (others : ∀ other, other < v.nFatent → other ≠ ncl → other ≠ clst →
      fatEntry v fs' other = fatEntry v fs other) :
    Linked v clst ncl fs (countTaken ncl fs') := by
  have some_cluster := v.some_cluster
  have fewer : freeCount v fs = freeCount v fs' + 1 := by
    apply count_taken cluster free (by omega)
    intro other place new
    by_cases old : other = clst
    · rw [Cluster] at cluster place
      have behind : clst ≠ 0 := by omega
      rw [old, linked behind]
      exact ⟨fun zero => absurd zero (by omega), fun zero => absurd zero (used behind)⟩
    · rw [others other place.2 new old]
  exact
    { rewrites := (keeps_rewrites keeps).trans (count_taken_rewrites keeps.coherent ncl)
      ended := by
        rw [count_taken_entry]
        exact ended
      linked := by
        rw [count_taken_entry]
        exact linked
      others := by
        intro other bound new old
        rw [count_taken_entry]
        exact others other bound new old
      count := by
        rw [count_taken_count]
        exact fewer
      counted := counted_taken ncl keeps.freeClust fewer }

/-- A free cluster is linked, unless a write fails. -/
theorem link_cluster_attempt {fs : Fs} {clst ncl : Nat} (coherent : Coherent v fs)
    (cluster : Cluster v ncl) (free : fatEntry v fs ncl = 0)
    (behind : clst = 0 ∨ Cluster v clst ∧ fatEntry v fs clst ≠ 0) :
    (linkWrites v clst ncl fs).1 = .frOk ∧
        Linked v clst ncl fs (countTaken ncl (linkWrites v clst ncl fs).2) ∨
      (linkWrites v clst ncl fs).1 = .frDiskErr ∧ ¬fs.drive.Reliable ∧
        Rewrites v fs (linkWrites v clst ncl fs).2 ∧
        Spared v clst fs (linkWrites v clst ncl fs).2 := by
  have used_apart : ∀ other, fatEntry v fs other ≠ 0 → other ≠ ncl := by
    rintro other used rfl
    exact used free
  have first := put_fat_put coherent ncl cluster lastLink
  have end_value := last_value (v := v)
  by_cases ok : (putFat v ncl lastLink fs).1 = .frOk
  · have marked := first.entry ok
    by_cases alone : clst = 0
    · have writes : linkWrites v clst ncl fs = putFat v ncl lastLink fs :=
        if_neg fun both => both.2 alone
      rw [writes]
      refine .inl ⟨ok, marked_linked cluster free first.keeps (fun some => absurd alone some) ?_
        (fun some => absurd alone some) fun other bound apart _ => first.others other bound apart⟩
      rw [marked]
      exact end_value
    · obtain ⟨there, used⟩ := behind.resolve_left alone
      have apart : clst ≠ ncl := used_apart clst used
      have second := put_fat_put first.keeps.coherent clst there (BitVec.ofNat 32 ncl)
      have writes : linkWrites v clst ncl fs =
          putFat v clst (BitVec.ofNat 32 ncl) (putFat v ncl lastLink fs).2 := if_pos ⟨ok, alone⟩
      have kept : ∀ other, other < v.nFatent → other ≠ ncl → other ≠ clst →
          fatEntry v (putFat v clst (BitVec.ofNat 32 ncl) (putFat v ncl lastLink fs).2).2 other =
            fatEntry v fs other := fun other bound new old =>
        (second.others other bound old).trans (first.others other bound new)
      rw [writes]
      rcases second.result with done | failed
      · refine .inl ⟨done, marked_linked cluster free (first.keeps.trans second.keeps)
          (fun _ => used) ?_ (fun _ => ?_) kept⟩
        · rw [second.others ncl cluster.2 apart.symm, marked]
          exact end_value
        · rw [second.entry done]
          exact cluster_value cluster
      · refine .inr ⟨failed, ?_, keeps_rewrites (first.keeps.trans second.keeps),
          fun other place old in_use => kept other place.2 (used_apart other in_use) old⟩
        intro reliable
        have done := second.done (first.keeps.reliable reliable)
        rw [failed] at done
        exact FResult.noConfusion done
  · have writes : linkWrites v clst ncl fs = putFat v ncl lastLink fs :=
      if_neg fun both => ok both.1
    rw [writes]
    exact .inr ⟨first.result.resolve_left ok, fun reliable => ok (first.done reliable),
      keeps_rewrites first.keeps, fun other place _ in_use =>
        first.others other place.2 (used_apart other in_use)⟩

inductive Created (v : Volume) (clst : Nat) (fs : Fs) : Nat × Fs → Prop where
  | full {fs' : Fs} (shows_same : Shows v fs fs')
      (none_free : ∀ other, Cluster v other → fatEntry v fs other ≠ 0) : Created v clst fs (0, fs')
  | taken {ncl : Nat} {fs' : Fs} (cluster : Cluster v ncl) (free : fatEntry v fs ncl = 0)
      (linked : Linked v clst ncl fs fs') (last : fs'.lastClust = ncl) :
      Created v clst fs (ncl, fs')

theorem shows_linked {first fs fs' : Fs} {clst ncl : Nat} (shown : Shows v first fs)
    (linked : Linked v clst ncl fs fs') : Linked v clst ncl first fs' where
  rewrites := (keeps_rewrites (shows_keeps shown)).trans linked.rewrites
  ended := linked.ended
  linked := linked.linked
  others := fun other bound new old =>
    (linked.others other bound new old).trans (shows_fat_entry shown other bound)
  count := (shows_count shown).symm.trans linked.count
  counted := fun counted => linked.counted ((freed_none shown).counted counted)

theorem shows_created {first fs : Fs} {clst : Nat} {r : Nat × Fs} (shown : Shows v first fs)
    (created : Created v clst fs r) : Created v clst first r := by
  cases created with
  | full same none_free =>
      refine .full (shown.trans same) ?_
      intro other place
      rw [← shows_fat_entry shown other place.2]
      exact none_free other place
  | taken place free linked last =>
      refine .taken place ?_ (shows_linked shown linked) last
      rw [← shows_fat_entry shown _ place.2]
      exact free

inductive Attempt (v : Volume) (clst : Nat) (fs : Fs) : Nat × Fs → Prop where
  | created {r : Nat × Fs} (created : Created v clst fs r) : Attempt v clst fs r
  | invalid {fs' : Fs} (shows_same : Shows v fs fs')
      (bad : ∃ other, Cluster v other ∧ fatEntry v fs other = 1) : Attempt v clst fs (1, fs')
  | failed {fs' : Fs} (rewrites : Rewrites v fs fs') (spared : Spared v clst fs fs')
      (faulty : ¬fs.drive.Reliable) : Attempt v clst fs (diskError, fs')

theorem search_from_attempt {fs : Fs} (clst scl : Nat) (coherent : Coherent v fs)
    (start : 1 ≤ scl ∧ scl < v.nFatent)
    (behind : clst = 0 ∨ Cluster v clst ∧ fatEntry v fs clst ≠ 0) :
    ∃ r, searchFrom v clst scl fs = some r ∧ Attempt v clst fs r := by
  have enough : rounds v scl scl ≤ v.nFatent := by
    rw [rounds, if_pos (Nat.le_refl _)]
    omega
  have begin_here : scl < v.nFatent ∧ (scl ≤ scl ∨ 2 ≤ scl) := ⟨start.2, .inl (Nat.le_refl _)⟩
  obtain ⟨s, after, ran, shown, outcome⟩ := search_loop_searched scl start v.nFatent scl
    begin_here enough coherent (by
      intro other _ seen
      rw [Seen, if_pos (Nat.le_refl _)] at seen
      omega)
  rw [searchFrom, ran]
  cases s with
  | found ncl =>
      obtain ⟨cluster, free⟩ := outcome
      have free_after : fatEntry v after ncl = 0 := by
        rw [shows_fat_entry shown ncl cluster.2]
        exact free
      have behind_after : clst = 0 ∨ Cluster v clst ∧ fatEntry v after clst ≠ 0 := by
        rcases behind with none | ⟨there, used⟩
        · exact .inl none
        · rw [← shows_fat_entry shown clst there.2] at used
          exact .inr ⟨there, used⟩
      dsimp only
      rw [linkCluster]
      rcases link_cluster_attempt shown.coherent cluster free_after behind_after with
        ⟨ok, linked⟩ | ⟨error, faulty, rewrites, spared⟩
      · refine ⟨_, congrArg some (if_pos ok), .created ?_⟩
        exact .taken cluster free (shows_linked shown linked) (count_taken_last ncl _)
      · have not_ok : (linkWrites v clst ncl after).1 ≠ .frOk := by
          rw [error]
          exact fun ok => FResult.noConfusion ok
        rw [if_neg not_ok, if_pos error]
        exact ⟨_, rfl, .failed ((keeps_rewrites (shows_keeps shown)).trans rewrites)
          (shows_spared shown spared) fun reliable => faulty (shown.reliable reliable)⟩
  | stopped value =>
      refine ⟨_, rfl, ?_⟩
      rcases outcome with ⟨error, faulty⟩ | ⟨one, bad⟩ | ⟨zero, full⟩
      · rw [error]
        exact .failed (keeps_rewrites (shows_keeps shown))
          (shows_spared shown (spared_refl clst after)) faulty
      · rw [one]
        exact .invalid shown bad
      · rw [zero]
        exact .created (.full shown full)

theorem search_from_created {fs : Fs} (clst scl : Nat) (coherent : Coherent v fs)
    (reliable : fs.drive.Reliable) (valid : Valid v fs) (start : 1 ≤ scl ∧ scl < v.nFatent)
    (behind : clst = 0 ∨ Cluster v clst ∧ fatEntry v fs clst ≠ 0) :
    ∃ r, searchFrom v clst scl fs = some r ∧ Created v clst fs r := by
  obtain ⟨r, ran, attempt⟩ := search_from_attempt clst scl coherent start behind
  refine ⟨r, ran, ?_⟩
  cases attempt with
  | created created => exact created
  | invalid _ bad =>
      obtain ⟨other, there, one⟩ := bad
      exact absurd one (valid other there)
  | failed _ _ faulty => exact absurd reliable faulty

/-- A new chain, from wherever the search is told to begin. -/
theorem create_chain_new {fs : Fs} (coherent : Coherent v fs) (reliable : fs.drive.Reliable)
    (valid : Valid v fs) : ∃ r, createChain v 0 fs = some r ∧ Created v 0 fs r := by
  have some_cluster := v.some_cluster
  rw [createChain, if_pos rfl]
  apply search_from_created 0 _ coherent reliable valid _ (.inl rfl)
  split_ifs <;> omega

/-- A chain is stretched behind its last cluster. -/
theorem create_chain_stretch {fs : Fs} {clst : Nat} (coherent : Coherent v fs)
    (reliable : fs.drive.Reliable) (valid : Valid v fs)
    (linked : linkOf v fs clst = .last) :
    ∃ r, createChain v clst fs = some r ∧ Created v clst fs r := by
  have cluster := link_cluster (by rw [linked]; exact fun free => nomatch free)
  have ended := link_last linked
  have got := get_fat_got coherent clst cluster
  have value := got.done reliable
  have there := cluster
  rw [Cluster] at there
  rw [createChain, if_neg (by omega)]
  dsimp only
  rw [value, if_neg (by omega), if_neg (entry_ne_disk_error fs clst), if_neg (by omega)]
  have kept : Valid v (getFat v clst fs).2 := by
    intro other place
    rw [shows_fat_entry got.shows other place.2]
    exact valid other place
  obtain ⟨r, ran, created⟩ := search_from_created clst clst got.shows.coherent
    (got.shows.reliable reliable) kept (by omega) (.inr ⟨cluster, by
      rw [shows_fat_entry got.shows clst cluster.2]
      omega⟩)
  exact ⟨r, ran, shows_created got.shows created⟩

end Create

section Every

variable {v}

/-- Something that no access of the FAT touches. -/
structure Untouched (v : Volume) (P : Fs → Prop) : Prop where
  move : ∀ sector fs, v.fatbase ≤ sector → sector < v.fatbase + v.fsize → P fs →
    P (moveWindow v sector fs).2
  dirty : ∀ fs win, P fs → P { fs with win := win, wflag := true }
  recount : ∀ fs flag clst count, P fs →
    P { fs with fsiFlag := flag, lastClust := clst, freeClust := count }

variable {P : Fs → Prop}

/-- The sector that holds a byte of an entry is one of the FAT. -/
theorem entry_sector (clst place sector : Nat) (inside : clst < v.nFatent)
    (within : place < v.fsType.width.span)
    (same : sector = v.fatbase + (offset v.fsType.width clst + place) / 512) :
    v.fatbase ≤ sector ∧ sector < v.fatbase + v.fsize := by
  have there := entry_place clst inside place within
  rw [InTable] at there
  omega

theorem Untouched.put_fat (kept : Untouched v P) (clst : Nat) (value : BitVec 32) {fs : Fs}
    (before : P fs) : P (putFat v clst value fs).2 := by
  rw [putFat]
  by_cases range : clst < 2 ∨ v.nFatent ≤ clst
  · rw [if_pos range]
    exact before
  · rw [if_neg range]
    have sector := fun place number within same =>
      entry_sector (v := v) clst place number (by omega) within same
    cases kind : v.fsType with
    | fat12 =>
        rw [kind] at sector
        have low := sector 0 (v.fatbase + (clst + clst / 2) / 512) (by decide) (by
          rw [FatType.width, offset, Nat.add_zero])
        have high := sector 1 (v.fatbase + (clst + clst / 2 + 1) / 512) (by decide) (by
          rw [FatType.width, offset])
        have first := kept.move _ fs low.1 low.2 before
        dsimp only
        split_ifs
        · exact kept.dirty _ _ (kept.move _ _ high.1 high.2 (kept.dirty _ _ first))
        · exact kept.move _ _ high.1 high.2 (kept.dirty _ _ first)
        · exact first
    | fat16 =>
        rw [kind] at sector
        have here := sector 0 (v.fatbase + clst / 256) (by decide) (by
          rw [FatType.width, offset]
          omega)
        dsimp only
        split_ifs
        · exact kept.dirty _ _ (kept.move _ fs here.1 here.2 before)
        · exact kept.move _ fs here.1 here.2 before
    | fat32 =>
        rw [kind] at sector
        have here := sector 0 (v.fatbase + clst / 128) (by decide) (by
          rw [FatType.width, offset]
          omega)
        dsimp only
        split_ifs
        · exact kept.dirty _ _ (kept.move _ fs here.1 here.2 before)
        · exact kept.move _ fs here.1 here.2 before

theorem Untouched.count_freed (kept : Untouched v P) {fs : Fs} (before : P fs) :
    P (countFreed fs) := by
  unfold countFreed
  split_ifs
  · exact kept.recount fs _ fs.lastClust _ before
  · exact before

theorem Untouched.count_taken (kept : Untouched v P) (ncl : Nat) {fs : Fs} (before : P fs) :
    P (countTaken ncl fs) := by
  unfold countTaken
  dsimp only
  split_ifs
  · exact kept.recount fs _ ncl _ before
  · exact kept.recount fs fs.fsiFlag ncl fs.freeClust before

theorem Untouched.link_cluster (kept : Untouched v P) (clst ncl : Nat) {fs : Fs}
    (before : P fs) : P (linkCluster v clst ncl fs).2 := by
  have first := kept.put_fat ncl lastLink before
  have writes : P (linkWrites v clst ncl fs).2 := by
    unfold linkWrites
    dsimp only
    split_ifs
    · exact kept.put_fat clst _ first
    · exact first
  unfold linkCluster
  dsimp only
  split_ifs
  · exact kept.count_taken ncl writes
  · exact writes
  · exact writes

/-- The window is where it was, or not over the data. -/
def Stays (v : Volume) (before : Nat) (fs : Fs) : Prop :=
  fs.winsect = before ∨ fs.winsect < v.database ∨ fs.winsect = noSector

end Every

section Runs

variable {v}

structure Changed (v : Volume) (cells changed : List Nat) (fs fs' : Fs) : Prop where
  rewrites : Rewrites v fs fs'
  valid : Valid v fs'
  counted : Counted v fs'
  chain : Chain (linkOf v fs') changed
  alone : changed.Nodup
  fresh : ∀ cell ∈ changed, cell ∈ cells ∨ linkOf v fs cell = .free
  kept : ∀ cell, cell ∉ cells → linkOf v fs cell ≠ .free → linkOf v fs' cell = linkOf v fs cell
  covers : ∀ cell, cell ∈ cells ∨ linkOf v fs cell = .free →
    cell ∈ changed ∨ linkOf v fs' cell = .free
  count : freeCount v fs' + changed.length = freeCount v fs + cells.length

theorem shows_changed {fs fs' : Fs} {cells : List Nat} (shown : Shows v fs fs')
    (valid : Valid v fs) (counted : Counted v fs) (chain : Chain (linkOf v fs) cells)
    (alone : cells.Nodup) : Changed v cells cells fs fs' := by
  have same : ∀ cell, linkOf v fs' cell = linkOf v fs cell := fun cell =>
    link_congr cell fun cluster => shows_fat_entry shown cell cluster.2
  exact
    { rewrites := keeps_rewrites (shows_keeps shown)
      valid := by
        intro clst cluster
        rw [shows_fat_entry shown clst cluster.2]
        exact valid clst cluster
      counted := (freed_none shown).counted counted
      chain := chain_congr chain fun cell _ => same cell
      alone := alone
      fresh := fun _ member => .inl member
      kept := fun cell _ _ => same cell
      covers := fun cell either => either.imp_right (same cell).trans
      count := by rw [shows_count shown] }

/-- A chain that has taken a free cluster. -/
theorem taken_changed {fs fs' : Fs} {cells : List Nat} {ncl : Nat} (valid : Valid v fs)
    (counted : Counted v fs) (chain : Chain (linkOf v fs) cells) (alone : cells.Nodup)
    (cluster : Cluster v ncl) (free : fatEntry v fs ncl = 0)
    (linked : Linked v (cells.getLast?.getD 0) ncl fs fs') :
    Changed v cells (cells ++ [ncl]) fs fs' := by
  have outside : ncl ∉ cells := fun member =>
    chain_not_free chain member ((link_free cluster).mpr free)
  have inside := cluster
  rw [Cluster] at inside
  have small := few_clusters (v := v)
  have top : unknownCount = diskError := rfl
  have new_last : linkOf v fs' ncl = .last := by
    rw [linkOf, if_pos cluster]
    dsimp only
    have ended := linked.ended
    rw [if_neg (by omega), if_neg (Nat.not_lt.mpr ended)]
  have end_cluster : ∀ cell, cells.getLast? = some cell → Cluster v cell := fun cell last =>
    link_cluster (chain_not_free chain (List.mem_of_getLast? last))
  have kept : ∀ cell, cell ≠ ncl → cells.getLast? ≠ some cell →
      linkOf v fs' cell = linkOf v fs cell := by
    intro cell apart inner
    apply link_congr
    intro place
    apply linked.others cell place.2 apart
    intro behind
    rw [Cluster] at place
    cases end_cell : cells.getLast? with
    | none =>
        rw [end_cell, Option.getD_none] at behind
        omega
    | some clst =>
        rw [end_cell, Option.getD_some] at behind
        exact inner (behind ▸ end_cell)
  have linked_end : ∀ cell, cells.getLast? = some cell → linkOf v fs' cell = .next ncl := by
    intro cell end_cell
    have place := end_cluster cell end_cell
    have value := linked.linked
    rw [end_cell, Option.getD_some] at value
    have here := value (by rw [Cluster] at place; omega)
    rw [linkOf, if_pos place]
    dsimp only
    rw [here, if_neg (by omega), if_pos cluster.2]
  exact
    { rewrites := linked.rewrites
      valid := by
        intro clst place
        by_cases new : clst = ncl
        · rw [new]
          have ended := linked.ended
          omega
        · by_cases behind : clst = cells.getLast?.getD 0
          · rw [behind, linked.linked (by rw [← behind]; rw [Cluster] at place; omega)]
            omega
          · rw [linked.others clst place.2 new behind]
            exact valid clst place
      counted := linked.counted counted
      chain := chain_concat chain alone
        (fun cell member inner => kept cell (fun same => outside (same ▸ member)) inner)
        linked_end new_last
      alone := by
        apply List.Nodup.append alone (List.nodup_singleton ncl)
        intro cell member new
        exact outside (List.mem_singleton.mp new ▸ member)
      fresh := by
        intro cell member
        rcases List.mem_append.mp member with old | new
        · exact .inl old
        · rw [List.mem_singleton.mp new]
          exact .inr ((link_free cluster).mpr free)
      kept := by
        intro cell other used
        apply kept cell
        · intro same
          exact used (same ▸ (link_free cluster).mpr free)
        · exact fun last => other (List.mem_of_getLast? last)
      covers := by
        intro cell either
        by_cases new : cell = ncl
        · exact .inl (List.mem_append_right _ (List.mem_singleton.mpr new))
        · rcases either with member | unused
          · exact .inl (List.mem_append_left _ member)
          · refine .inr ((kept cell new fun last => ?_).trans unused)
            exact chain_not_free chain (List.mem_of_getLast? last) unused
      count := by
        have fewer := linked.count
        rw [List.length_append, List.length_singleton]
        omega }

theorem stretch_changed {fs : Fs} {cells : List Nat} (coherent : Coherent v fs)
    (reliable : fs.drive.Reliable) (valid : Valid v fs) (counted : Counted v fs)
    (chain : Chain (linkOf v fs) cells) (alone : cells.Nodup) (file : Nat) :
    ∃ changed fs', callOn v cells fs (.stretch file) = some (changed, fs') ∧
      Changed v cells changed fs fs' := by
  have created : ∃ r, createChain v (cells.getLast?.getD 0) fs = some r ∧
      Created v (cells.getLast?.getD 0) fs r := by
    cases end_cell : cells.getLast? with
    | none => exact create_chain_new coherent reliable valid
    | some clst => exact create_chain_stretch coherent reliable valid (chain.2 clst end_cell)
  obtain ⟨r, ran, created⟩ := created
  cases created with
  | full shown none_free =>
      refine ⟨cells, _, ?_, shows_changed shown valid counted chain alone⟩
      rw [callOn, ran]
      exact if_pos rfl
  | @taken ncl fs' cluster free linked last =>
      have inside := cluster
      rw [Cluster] at inside
      have small := few_clusters (v := v)
      have top : unknownCount = diskError := rfl
      refine ⟨cells ++ [ncl], fs', ?_, taken_changed valid counted chain alone cluster free linked⟩
      rw [callOn, ran]
      dsimp only
      rw [if_neg (by omega), if_neg (by omega)]

/-- The cells of a released chain are free, and nothing else has changed. -/
theorem freed_kept {fs fs' : Fs} {cells : List Nat} (freed : Freed v cells fs fs') (cell : Nat)
    (outside : cell ∉ cells) : linkOf v fs' cell = linkOf v fs cell :=
  link_congr cell fun cluster => freed.others cell cluster.2 outside

theorem freed_valid {fs fs' : Fs} {cells : List Nat} (freed : Freed v cells fs fs')
    (valid : Valid v fs) : Valid v fs' := by
  intro clst cluster
  by_cases member : clst ∈ cells
  · rw [freed.freed clst member]
    decide
  · rw [freed.others clst cluster.2 member]
    exact valid clst cluster

theorem release_changed {fs : Fs} {cells : List Nat} (coherent : Coherent v fs)
    (reliable : fs.drive.Reliable) (valid : Valid v fs) (counted : Counted v fs)
    (chain : Chain (linkOf v fs) cells) (alone : cells.Nodup) (file : Nat) :
    ∃ changed fs', callOn v cells fs (.release file) = some (changed, fs') ∧
      Changed v cells changed fs fs' := by
  cases cells with
  | nil =>
      exact ⟨[], fs, rfl, shows_changed (Shows.refl coherent) valid counted chain_nil
        List.nodup_nil⟩
  | cons first cells =>
      obtain ⟨fs', ran, freed⟩ := remove_chain_freed coherent reliable valid chain alone
      refine ⟨[], fs', ?_, ?_⟩
      · rw [callOn, ran]
      · exact
          { rewrites := freed.rewrites
            valid := freed_valid freed valid
            counted := freed.counted counted
            chain := chain_nil
            alone := List.nodup_nil
            fresh := fun _ member => absurd member List.not_mem_nil
            kept := fun cell outside _ => freed_kept freed cell outside
            covers := by
              intro cell either
              by_cases member : cell ∈ first :: cells
              · have cluster := link_cluster (chain_not_free chain member)
                exact .inr ((link_free cluster).mpr (freed.freed cell member))
              · exact .inr ((freed_kept freed cell member).trans (either.resolve_left member))
            count := freed.count }

/-- A cluster that stays in use, whatever comes behind it. -/
theorem put_used {fs : Fs} {clst : Nat} {value : BitVec 32} {r : FResult × Fs}
    (put : Put v clst value fs r) (before : fatEntry v fs clst ≠ 0)
    (behind : fatEntry v r.2 clst ≠ 0) : freeCount v r.2 = freeCount v fs := by
  apply List.countP_congr
  intro other member
  by_cases same : other = clst
  · simp only [same, decide_eq_true_eq]
    exact ⟨fun zero => absurd zero behind, fun zero => absurd zero before⟩
  · rw [put.others other ((mem_clusters other).mp member).2 same]

theorem cut_changed {fs : Fs} {cells : List Nat} (coherent : Coherent v fs)
    (reliable : fs.drive.Reliable) (valid : Valid v fs) (counted : Counted v fs)
    (chain : Chain (linkOf v fs) cells) (alone : cells.Nodup) (file keep : Nat) :
    ∃ changed fs', callOn v cells fs (.cut file keep) = some (changed, fs') ∧
      Changed v cells changed fs fs' := by
  cases here : cells[keep]? with
  | none =>
      refine ⟨cells, fs, ?_, shows_changed (Shows.refl coherent) valid counted chain alone⟩
      rw [callOn, here]
  | some clust =>
      have member : clust ∈ cells := List.mem_of_getElem? here
      have cluster := link_cluster (chain_not_free chain member)
      have link := chain_at chain here
      have got := get_fat_got coherent clust cluster
      have value := got.done reliable
      have proper := valid clust cluster
      have no_error := entry_ne_disk_error (v := v) fs clust
      have long : keep < cells.length := (List.getElem?_eq_some_iff.mp here).1
      cases behind : cells[keep + 1]? with
      | none =>
          rw [behind] at link
          have ended := link_last link
          have whole : cells.take (keep + 1) = cells := by
            rw [List.getElem?_eq_none_iff] at behind
            exact List.take_of_length_le behind
          refine ⟨cells, _, ?_, shows_changed got.shows valid counted chain alone⟩
          rw [callOn, here]
          dsimp only
          rw [cutChain]
          dsimp only
          rw [value, if_neg no_error, if_neg proper, if_neg (by omega)]
          dsimp only
          rw [whole]
      | some target =>
          rw [behind] at link
          obtain ⟨same, nonzero, bound⟩ := link_next link
          have kept_entry := shows_fat_entry got.shows clust cluster.2
          have put := put_fat_put got.shows.coherent clust cluster lastLink
          have ok := put.done (got.shows.reliable reliable)
          have mark := put.entry ok
          have end_value := last_value (v := v)
          have some_cluster := v.some_cluster
          have rest : cells.drop (keep + 1) = target :: cells.drop (keep + 2) := by
            obtain ⟨inside, equal⟩ := List.getElem?_eq_some_iff.mp behind
            rw [← equal, List.getElem_cons_drop]
          have parts : cells.take (keep + 1) ++ cells.drop (keep + 1) = cells :=
            List.take_append_drop _ _
          have apart : (cells.take (keep + 1) ++ cells.drop (keep + 1)).Nodup := by
            rw [parts]
            exact alone
          have first_member : clust ∈ cells.take (keep + 1) := by
            apply List.mem_of_getElem? (i := keep)
            rw [List.getElem?_take_of_lt (by omega), here]
          have before : clust ∉ cells.take keep := by
            have halves : (cells.take keep ++ cells.drop keep).Nodup := by
              rw [List.take_append_drop]
              exact alone
            have there : clust ∈ cells.drop keep := by
              apply List.mem_of_getElem? (i := 0)
              rw [List.getElem?_drop, Nat.add_zero, here]
            exact fun inside => List.disjoint_of_nodup_append halves inside there
          have separate : clust ∉ cells.drop (keep + 1) := fun inside =>
            List.disjoint_of_nodup_append apart first_member inside
          have others : ∀ other, other ≠ clust →
              linkOf v (putFat v clust lastLink (getFat v clust fs).2).2 other =
                linkOf v fs other := by
            intro other different
            apply link_congr
            intro place
            rw [put.others other place.2 different]
            exact shows_fat_entry got.shows other place.2
          have valid_put : Valid v (putFat v clust lastLink (getFat v clust fs).2).2 := by
            intro other place
            by_cases equal : other = clust
            · rw [equal, mark]
              omega
            · rw [put.others other place.2 equal, shows_fat_entry got.shows other place.2]
              exact valid other place
          have chain_rest : Chain (linkOf v (putFat v clust lastLink (getFat v clust fs).2).2)
              (target :: cells.drop (keep + 2)) := by
            rw [← rest]
            apply chain_congr (chain_drop chain (keep + 1))
            intro other inside
            exact others other fun equal => separate (equal ▸ inside)
          obtain ⟨fs', ran, freed⟩ := remove_chain_freed put.keeps.coherent
            (put.keeps.reliable (got.shows.reliable reliable)) valid_put chain_rest
            (by rw [← rest]; exact apart.of_append_right)
          rw [← rest] at freed
          have total : freeCount v (putFat v clust lastLink (getFat v clust fs).2).2 =
              freeCount v fs := by
            rw [← shows_count got.shows]
            apply put_used put
            · rw [kept_entry, same]
              exact nonzero
            · rw [mark]
              omega
          refine ⟨cells.take (keep + 1), fs', ?_, ?_⟩
          · rw [callOn, here]
            dsimp only
            rw [cutChain]
            dsimp only
            rw [value, if_neg no_error, if_neg proper, same, if_pos bound, if_pos ok, ran]
          · exact
              { rewrites := (keeps_rewrites (shows_keeps got.shows)).trans
                  ((keeps_rewrites put.keeps).trans freed.rewrites)
                valid := freed_valid freed valid_put
                counted := by
                  apply freed.counted
                  intro known
                  rw [put.keeps.freeClust, got.shows.freeClust] at known ⊢
                  rw [total]
                  exact counted known
                chain := by
                  apply chain_take chain alone here
                  · intro inner inside
                    have early : inner ∈ cells.take (keep + 1) :=
                      List.take_subset_take_left cells (Nat.le_succ keep) inside
                    rw [freed_kept freed inner fun late =>
                      List.disjoint_of_nodup_append apart early late]
                    exact others inner fun equal => before (equal ▸ inside)
                  · rw [freed_kept freed clust separate, linkOf, if_pos cluster]
                    dsimp only
                    rw [mark, if_neg (by omega), if_neg (by omega)]
                alone := apart.of_append_left
                fresh := fun cell inside => .inl (List.mem_of_mem_take inside)
                kept := by
                  intro cell outside _
                  rw [freed_kept freed cell fun late => outside (List.mem_of_mem_drop late)]
                  exact others cell fun equal => outside (equal ▸ member)
                covers := by
                  intro cell either
                  by_cases late : cell ∈ cells.drop (keep + 1)
                  · have place := link_cluster (chain_not_free chain (List.mem_of_mem_drop late))
                    exact .inr ((link_free place).mpr (freed.freed cell late))
                  · rcases either with inside | unused
                    · rw [← parts] at inside
                      exact .inl ((List.mem_append.mp inside).resolve_right late)
                    · have far : cell ≠ clust := fun equal =>
                        chain_not_free chain member (equal ▸ unused)
                      have same := (freed_kept freed cell late).trans (others cell far)
                      exact .inr (same.trans unused)
                count := by
                  have lengths := congrArg List.length parts
                  rw [List.length_append] at lengths
                  rw [freed.count, total]
                  omega }

theorem call_changed {fs : Fs} {cells : List Nat} (coherent : Coherent v fs)
    (reliable : fs.drive.Reliable) (valid : Valid v fs) (counted : Counted v fs)
    (chain : Chain (linkOf v fs) cells) (alone : cells.Nodup) (call : Call) :
    ∃ changed fs', callOn v cells fs call = some (changed, fs') ∧
      Changed v cells changed fs fs' := by
  cases call with
  | stretch file => exact stretch_changed coherent reliable valid counted chain alone file
  | release file => exact release_changed coherent reliable valid counted chain alone file
  | cut file keep => exact cut_changed coherent reliable valid counted chain alone file keep

/-- One call keeps the chains of all files apart. -/
theorem changed_allocated {fs fs' : Fs} {files : List (List Nat)} {place : Nat}
    {cells changed : List Nat} (allocated : Allocated v fs files)
    (here : files[place]? = some cells) (step : Changed v cells changed fs fs') :
    Allocated v fs' (files.set place changed) where
  coherent := step.rewrites.coherent
  owned := owned_set allocated.owned here step.chain step.alone step.fresh step.kept
  valid := step.valid
  counted := step.counted

/-- Whatever the calls, on a working drive each of them is done, the chains stay apart, no
cluster is lost, the copies of the FAT stay equal and nothing outside the FAT is touched. -/
structure Kept (v : Volume) (fs fs' : Fs) (files files' : List (List Nat)) : Prop where
  allocated : Allocated v fs' files'
  reliable : fs'.drive.Reliable
  mirrored : Mirrored v fs → Mirrored v fs'
  content : ∀ place, Plain v place → ¬InTable v place → content fs' place = content fs place
  clusters : freeCount v fs' + files'.flatten.length = freeCount v fs + files.flatten.length

theorem calls_kept (list : List Call) (files : List (List Nat)) (fs : Fs)
    (allocated : Allocated v fs files) (reliable : fs.drive.Reliable) :
    ∃ files' fs', calls v list (files, fs) = some (files', fs') ∧ Kept v fs fs' files files' := by
  induction list generalizing files fs with
  | nil => exact ⟨files, fs, rfl, allocated, reliable, id, fun _ _ _ => rfl, rfl⟩
  | cons call rest ih =>
      cases here : files[call.file]? with
      | none =>
          obtain ⟨files', fs', ran, kept⟩ := ih files fs allocated reliable
          refine ⟨files', fs', ?_, kept⟩
          rw [calls, here]
          exact ran
      | some cells =>
          have member : cells ∈ files := List.mem_of_getElem? here
          have alone : cells.Nodup :=
            (List.nodup_flatten.mp allocated.owned.apart).1 cells member
          obtain ⟨changed, middle, done, step⟩ := call_changed allocated.coherent reliable
            allocated.valid allocated.counted (allocated.owned.chains cells member) alone call
          have still := step.rewrites.reliable reliable
          obtain ⟨files', fs', ran, kept⟩ := ih (files.set call.file changed) middle
            (changed_allocated allocated here step) still
          refine ⟨files', fs', ?_, ?_⟩
          · rw [calls, here]
            dsimp only
            rw [done]
            exact ran
          · exact
              { allocated := kept.allocated
                reliable := kept.reliable
                mirrored := fun mirrored =>
                  kept.mirrored (step.rewrites.mirrored reliable mirrored)
                content := fun place plain outside =>
                  (kept.content place plain outside).trans
                    (step.rewrites.content place plain outside)
                clusters := by
                  have total := flatten_set_length here changed
                  have later := kept.clusters
                  have count := step.count
                  omega }

theorem inserted_free : ∀ clst, clst < 20 → fatEntry floppy (inserted []) clst = 0 := by
  decide +kernel

theorem inserted_allocated : Allocated floppy (inserted []) [[], []] where
  coherent := inserted_coherent []
  owned := ⟨by simp [chain_nil], by decide⟩
  valid := by
    intro clst cluster
    rw [inserted_free clst cluster.2]
    decide
  counted := fun known => absurd rfl known

theorem calls_kept_floppy :
    ∃ files' fs', calls floppy [.stretch 0, .stretch 1, .stretch 0, .cut 0 0, .release 1]
        ([[], []], inserted []) = some (files', fs') ∧
      Kept floppy (inserted []) fs' [[], []] files' :=
  calls_kept _ _ _ inserted_allocated rfl

end Runs

section Anything

variable {v}

/-- What comes of `remove_chain`, whatever the FAT holds and whatever accesses fail. A write
that fails may have freed its cluster, which is then not counted. -/
structure Released (v : Volume) (clst : Nat) (fs : Fs) (r : FResult × Fs) : Prop where
  rewrites : Rewrites v fs r.2
  freed : r.1 = .frOk → ∀ other, Cluster v other → Reached (linkOf v fs) clst other →
    fatEntry v r.2 other = 0
  others : ∀ other, Cluster v other → ¬Reached (linkOf v fs) clst other →
    fatEntry v r.2 other = fatEntry v fs other
  counted : Counted v fs → Counted v r.2 ∨ r.1 = .frDiskErr ∧ CountedShort v r.2
  failed : r.1 = .frDiskErr → ¬fs.drive.Reliable
  invalid : r.1 = .frIntErr → ¬Valid v fs

/-- A call that only looks at an entry. -/
theorem shows_released {fs fs' : Fs} {clst : Nat} (res : FResult) (shown : Shows v fs fs')
    (ended : res = .frOk → ∀ target, linkOf v fs clst ≠ .next target)
    (free : res = .frOk → Cluster v clst → fatEntry v fs clst = 0)
    (failed : res = .frDiskErr → ¬fs.drive.Reliable)
    (invalid : res = .frIntErr → ¬Valid v fs) :
    Released v clst fs (res, fs') where
  rewrites := keeps_rewrites (shows_keeps shown)
  freed := by
    intro ok other cluster reached
    have same := (reached_end (ended ok)).mp reached
    rw [shows_fat_entry shown other cluster.2, same]
    exact free ok (same ▸ cluster)
  others := fun other cluster _ => shows_fat_entry shown other cluster.2
  counted := fun counted => .inl ((freed_none shown).counted counted)
  failed := failed
  invalid := invalid

/-- Behind the first cluster, the rest of the chain is released. -/
theorem freed_released {fs middle : Fs} {clst target : Nat} {r : FResult × Fs}
    (cluster : Cluster v clst) (entry : fatEntry v fs clst = target) (proper : 2 ≤ target)
    (one : Freed v [clst] fs middle) (working : fs.drive.Reliable → middle.drive.Reliable)
    (rest : Released v target middle r) : Released v clst fs r := by
  have free : linkOf v middle clst = .free :=
    (link_free cluster).mpr (one.freed clst List.mem_cons_self)
  have same : ∀ apart, apart ≠ clst → linkOf v middle apart = linkOf v fs apart := fun apart far =>
    freed_kept one apart (by simpa using far)
  have reached : ∀ other, Cluster v other → (Reached (linkOf v fs) clst other ↔
      other = clst ∨ Reached (linkOf v middle) target other) := by
    intro other there
    by_cases inside : target < v.nFatent
    · apply reached_freed _ free same
      rw [linkOf, if_pos cluster, entry]
      dsimp only
      rw [if_neg (by omega), if_pos inside]
    · have ended : linkOf v fs clst = .last := by
        rw [linkOf, if_pos cluster, entry]
        dsimp only
        rw [if_neg (by omega), if_neg inside]
      have outside : linkOf v middle target = .free :=
        if_neg fun cluster => inside cluster.2
      have stop : Reached (linkOf v middle) target other ↔ other = target :=
        reached_end (by rw [outside]; exact fun _ free => nomatch free)
      have first : Reached (linkOf v fs) clst other ↔ other = clst :=
        reached_end (by rw [ended]; exact fun _ last => nomatch last)
      rw [first, stop]
      constructor
      · exact .inl
      · intro either
        exact either.resolve_right fun upon => inside (upon ▸ there.2)
  exact
    { rewrites := one.rewrites.trans rest.rewrites
      freed := by
        intro ok other there way
        rcases (reached other there).mp way with here | behind
        · by_cases again : Reached (linkOf v middle) target other
          · exact rest.freed ok other there again
          · rw [rest.others other there again, here]
            exact one.freed clst List.mem_cons_self
        · exact rest.freed ok other there behind
      others := by
        intro other there away
        rw [reached other there, not_or] at away
        rw [rest.others other there away.2]
        exact one.others other there.2 (by simpa using away.1)
      counted := fun counted => rest.counted (one.counted counted)
      failed := fun bad reliable => rest.failed bad (working reliable)
      invalid := fun bad valid => rest.invalid bad (freed_valid one valid) }

/-- A write that fails leaves every other cluster as it was. -/
theorem put_released {fs middle : Fs} {clst : Nat} {r : FResult × Fs} (cluster : Cluster v clst)
    (used : fatEntry v fs clst ≠ 0) (shown : Shows v fs middle) (put : Put v clst 0 middle r)
    (failed : r.1 ≠ .frOk) : Released v clst fs r where
  rewrites := keeps_rewrites ((shows_keeps shown).trans put.keeps)
  freed := fun done => absurd done failed
  others := by
    intro other there away
    have apart : other ≠ clst := by
      rintro rfl
      exact away Relation.ReflTransGen.refl
    rw [put.others other there.2 apart]
    exact shows_fat_entry shown other there.2
  counted := by
    intro counted
    have before := (freed_none shown).counted counted
    have same := put.keeps.freeClust
    rw [← shows_fat_entry shown clst cluster.2] at used
    rcases put_count cluster used put with kept | more
    · refine .inl fun known => ?_
      rw [same] at known ⊢
      exact (before known).trans kept.symm
    · refine .inr ⟨put.result.resolve_left failed, fun known => ?_⟩
      rw [same] at known ⊢
      rw [more, before known]
  failed := fun _ reliable => failed (put.done (shown.reliable reliable))
  invalid := by
    intro bad
    rw [put.result.resolve_left failed] at bad
    exact FResult.noConfusion bad

/-- The loop of `remove_chain` ends: each round that goes on has freed one more cluster. -/
theorem remove_loop_released (fuel clst : Nat) {fs : Fs} (coherent : Coherent v fs)
    (proper : 2 ≤ clst) (enough : v.nFatent ≤ freeCount v fs + fuel) :
    ∃ r, removeLoop v fuel clst fs = some r ∧ Released v clst fs r := by
  induction fuel generalizing clst fs with
  | zero =>
      have few := free_count_lt (v := v) fs
      omega
  | succ fuel ih =>
      rw [removeLoop]
      by_cases inside : clst < v.nFatent
      · have cluster : Cluster v clst := ⟨proper, inside⟩
        have got := get_fat_got coherent clst cluster
        rw [if_pos inside]
        dsimp only
        by_cases zero : (getFat v clst fs).1 = 0
        · have free : fatEntry v fs clst = 0 := by
            rcases got.value with bad | good
            · exact absurd (bad.symm.trans zero) (by decide)
            · exact good.symm.trans zero
          refine ⟨_, if_pos zero, shows_released .frOk got.shows ?_ (fun _ _ => free)
            (fun bad => FResult.noConfusion bad) fun bad => FResult.noConfusion bad⟩
          intro _ target
          rw [(link_free cluster).mpr free]
          exact fun linked => nomatch linked
        · rw [if_neg zero]
          by_cases one : (getFat v clst fs).1 = 1
          · refine ⟨_, if_pos one, shows_released .frIntErr got.shows
              (fun ok => FResult.noConfusion ok) (fun ok => FResult.noConfusion ok)
              (fun bad => FResult.noConfusion bad) ?_⟩
            intro _ valid
            rcases got.value with bad | good
            · exact absurd (bad.symm.trans one) (by decide)
            · exact valid clst cluster (good.symm.trans one)
          · rw [if_neg one]
            by_cases error : (getFat v clst fs).1 = diskError
            · refine ⟨_, if_pos error, shows_released .frDiskErr got.shows
                (fun ok => FResult.noConfusion ok) (fun ok => FResult.noConfusion ok) ?_
                (fun bad => FResult.noConfusion bad)⟩
              intro _ reliable
              exact entry_ne_disk_error fs clst ((got.done reliable).symm.trans error)
            · have entry := got.value.resolve_left error
              have put := put_fat_put got.shows.coherent clst cluster 0
              rw [if_neg error]
              by_cases ok : (putFat v clst 0 (getFat v clst fs).2).1 = .frOk
              · rw [if_neg (not_not.mpr ok)]
                have used : fatEntry v (getFat v clst fs).2 clst ≠ 0 := by
                  rw [shows_fat_entry got.shows clst inside, ← entry]
                  exact zero
                have one_freed := put_freed cluster used put ok
                have freed : Freed v [clst] fs
                    (countFreed (putFat v clst 0 (getFat v clst fs).2).2) :=
                  shows_freed got.shows one_freed
                have more := freed.count
                rw [List.length_singleton] at more
                obtain ⟨r, ran, released⟩ := ih (getFat v clst fs).1 freed.rewrites.coherent
                  (by omega) (by omega)
                exact ⟨r, ran, freed_released cluster entry.symm (by omega) freed
                  freed.rewrites.reliable released⟩
              · rw [if_pos ok]
                have used : fatEntry v fs clst ≠ 0 := by
                  rw [← entry]
                  exact zero
                exact ⟨_, rfl, put_released cluster used got.shows put ok⟩
      · have outside : ∀ target, linkOf v fs clst ≠ .next target := by
          intro target
          rw [linkOf, if_neg fun cluster => inside cluster.2]
          exact fun linked => nomatch linked
        exact ⟨_, if_neg inside, shows_released .frOk (Shows.refl coherent) (fun _ => outside)
          (fun _ cluster => absurd cluster.2 inside) (fun bad => FResult.noConfusion bad)
          fun bad => FResult.noConfusion bad⟩

/-- `remove_chain` returns on every FAT, with cycles and with chains that run into each other,
and frees exactly the clusters that the chain reaches; a failing one frees no others. -/
theorem remove_chain_released {fs : Fs} (clst : Nat) (coherent : Coherent v fs) :
    if Cluster v clst then
      ∃ r, removeChain v clst fs = some r ∧ Released v clst fs r
    else removeChain v clst fs = some (.frIntErr, fs) := by
  split_ifs with cluster
  · have range : ¬(clst < 2 ∨ v.nFatent ≤ clst) := by
      rw [Cluster] at cluster
      omega
    rw [removeChain, if_neg range]
    exact remove_loop_released v.nFatent clst coherent cluster.1 (by omega)
  · have range : clst < 2 ∨ v.nFatent ≤ clst := by
      rw [Cluster] at cluster
      omega
    exact if_pos range

theorem remove_chain_released_floppy :
    if Cluster floppy 5 then
      ∃ r, removeChain floppy 5 (inserted [some fun _ => 7]) = some r ∧
        Released floppy 5 (inserted [some fun _ => 7]) r
    else removeChain floppy 5 (inserted [some fun _ => 7]) =
      some (.frIntErr, inserted [some fun _ => 7]) :=
  remove_chain_released 5 (inserted_coherent _)

/-- What comes of `create_chain`, whatever the FAT holds and whatever accesses fail. -/
inductive Extended (v : Volume) (clst : Nat) (fs : Fs) : Nat × Fs → Prop where
  | full {fs' : Fs} (shows_same : Shows v fs fs')
      (none_free : ∀ other, Cluster v other → fatEntry v fs other ≠ 0) :
      Extended v clst fs (0, fs')
  | followed {target : Nat} {fs' : Fs} (old : Cluster v clst) (cluster : Cluster v target)
      (linked : fatEntry v fs clst = target) (shows_same : Shows v fs fs') :
      Extended v clst fs (target, fs')
  | taken {ncl : Nat} {fs' : Fs} (cluster : Cluster v ncl) (free : fatEntry v fs ncl = 0)
      (linked : Linked v clst ncl fs fs') (last : fs'.lastClust = ncl) :
      Extended v clst fs (ncl, fs')
  | invalid {fs' : Fs} (shows_same : Shows v fs fs')
      (bad : Cluster v clst ∧ fatEntry v fs clst = 0 ∨
        ∃ other, Cluster v other ∧ fatEntry v fs other = 1) :
      Extended v clst fs (1, fs')
  | failed {fs' : Fs} (rewrites : Rewrites v fs fs') (spared : Spared v clst fs fs')
      (faulty : ¬fs.drive.Reliable) : Extended v clst fs (diskError, fs')

theorem attempt_extended {first fs : Fs} {clst : Nat} {r : Nat × Fs} (shown : Shows v first fs)
    (attempt : Attempt v clst fs r) : Extended v clst first r := by
  cases attempt with
  | created created =>
      cases shows_created shown created with
      | full same none_free => exact .full same none_free
      | taken cluster free linked last => exact .taken cluster free linked last
  | invalid same bad =>
      obtain ⟨other, cluster, one⟩ := bad
      refine .invalid (shown.trans same) (.inr ⟨other, cluster, ?_⟩)
      rw [← shows_fat_entry shown other cluster.2]
      exact one
  | failed rewrites spared faulty =>
      exact .failed ((keeps_rewrites (shows_keeps shown)).trans rewrites)
        (shows_spared shown spared) fun reliable => faulty (shown.reliable reliable)

/-- `create_chain` returns on every FAT, and takes a cluster only if it is free. -/
theorem create_chain_extended {fs : Fs} (clst : Nat) (coherent : Coherent v fs)
    (proper : clst = 0 ∨ Cluster v clst) :
    ∃ r, createChain v clst fs = some r ∧ Extended v clst fs r := by
  have some_cluster := v.some_cluster
  rw [createChain]
  by_cases new : clst = 0
  · rw [if_pos new]
    dsimp only
    obtain ⟨r, ran, attempt⟩ := search_from_attempt clst
      (if fs.lastClust = 0 ∨ v.nFatent ≤ fs.lastClust then 1 else fs.lastClust) coherent
      (by split_ifs <;> omega) (.inl new)
    exact ⟨r, ran, attempt_extended (Shows.refl coherent) attempt⟩
  · have cluster := proper.resolve_left new
    have got := get_fat_got coherent clst cluster
    rw [if_neg new]
    dsimp only
    by_cases small : (getFat v clst fs).1 < 2
    · refine ⟨_, if_pos small, .invalid got.shows ?_⟩
      have entry := got.value.resolve_left fun bad => by
        rw [bad] at small
        exact absurd small (by decide)
      by_cases zero : fatEntry v fs clst = 0
      · exact .inl ⟨cluster, zero⟩
      · exact .inr ⟨clst, cluster, by omega⟩
    · rw [if_neg small]
      by_cases error : (getFat v clst fs).1 = diskError
      · rw [if_pos error, error]
        refine ⟨_, rfl, .failed (keeps_rewrites (shows_keeps got.shows))
          (shows_spared got.shows (spared_refl clst _)) fun reliable => ?_⟩
        exact entry_ne_disk_error fs clst ((got.done reliable).symm.trans error)
      · have entry := got.value.resolve_left error
        rw [if_neg error]
        by_cases inside : (getFat v clst fs).1 < v.nFatent
        · rw [if_pos inside]
          exact ⟨_, rfl, .followed cluster ⟨by omega, inside⟩ entry.symm got.shows⟩
        · rw [if_neg inside]
          have there := cluster
          rw [Cluster] at there
          obtain ⟨r, ran, attempt⟩ := search_from_attempt clst clst got.shows.coherent (by omega)
            (.inr ⟨cluster, by
              rw [shows_fat_entry got.shows clst cluster.2]
              omega⟩)
          exact ⟨r, ran, attempt_extended got.shows attempt⟩

theorem create_chain_extended_floppy :
    ∃ r, createChain floppy 0 (inserted [none, some fun _ => 7]) = some r ∧
      Extended floppy 0 (inserted [none, some fun _ => 7]) r :=
  create_chain_extended 0 (inserted_coherent _) (.inl rfl)

end Anything

end MinionSubsystem.FatChain
