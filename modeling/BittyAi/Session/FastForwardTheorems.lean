/-
BittyAi.Session.FastForwardTheorems — which moves of a branch count as fast-forward.

`update_branch` takes a move for a fast-forward if `merge_base(tip, target)` is the tip,
and `merge_base` returns the first ancestor of the tip that a breadth-first walk back
from the target meets. With several parents a strict ancestor of the tip may be met
before the tip itself (`mergeBase_eq_tip_iff`).
-/
import BittyAi.Lib.BreadthFirst
import BittyAi.Session.RefsTheorems

namespace BittyAi.Session

open Lib ContentStore

/-- Some chain of parent links from the target to the tip is sooner than every chain to a strict
ancestor of the tip: shorter, or as long and earlier in the stored order of the parents. -/
def MetFirst (store : ContentStore) (tip target : ContentHash) : Prop :=
  ∃ π, follow store.parentsOf target π = some tip ∧
    ∀ ρ x, follow store.parentsOf target ρ = some x → Ancestor store x tip → x ≠ tip →
      Sooner π ρ

section Walks

variable {store : ContentStore} {tip target : ContentHash}

theorem walkFuel_covers (start : ContentHash) :
    [start].length + unseen (store.checkpoints.rows.flatMap rowParents) [start] ≤
      store.walkFuel := by
  have := List.length_filter_le (fun x => decide (x ∉ [start]))
    (store.checkpoints.rows.flatMap rowParents)
  simp only [List.length_singleton, unseen, walkFuel]
  omega

theorem ancestorsOf_readable (h : Readable store) (start : ContentHash) :
    ∃ seen, store.ancestorsOf start = .ok seen ∧ ∀ x, x ∈ seen ↔ Ancestor store x start := by
  let expand : Unit → List ContentHash → ContentHash → Except ContentStoreError _ :=
    fun _ _ current => do return ((), ← store.readParents current)
  have hexpand : ∀ s seen x, expand s seen x = .ok ((), store.parentsOf x) := by
    intro s seen x
    simp [expand, h.readParents, bind, Except.bind, pure, Except.pure]
  have hends : SearchEnds expand (fun _ => Explored store.parentsOf start fun _ => False)
      (search expand store.walkFuel () [start] [start]) := by
    refine search_rule ?_ (walkFuel_covers start) explored_start
    intro s seen x rest s' next hI hx
    rw [hexpand s seen x] at hx
    cases hx
    exact ⟨fun y hy => mem_parents_rows hy, hI.step id⟩
  cases hsearch : search expand store.walkFuel () [start] [start] with
  | error e =>
    rw [hsearch] at hends
    obtain ⟨s, seen, x, rest, -, hx⟩ := hends
    rw [hexpand s seen x] at hx
    cases hx
  | ok result =>
    rw [hsearch] at hends
    refine ⟨result.2, ?_, fun x => Explored.mem_iff hends⟩
    show (search expand store.walkFuel () [start] [start] >>= fun r => pure r.2) = _
    rw [hsearch]
    rfl

theorem meetStep_readable (h : Readable store) (ancestors : List ContentHash) (x : ContentHash) :
    store.meetStep ancestors x =
      if x ∈ ancestors then .error (.common x) else .ok ((), store.parentsOf x) := by
  simp only [meetStep, h.readParents]

/-- The walk back from `b` ends at the first ancestor of `a` that it meets: a chain of parent
links leads to it, and no chain to an ancestor of `a` is sooner. -/
def EndsAt (store : ContentStore) (a b hash : ContentHash) : Prop :=
  ∃ π, follow store.parentsOf b π = some hash ∧ Ancestor store hash a ∧
    ∀ ρ x, follow store.parentsOf b ρ = some x → Ancestor store x a → ¬Sooner ρ π

theorem mergeBase_readable (h : Readable store) (a b : ContentHash) :
    (store.mergeBase a b = .ok none ∧ ∀ x, Ancestor store x b → ¬Ancestor store x a) ∨
      ∃ x, store.mergeBase a b = .ok (some x) ∧ EndsAt store a b x := by
  by_cases heq : a = b
  · -- nothing is sooner than the start itself
    subst heq
    exact .inr ⟨a, by simp [mergeBase], [], rfl, .refl, fun ρ x _ _ => by simp [Sooner]⟩
  obtain ⟨ancestors, hancestors, hmem⟩ := ancestorsOf_readable h a
  let stop : ContentHash → Prop := fun x => x ∈ ancestors
  have hends : SearchEnds (fun (_ : Unit) _ => store.meetStep ancestors)
      (fun _ => Explored store.parentsOf b stop)
      (search (fun _ _ => store.meetStep ancestors) store.walkFuel () [b] [b]) := by
    refine search_rule ?_ (walkFuel_covers b) explored_start
    intro s seen x rest s' next hI hx
    simp only [meetStep_readable h] at hx
    split at hx
    · cases hx
    next hnot =>
      cases hx
      exact ⟨fun y hy => mem_parents_rows hy, hI.step hnot⟩
  simp only [mergeBase, heq, if_false, hancestors, bind, Except.bind]
  cases hsearch : search (fun (_ : Unit) _ => store.meetStep ancestors) store.walkFuel ()
      [b] [b] with
  | ok result =>
    -- nothing that stops the walk was met
    rw [hsearch] at hends
    exact .inl ⟨rfl, fun x hb ha => (Explored.met hends hb).2 ((hmem x).mpr ha)⟩
  | error met =>
    rw [hsearch] at hends
    obtain ⟨s, seen, x, rest, hI, hx⟩ := hends
    obtain ⟨π, hπ, hleast⟩ := Explored.front hI
    simp only [meetStep_readable h] at hx
    split at hx
    next hstop =>
      cases hx
      exact .inr ⟨x, rfl, π, hπ, (hmem x).mp hstop,
        fun ρ y hρ hy => hleast ρ y hρ ((hmem y).mpr hy)⟩
    next => cases hx

theorem mergeBase_eq_tip_iff (h : Readable store) :
    store.mergeBase tip target = .ok (some tip) ↔ MetFirst store tip target := by
  rcases mergeBase_readable h tip target with ⟨hbase, hnone⟩ | ⟨x, hbase, π, hπ, hx, hleast⟩
  · have hnot : ¬MetFirst store tip target := by
      rintro ⟨π, hπ, -⟩
      exact hnone tip (exists_follow_iff.mp ⟨π, hπ⟩) .refl
    simp [hbase, hnot]
  · simp only [hbase, Except.ok.injEq, Option.some.injEq]
    constructor
    · rintro rfl
      refine ⟨π, hπ, fun ρ y hρ hy hne => ?_⟩
      rcases Sooner.trichotomy π ρ with hsooner | rfl | hlater
      · exact hsooner
      · exact absurd (Option.some.inj (hρ.symm.trans hπ)) hne
      · exact absurd hlater (hleast ρ y hρ hy)
    · rintro ⟨σ, hσ, hfirst⟩
      by_contra hne
      exact hleast σ tip hσ .refl (hfirst π x hπ hx hne)

end Walks

/-! ## The move -/

section Move

variable {store : ContentStore} {name reason actor : String} {branch : BranchName}
  {tip target : ContentHash} {atMs : UInt64}

/-- A fast-forward of a branch that is there, to a target that is there and with a valid
entry for the reflog, goes through exactly if the merge base is the tip. -/
theorem updateBranch_spec (hname : BranchName.parse name = .ok branch)
    (hold : store.getRef branch.text = .ok (some tip))
    (htarget : store.hasCheckpoint target = true)
    (hreason : reason.utf8ByteSize ≤ maxReflogReasonBytes)
    (hactor : actor.utf8ByteSize ≤ maxReflogActorBytes) :
    Exiting.wp (updateBranch name target reason actor atMs true)
      (fun _ _ => store.mergeBase tip target = .ok (some tip))
      (fun _ _ => store.mergeBase tip target ≠ .ok (some tip)) store := by
  have hone := countP_ref hold
  have hbounds : ¬(reason.utf8ByteSize > maxReflogReasonBytes ∨
      actor.utf8ByteSize > maxReflogActorBytes) := by omega
  cases hbase : store.mergeBase tip target <;>
    simp [updateBranch, readStore, readBranch, setRef, appendReflog, hname, htarget, hold,
      Except.mapError, hone, hbounds, hbase]

theorem MetFirst.ancestor (h : MetFirst store tip target) : Ancestor store tip target := by
  obtain ⟨π, hπ, -⟩ := h
  exact exists_follow_iff.mp ⟨π, hπ⟩

/-- A fast-forward succeeds just when the tip is an ancestor of the target or the target
itself, exactly if an ancestor that is the tip is also met before the tip's own
ancestors. -/
theorem fastForward_iff_ancestor (hread : Readable store)
    (hname : BranchName.parse name = .ok branch)
    (hold : store.getRef branch.text = .ok (some tip))
    (htarget : store.hasCheckpoint target = true)
    (hreason : reason.utf8ByteSize ≤ maxReflogReasonBytes)
    (hactor : actor.utf8ByteSize ≤ maxReflogActorBytes) :
    ((updateBranch name target reason actor atMs true store).1.isOk = true ↔
        Ancestor store tip target) ↔
      (Ancestor store tip target → MetFirst store tip target) := by
  have hmoves : (updateBranch name target reason actor atMs true store).1.isOk = true ↔
      MetFirst store tip target := by
    have hspec := @updateBranch_spec store name reason actor branch tip target atMs
      hname hold htarget hreason hactor
    rw [← mergeBase_eq_tip_iff hread]
    rcases hrun : updateBranch name target reason actor atMs true store with ⟨_ | _, store'⟩
    · simpa [Except.isOk, Except.toBool] using Exiting.of_wp_error hspec hrun
    · simpa [Except.isOk, Except.toBool] using Exiting.of_wp_ok hspec hrun
  rw [hmoves]
  exact ⟨fun h => h.mpr, fun h => ⟨MetFirst.ancestor, h⟩⟩

end Move

/-! ## A merge that names an old parent first -/

def sideHash : ContentHash :=
  hashOf 0xc1b3af331a4fc9a80807b9aec99c9f755e30fc3b27bde3547d159b88d29abefc

def mergeHash : ContentHash :=
  hashOf 0x4b0d7926cba7f7d856fbc32709b738338e0b3f7a93a988776d234125f61fc7f9

/-- `heads/main` is at the tip; the merge names the base and then a successor of the
tip. -/
def mergeStore : ContentStore :=
  { openInMemory with
    checkpoints :=
      ⟨[baseRow, tipRow, plainRow sideHash [tipHash] "side",
        plainRow mergeHash [baseHash, sideHash] "merge"], by decide +kernel⟩
    refs :=
      ⟨[{ name := "heads/main", targetHash := tipHash.toHex, updatedAtMs := 1 }],
        List.nodup_singleton _⟩ }

theorem readable_mergeStore : Readable mergeStore := by decide +kernel

/-- The walk from the merge meets the base first, so the merge is refused although the
tip is an ancestor of it. -/
theorem fastForward_refused_mergeStore :
    Readable mergeStore ∧ Ancestor mergeStore tipHash mergeHash ∧
      (updateBranch "heads/main" mergeHash "merge" "agent" 2 true mergeStore).1 =
        .error (.storage nonFastForwardMsg) := by
  have hside : sideHash ∈ mergeStore.parentsOf mergeHash := by decide +kernel
  have htip : tipHash ∈ mergeStore.parentsOf sideHash := by decide +kernel
  exact ⟨readable_mergeStore, .tail (.single hside) htip, by decide +kernel⟩

theorem fastForward_iff_ancestor_sideHash :
    ((updateBranch "heads/main" sideHash "next" "agent" 2 true mergeStore).1.isOk = true ↔
        Ancestor mergeStore tipHash sideHash) ↔
      (Ancestor mergeStore tipHash sideHash → MetFirst mergeStore tipHash sideHash) := by
  obtain ⟨branch, hname⟩ : ∃ branch, BranchName.parse "heads/main" = .ok branch :=
    exists_eq_ok (by decide +kernel)
  have hold : mergeStore.getRef branch.text = .ok (some tipHash) := by
    cases hname
    decide +kernel
  exact fastForward_iff_ancestor readable_mergeStore hname hold (by decide +kernel)
    (by decide +kernel) (by decide +kernel)

end BittyAi.Session
