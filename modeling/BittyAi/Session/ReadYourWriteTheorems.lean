/-
BittyAi.Session.ReadYourWriteTheorems — whether a checkpoint that a commit returns is the
one that is read back.

A second commit of the same draft with its parents in another order returns a value that is
never stored (`parents_swapped_read_back`).
-/
import BittyAi.Session.RefsTheorems

namespace BittyAi.Session

open Lib Exiting ContentStore

/-! ## The three commits -/

inductive CommitCall where
  | plain (draft : CheckpointDraft)
  | atomic (treeBytes : List UInt8) (treeCreatedAtMs : UInt64) (draft : CheckpointDraft)
      (refNames : List String) (updatedAtMs : UInt64)
  | withBranch (treeBytes : List UInt8) (treeCreatedAtMs : UInt64) (draft : CheckpointDraft)
      (branchName reason actor : String) (updatedAtMs : UInt64)

namespace CommitCall

/-- The call returns `Ok(checkpoint)` and leaves the store in a new state. -/
def Returns (store : ContentStore) (checkpoint : Checkpoint) (store' : ContentStore) :
    CommitCall → Prop
  | plain draft => commitCheckpoint draft store = (.ok checkpoint, store')
  | atomic treeBytes treeCreatedAtMs draft refNames updatedAtMs =>
    commitCheckpointAtomic treeBytes treeCreatedAtMs draft refNames updatedAtMs store =
      (.ok checkpoint, store')
  | withBranch treeBytes treeCreatedAtMs draft branchName reason actor updatedAtMs =>
    commitCheckpointWithBranch treeBytes treeCreatedAtMs draft branchName reason actor updatedAtMs
      store = (.ok checkpoint, store')

def effective : CommitCall → CheckpointDraft
  | plain draft => draft
  | atomic treeBytes _ draft _ _ => draft.withTree treeBytes
  | withBranch treeBytes _ draft _ _ _ _ => draft.withTree treeBytes

theorem returns_effective {call : CommitCall} {store store' : ContentStore}
    {checkpoint : Checkpoint} (h : call.Returns store checkpoint store') :
    checkpoint = call.effective.checkpoint ∧
      store'.checkpoints = (insertCheckpoint call.effective store).checkpoints := by
  cases call with
  | plain draft =>
    obtain ⟨hcheckpoint, rfl⟩ := of_wp_ok (commitCheckpoint_spec draft store) h
    exact ⟨hcheckpoint, rfl⟩
  | atomic treeBytes treeCreatedAtMs draft refNames updatedAtMs =>
    obtain ⟨hcheckpoint, rfl⟩ := of_wp_ok (commitCheckpointAtomic_spec treeBytes
      treeCreatedAtMs draft refNames updatedAtMs store) h
    exact ⟨hcheckpoint, checkpoints_committed ..⟩
  | withBranch treeBytes treeCreatedAtMs draft branchName reason actor updatedAtMs =>
    obtain ⟨hcheckpoint, branch, previous, -, hmoved⟩ := of_wp_ok
      (commitCheckpointWithBranch_spec treeBytes treeCreatedAtMs draft branchName reason actor
        updatedAtMs store) h
    refine ⟨hcheckpoint, ?_⟩
    rw [hmoved.frame]
    exact checkpoints_committed ..

end CommitCall

/-- A commit reads back with every field exactly if every row that is stored under its
id decodes to its draft, the order of the parents included. -/
theorem commit_reads_back_iff (call : CommitCall) (store store' : ContentStore)
    (checkpoint : Checkpoint) (h : call.Returns store checkpoint store') :
    store'.getCheckpoint checkpoint.id = .ok (some checkpoint) ↔
      ∀ row ∈ store.checkpoints.rows, row.hash = call.effective.canonicalHash.toHex →
        decodeRow row = .ok call.effective := by
  obtain ⟨rfl, hcheckpoints⟩ := CommitCall.returns_effective h
  rw [getCheckpoint_congr hcheckpoints]
  exact getCheckpoint_insertCheckpoint call.effective store

def crossDraft : CheckpointDraft := plainDraft [baseHash, tipHash] "cross"
def swappedDraft : CheckpointDraft := plainDraft [tipHash, baseHash] "cross"

/-- A store with a base, a tip on it and a successor of both. -/
def crossStore : ContentStore :=
  insertCheckpoint crossDraft (insertCheckpoint (plainDraft [baseHash] "tip")
    (insertCheckpoint (plainDraft [] "base") openInMemory))

theorem hasCheckpoint_crossStore : crossStore.hasCheckpoint crossDraft.canonicalHash = true := by
  decide +kernel

/-- The successor is stored already, with its parents in the same order. -/
theorem commit_reads_back_cross : ∃ checkpoint store',
      (CommitCall.plain crossDraft).Returns crossStore checkpoint store' ∧
      crossStore.hasCheckpoint checkpoint.id = true ∧
      store'.getCheckpoint checkpoint.id = .ok (some checkpoint) := by
  obtain ⟨checkpoint, store', hcommit⟩ : ∃ checkpoint store',
      commitCheckpoint crossDraft crossStore = (.ok checkpoint, store') :=
    exists_run_ok (by decide +kernel)
  refine ⟨checkpoint, store', hcommit, ?_, ?_⟩
  · obtain ⟨rfl, -⟩ := of_wp_ok (commitCheckpoint_spec _ _) hcommit
    exact hasCheckpoint_crossStore
  · exact (commit_reads_back_iff (.plain crossDraft) _ _ _ hcommit).mpr (by decide +kernel)

/-! ## Parents in another order -/

/-- Four commits on a new store: a base, a tip on it, and twice a successor of both, the
second time with its parents the other way round. -/
def crossCommits : StoreOp Checkpoint := do
  let _ ← commitCheckpoint (plainDraft [] "base")
  let _ ← commitCheckpoint (plainDraft [baseHash] "tip")
  let _ ← commitCheckpoint crossDraft
  commitCheckpoint swappedDraft

theorem canonicalHash_swapped : swappedDraft.canonicalHash = crossDraft.canonicalHash :=
  congrArg ContentHash.compute (by decide +kernel)

theorem crossCommits_run : crossCommits openInMemory =
      (.ok swappedDraft.checkpoint, crossStore) := by
  have hspec : wp crossCommits (fun checkpoint store' => checkpoint = swappedDraft.checkpoint ∧
      store' = insertCheckpoint swappedDraft crossStore) (fun _ _ => True) openInMemory := by
    simp only [crossCommits, wp_bind]
    refine wp_mono (commitCheckpoint_spec _ _) ?_ fun _ _ _ => trivial
    rintro _ _ ⟨-, rfl⟩
    refine wp_mono (commitCheckpoint_spec _ _) ?_ fun _ _ _ => trivial
    rintro _ _ ⟨-, rfl⟩
    refine wp_mono (commitCheckpoint_spec _ _) ?_ fun _ _ _ => trivial
    rintro _ _ ⟨-, rfl⟩
    exact wp_mono (commitCheckpoint_spec _ _) (fun _ _ h => h) fun _ _ _ => trivial
  obtain ⟨checkpoint, store', hrun⟩ := exists_run_ok (m := crossCommits) (s := openInMemory)
    (by decide +kernel)
  obtain ⟨rfl, rfl⟩ := of_wp_ok hspec hrun
  rw [hrun, insertCheckpoint_of_present]
  rw [canonicalHash_swapped]
  exact hasCheckpoint_crossStore

/-- The last commit returns the parents as it was given them, and the first order is read
back. -/
theorem parents_swapped_read_back :
    ∃ checkpoint store', crossCommits openInMemory = (.ok checkpoint, store') ∧
      checkpoint.parents = [tipHash, baseHash] ∧
      store'.getCheckpoint checkpoint.id =
        .ok (some { checkpoint with parents := [baseHash, tipHash] }) := by
  refine ⟨_, _, crossCommits_run, rfl, ?_⟩
  have hread : crossStore.getCheckpoint crossDraft.canonicalHash =
      .ok (some crossDraft.checkpoint) :=
    (getCheckpoint_insertCheckpoint crossDraft _).mpr (by decide +kernel)
  rw [CheckpointDraft.checkpoint, canonicalHash_swapped]
  exact hread

end BittyAi.Session
