/-
BittyAi.Slice.GarbageCollection — reachability collection of
`bitty-ai-slice/src/merge.rs`: what is reachable from the refs, the reflog and the
pending effects, and the bounded batch that is deleted.

The source keeps its sets in hash sets, whose order of iteration is not fixed; here a
set is a list in the order of insertion. The plan is a difference of sets and does not
depend on it.
-/
import BittyAi.Session.Pending
import BittyAi.Slice.ContextTree

namespace BittyAi.Slice

open Lib Session

inductive MergeError where
  | noCommonAncestor
  | crissCrossHistory
  | conflicts (conflicts : List SlotConflict)
  | missingObject (hash : ContentHash)
  | staleGeneration (expected found : UInt64)
  | invalidName
  | notFound
  | alreadyExists
  | corrupt
  | storage
  deriving DecidableEq

def mapStore : ContentStoreError → MergeError
  | .missingTarget hash | .missingParent hash | .missingTree hash => .missingObject hash
  | .corruptData _ _ | .corruptCheckpoint _ _ | .invalidHash _ | .json _ | .emptyField _
  | .invalidRefName _ | .oversizedField _ _ _ => .corrupt

def mapPending : PendingError → MergeError
  | .corrupt => .corrupt
  | .storage _ => .storage
  | _ => .corrupt

structure GcOptions where
  nowMs : UInt64 := 0
  reflogGraceMs : UInt64 := 0
  maxDeletesPerCall : Nat := 256
  dryRun : Bool := false

structure GcReport where
  reachableCheckpoints : Nat
  deletedCheckpoints : Nat
  deletedBlobs : Nat
  truncated : Bool

structure GcPlan where
  reachableCheckpoints : Nat
  unreachableCheckpoints : List ContentHash
  unreferencedBlobs : List ContentHash

def gcMaxNestedTreeDepth : Nat := 8

/-! ## Checkpoints -/

def moveRoots (move : Option ContentHash × ContentHash) : List ContentHash :=
  (move.1.toList ++ [move.2]).filter (· ≠ tombstoneHash)

structure Marked where
  reachable : List ContentHash
  survivingTrees : List ContentHash
  parentsOf : List (ContentHash × List ContentHash)

def markStep (store : ContentStore) (marked : Marked) (current : ContentHash) :
    Except MergeError (Marked × List ContentHash) :=
  if current ∈ marked.reachable then .ok (marked, [])
  else do
    let some checkpoint ← (store.getCheckpoint current).mapError mapStore
      | return (marked, [])
    let reachable := marked.reachable ++ [current]
    return (
      { reachable
        survivingTrees := marked.survivingTrees ++ checkpoint.treeHash.toList
        parentsOf := marked.parentsOf ++ [(current, checkpoint.parents)] },
      checkpoint.parents.filter (· ∉ reachable))

/-- The walk over the checkpoints, with a bound on its rounds: one for each root and one
for each link. -/
def markReachable (store : ContentStore) (roots : List ContentHash) : Except MergeError Marked :=
  work (markStep store)
    (roots.length + (store.checkpoints.rows.map fun row =>
      (ContentStore.rowParents row).length).sum)
    ⟨[], [], []⟩ roots

/-! ## Blobs -/

def decodeCanonical (bytes : List UInt8) : Except MergeError ContextTree :=
  (ContextTree.fromCanonicalBytes bytes).mapError fun _ => .corrupt

structure Retained where
  visitedTrees : List ContentHash
  survivingBlobs : List ContentHash

/-- A round of the walk: every entry of the tree is kept and nested trees are queued,
one level further down. -/
def treeStep (store : ContentStore) (retained : Retained) (node : ContentHash × Nat) :
    Except MergeError (Retained × List (ContentHash × Nat)) :=
  if node.1 ∈ retained.visitedTrees then .ok (retained, [])
  else do
    let some bytes ← (store.getBlob node.1).mapError mapStore | .error .corrupt
    let tree ← decodeCanonical bytes
    let visited := retained.visitedTrees ++ [node.1]
    let nested := tree.slotPayloadRefs.filter (·.2)
    refuseIf (nested ≠ [] ∧ node.2 + 1 > gcMaxNestedTreeDepth) .corrupt
    return (
      { visitedTrees := visited
        survivingBlobs := retained.survivingBlobs ++ tree.slotPayloadRefs.map (·.1) },
      (nested.filter (·.1 ∉ visited)).map fun entry => (entry.1, node.2 + 1))

def blobRefs (data : List UInt8) : List (ContentHash × Bool) :=
  match ContextTree.fromCanonicalBytes data with
  | .ok tree => tree.slotPayloadRefs
  | .error _ => []

/-- The walk over the trees, with a bound on its rounds: one for each tree of a checkpoint
and one for each entry. -/
def retainTrees (store : ContentStore) (trees : List ContentHash) : Except MergeError Retained :=
  work (treeStep store)
    (trees.length + (store.blobs.rows.map fun row => (blobRefs row.data).length).sum)
    ⟨[], trees⟩ (trees.map (·, 0))

/-! ## Plan and batch -/

def gcCompute (store : ContentStore) (options : GcOptions) : Except MergeError GcPlan := do
  let refPairs ← store.listRefs.mapError mapStore
  let refTargets := fresh [] (refPairs.map (·.2))
  refuseIf (∃ target ∈ refTargets, store.hasCheckpoint target = false) .corrupt
  let window ← (store.reflogWindowHashes options.nowMs options.reflogGraceMs).mapError mapStore
  let roots := fresh [] (refTargets ++ window.flatMap moveRoots)
  let marked ← markReachable store roots
  refuseIf (∃ entry ∈ marked.parentsOf, ∃ parent ∈ entry.2, parent ∉ marked.reachable) .corrupt
  let allCheckpoints ← store.allCheckpointHashes.mapError mapStore
  let retained ← retainTrees store (fresh [] marked.survivingTrees)
  let allBlobs ← store.allBlobHashes.mapError mapStore
  let pendingRoots ← (openBlobRoots store).mapError mapPending
  let survivingBlobs := retained.survivingBlobs ++ pendingRoots
  return { reachableCheckpoints := marked.reachable.length
           unreachableCheckpoints := allCheckpoints.filter (· ∉ marked.reachable)
           unreferencedBlobs := allBlobs.filter (· ∉ survivingBlobs) }

def boundReport (plan : GcPlan) (maxDeletes : Nat) : GcReport :=
  let total := plan.unreachableCheckpoints.length + plan.unreferencedBlobs.length
  let budget := min maxDeletes total
  let deletedCheckpoints := min plan.unreachableCheckpoints.length budget
  { reachableCheckpoints := plan.reachableCheckpoints
    deletedCheckpoints
    deletedBlobs := budget - deletedCheckpoints
    truncated := total > budget }

def gcPreview (store : ContentStore) (options : GcOptions) : Except MergeError GcReport := do
  let plan ← gcCompute store options
  return boundReport plan options.maxDeletesPerCall

def collectGarbage (store : ContentStore) (options : GcOptions) :
    Except MergeError GcReport × ContentStore :=
  if options.dryRun then (gcPreview store options, store)
  else match gcCompute store options with
    | .error error => (.error error, store)
    | .ok plan =>
      let report := boundReport plan options.maxDeletesPerCall
      let checkpoints := plan.unreachableCheckpoints.take report.deletedCheckpoints
      let blobs := plan.unreferencedBlobs.take report.deletedBlobs
      if report.deletedCheckpoints = 0 ∧ report.deletedBlobs = 0 then (.ok report, store)
      else (.ok report, store.deleteCheckpointsAndBlobs checkpoints blobs)

end BittyAi.Slice
