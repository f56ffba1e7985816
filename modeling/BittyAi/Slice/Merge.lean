/-
BittyAi.Slice.Merge — merge commits of `bitty-ai-slice/src/merge.rs`: the strict merge
base, the trees of three checkpoints, and the commit of the merged tree.

A set of hashes is a list in the order of insertion, as for the collection of garbage; a
merge base is decided by membership and does not depend on the order.
-/
import BittyAi.Session.Refs
import BittyAi.Slice.GarbageCollection

namespace BittyAi.Slice

open Lib Session

abbrev TaskGenerationLookup : Type := String → Except MergeError UInt64

structure MergeInput where
  ours : ContentHash
  theirs : ContentHash
  targetBranch : String
  taskId : String
  agentId : String
  rationale : Rationale
  summary : String
  expectedTaskGeneration : Option UInt64
  actor : String
  reason : String
  atMs : UInt64

def mapRefErr : RefError → MergeError
  | .invalidName | .protectedHead | .reservedNamespace => .invalidName
  | .alreadyExists => .alreadyExists
  | .notFound => .notFound
  | .missingTarget hash => .missingObject hash
  | .corrupt => .corrupt
  | .storage _ => .storage

/-! ## Merge base -/

def ancestorStep (store : ContentStore) (root : ContentHash) (seen : List ContentHash)
    (current : ContentHash) : Except MergeError (List ContentHash × List ContentHash) :=
  if current ∈ seen then .ok (seen, [])
  else do
    let some checkpoint ← (store.getCheckpoint current).mapError mapStore
      | .error (if current = root then .missingObject current else .corrupt)
    return (seen ++ [current], checkpoint.parents.filter (· ∉ seen ++ [current]))

/-- Rust `ancestor_set`, with a bound on its rounds: one for the root and one for each
link. -/
def ancestorSet (store : ContentStore) (root : ContentHash) :
    Except MergeError (List ContentHash) :=
  work (ancestorStep store root)
    (1 + (store.checkpoints.rows.map fun row => (ContentStore.rowParents row).length).sum)
    [] [root]

def ancestorSets (store : ContentStore) :
    List ContentHash → Except MergeError (List (ContentHash × List ContentHash))
  | [] => .ok []
  | candidate :: rest => do
    let ancestors ← ancestorSet store candidate
    let others ← ancestorSets store rest
    return (candidate, ancestors) :: others

def strictMergeBase (store : ContentStore) (a b : ContentHash) : Except MergeError ContentHash := do
  if a = b then
    let some _ ← (store.getCheckpoint a).mapError mapStore | .error (.missingObject a)
    return a
  let ancestorsA ← ancestorSet store a
  let ancestorsB ← ancestorSet store b
  match ancestorsA.filter (· ∈ ancestorsB) with
  | [] => .error .noCommonAncestor
  | [only] => return only
  | common =>
    let perNode ← ancestorSets store common
    -- a common ancestor of which another common ancestor descends is not minimal
    let minimal := common.filter fun candidate =>
      ¬∃ other ∈ perNode, candidate ≠ other.1 ∧ candidate ∈ other.2
    match minimal.insertionSort (· ≤ ·) with
    | [] => .error .corrupt
    | [only] => return only
    | _ => .error .crissCrossHistory

/-! ## Merge commit -/

def materializeTree (store : ContentStore) (id : ContentHash) : Except MergeError ContextTree := do
  let some checkpoint ← (store.getCheckpoint id).mapError mapStore | .error (.missingObject id)
  let some treeHash := checkpoint.treeHash | .error .corrupt
  let some bytes ← (store.getBlob treeHash).mapError mapStore | .error (.missingObject treeHash)
  decodeCanonical bytes

def checkGeneration (tasks : TaskGenerationLookup) (input : MergeInput) : Except MergeError Unit :=
  match input.expectedTaskGeneration with
  | none => .ok ()
  | some fenced => do
    let live ← tasks input.taskId
    refuseIf (live ≠ fenced) (.staleGeneration live fenced)

/-- The middle of `merge_commit`, which only reads: the merge of the trees of both tips
against the tree of their base. -/
def mergeTips (store : ContentStore) (ours theirs : ContentHash) :
    Except MergeError ContextTree := do
  let base ← strictMergeBase store ours theirs
  let baseTree ← materializeTree store base
  let oursTree ← materializeTree store ours
  let theirsTree ← materializeTree store theirs
  let result := ContextTree.merge3way baseTree oursTree theirsTree
  refuseIf (result.conflicts ≠ []) (.conflicts result.conflicts)
  return result.merged

def MergeInput.draft (input : MergeInput) : CheckpointDraft where
  parents := [input.ours, input.theirs]
  taskId := input.taskId
  agentId := input.agentId
  rationale := input.rationale
  treeHash := none
  summary := input.summary
  timestampMs := input.atMs

def mergeCommit (tasks : TaskGenerationLookup) (input : MergeInput) :
    Exiting ContentStore MergeError Checkpoint := do
  let _ ← Exiting.attempt fun _ => (BranchName.parse input.targetBranch).mapError mapRefErr
  Exiting.attempt fun _ => checkGeneration tasks input
  let merged ← Exiting.attempt fun store => mergeTips store input.ours input.theirs
  Exiting.mapExit mapRefErr (commitCheckpointWithBranch merged.canonicalBytes input.atMs
    input.draft input.targetBranch input.reason input.actor input.atMs)

end BittyAi.Slice
