/-
BittyAi.Session.Commit — the writes of `bitty-ai-session/src/content_store.rs`: checkpoints,
and the commit that writes a tree, its checkpoint and some refs at once.

The JSON columns of a row that is written hold what they decode to. A blob and a
checkpoint are inserted unless their key has a row.
-/
import BittyAi.Session.ContentStore

namespace BittyAi.Session

open Lib Exiting

def maxBlobBytes : Nat := 16 * 1024 * 1024
def maxCheckpointParents : Nat := 16
def maxAgentIdBytes : Nat := 128
def maxSummaryBytes : Nat := 2048
def maxRationaleFieldBytes : Nat := 4096
def maxRationaleTotalBytes : Nat := 16384

/-! ## Checks -/

/-- A field that may hold at most `max` bytes. -/
def checkSize (field : String) (size max : Nat) : Except ContentStoreError Unit :=
  refuseIf (size > max) (.oversizedField field size max)

def checkFilled (field text : String) : Except ContentStoreError Unit :=
  refuseIf (trim text).isEmpty (.emptyField field)

def Rationale.checkField (field value : String) : Except ContentStoreError Unit :=
  checkSize field value.utf8ByteSize maxRationaleFieldBytes

/-- Rust `Rationale::check_field` on a field that may be missing. -/
def Rationale.checkField? (field : String) : Option String → Except ContentStoreError Unit
  | none => .ok ()
  | some value => checkField field value

def Rationale.validate (rationale : Rationale) : Except ContentStoreError Unit := do
  checkFilled "why" rationale.why
  checkFilled "what" rationale.what
  checkField "why" rationale.why
  checkField "what" rationale.what
  checkField? "where_focus" rationale.whereFocus
  checkField? "how" rationale.how
  checkField? "expected" rationale.expected
  checkField? "observed" rationale.observed
  let size (field : Option String) : Nat := (field.map (·.utf8ByteSize)).getD 0
  checkSize "rationale_total"
    (rationale.why.utf8ByteSize + rationale.what.utf8ByteSize + size rationale.whereFocus +
      size rationale.how + size rationale.expected + size rationale.observed)
    maxRationaleTotalBytes

def CheckpointDraft.validate (draft : CheckpointDraft) : Except ContentStoreError Unit := do
  checkSize "parents" draft.parents.length maxCheckpointParents
  checkFilled "task_id" draft.taskId
  checkSize "task_id" draft.taskId.utf8ByteSize maxTaskIdBytes
  checkFilled "agent_id" draft.agentId
  checkSize "agent_id" draft.agentId.utf8ByteSize maxAgentIdBytes
  checkSize "summary" draft.summary.utf8ByteSize maxSummaryBytes
  draft.rationale.validate

def validateRefNames : List String → Except ContentStoreError Unit
  | [] => .ok ()
  | name :: names => do
    validateRefName name
    validateRefNames names

namespace ContentStore

def hasBlob (store : ContentStore) (hash : ContentHash) : Bool := store.blobs.contains hash.toHex

def checkParents (store : ContentStore) : List ContentHash → Except ContentStoreError Unit
  | [] => .ok ()
  | parent :: parents => do
    refuseIf (store.hasCheckpoint parent = false) (.missingParent parent)
    store.checkParents parents

def checkTree (store : ContentStore) : Option ContentHash → Except ContentStoreError Unit
  | none => .ok ()
  | some tree => refuseIf (store.hasBlob tree = false) (.missingTree tree)

end ContentStore

/-! ## Rows -/

namespace CheckpointDraft

def checkpoint (draft : CheckpointDraft) : Checkpoint where
  id := draft.canonicalHash
  parents := draft.parents
  taskId := draft.taskId
  agentId := draft.agentId
  rationale := draft.rationale
  treeHash := draft.treeHash
  summary := draft.summary
  timestampMs := draft.timestampMs

def row (draft : CheckpointDraft) : CheckpointRow where
  hash := draft.canonicalHash.toHex
  parentsJson := .decoded draft.parents
  taskId := draft.taskId
  agentId := draft.agentId
  rationaleJson := .decoded draft.rationale
  treeHash := draft.treeHash.map ContentHash.toHex
  summary := draft.summary
  createdAtMs := draft.timestampMs.toInt64

def withTree (draft : CheckpointDraft) (treeBytes : List UInt8) : CheckpointDraft :=
  { draft with treeHash := some (ContentHash.compute treeBytes) }

end CheckpointDraft

namespace ContentStore

def insertBlob (data : List UInt8) (createdAtMs : UInt64) (store : ContentStore) : ContentStore :=
  { store with
    blobs := store.blobs.insertOrIgnore
      ⟨(ContentHash.compute data).toHex, data, createdAtMs.toInt64⟩ }

def insertCheckpoint (draft : CheckpointDraft) (store : ContentStore) : ContentStore :=
  { store with checkpoints := store.checkpoints.insertOrIgnore draft.row }

def upsertRef (name : String) (target : ContentHash) (updatedAtMs : UInt64)
    (store : ContentStore) : ContentStore :=
  { store with refs := store.refs.upsert ⟨name, target.toHex, updatedAtMs.toInt64⟩ }

/-! ## Commits -/

abbrev StoreOp (α : Type) : Type := Exiting ContentStore ContentStoreError α

def commitCheckpoint (draft : CheckpointDraft) : StoreOp Checkpoint := do
  attempt fun _ => draft.validate
  attempt (·.checkParents draft.parents)
  attempt (·.checkTree draft.treeHash)
  let present ← read (·.hasCheckpoint draft.canonicalHash)
  if present = false then modify (insertCheckpoint draft)
  pure draft.checkpoint

def commitCheckpointAtomic (treeBytes : List UInt8) (treeCreatedAtMs : UInt64)
    (draft : CheckpointDraft) (refNames : List String) (updatedAtMs : UInt64) :
    StoreOp Checkpoint := do
  attempt fun _ => checkSize "blob_data" treeBytes.length maxBlobBytes
  attempt fun _ => draft.validate
  attempt fun _ => validateRefNames refNames
  let effective := draft.withTree treeBytes
  transaction do
    attempt (·.checkParents effective.parents)
    modify (insertBlob treeBytes treeCreatedAtMs)
    modify (insertCheckpoint effective)
    modify fun store => refNames.foldl
      (fun store name => upsertRef name effective.canonicalHash updatedAtMs store) store
    pure effective.checkpoint

end ContentStore

end BittyAi.Session
