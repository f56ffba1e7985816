/-
BittyAi.Session.ContentStore — the tables and the reads of
`bitty-ai-session/src/content_store.rs`: blobs, checkpoints, refs and the reflog,
and the search for a merge base.

One connection holds all tables, so the rows of the pending plane and of the session
bindings are part of the store. Hashes stand in text columns, which a caller may have filled
with anything; a JSON column is what its text decodes to. Database statements succeed.
-/
import BittyAi.Lib.EarlyExit
import BittyAi.Lib.JsonText
import BittyAi.Lib.KeyedTable
import BittyAi.Lib.Worklist
import BittyAi.Session.ContentHash

namespace BittyAi.Session

open Lib

def maxRefNameBytes : Nat := 256
def maxTaskIdBytes : Nat := 128

/-! ## Checkpoints -/

structure Rationale where
  why : String
  what : String
  whereFocus : Option String := none
  how : Option String := none
  expected : Option String := none
  observed : Option String := none
  deriving DecidableEq

def Rationale.toJson (rationale : Rationale) : String :=
  jsonObject ([("why", rationale.why), ("what", rationale.what)] ++
    [("where_focus", rationale.whereFocus), ("how", rationale.how),
      ("expected", rationale.expected), ("observed", rationale.observed)].filterMap
        fun (key, value) => value.map (key, ·))

structure CheckpointDraft where
  parents : List ContentHash
  taskId : String
  agentId : String
  rationale : Rationale
  treeHash : Option ContentHash
  summary : String
  timestampMs : UInt64
  deriving DecidableEq

structure Checkpoint where
  id : ContentHash
  parents : List ContentHash
  taskId : String
  agentId : String
  rationale : Rationale
  treeHash : Option ContentHash
  summary : String
  timestampMs : UInt64
  deriving DecidableEq

namespace CheckpointDraft

/-- What `canonical_hash` feeds to the hasher after its tag. -/
def hashedFields (draft : CheckpointDraft) : List String :=
  [String.intercalate "," ((draft.parents.insertionSort (· ≤ ·)).map ContentHash.toHex),
    draft.taskId, draft.agentId, (draft.treeHash.map ContentHash.toHex).getD "", draft.summary,
    toString draft.timestampMs.toNat, draft.rationale.toJson]

/-- The bytes that `canonical_hash` feeds to the hasher. -/
def hashedBytes (draft : CheckpointDraft) : List UInt8 :=
  utf8Bytes "checkpoint:v2" ++ 0 :: draft.hashedFields.flatMap fun field =>
    beBytes 8 field.utf8ByteSize ++ utf8Bytes field

def canonicalHash (draft : CheckpointDraft) : ContentHash :=
  ContentHash.compute draft.hashedBytes

end CheckpointDraft

/-! ## Tables -/

inductive JsonColumn (α : Type) where
  | decoded (value : α)
  | malformed (error : String)
  deriving DecidableEq

structure BlobRow where
  hash : String
  data : List UInt8
  createdAtMs : Int64

structure CheckpointRow where
  hash : String
  parentsJson : JsonColumn (List ContentHash)
  taskId : String
  agentId : String
  rationaleJson : JsonColumn Rationale
  treeHash : Option String
  summary : String
  createdAtMs : Int64
  deriving DecidableEq

structure RefRow where
  name : String
  targetHash : String
  updatedAtMs : Int64

structure ReflogRow where
  seq : Nat
  refName : String
  oldHash : Option String
  newHash : String
  reason : String
  actor : String
  atMs : Int64

structure PendingRow where
  callId : String
  sessionId : String
  taskId : Option String
  tool : String
  argsDigest : String
  status : String
  disposition : Option String
  generation : Int64
  epoch : Int64
  begunAtMs : Int64
  resolvedAtMs : Option Int64

/-- A row of `pending_resolved_recent`. -/
structure ResolvedRow where
  callId : String
  sessionId : String
  taskId : Option String
  tool : String
  argsDigest : String
  status : String
  disposition : String
  generation : Int64
  epoch : Int64
  begunAtMs : Int64
  resolvedAtMs : Int64

structure SessionBindingRow where
  sessionId : String
  branch : String
  headHex : String
  generation : Int64
  epoch : Int64
  updatedAtMs : Int64

/-- The tables of the connection; `reflogSeq` is the last sequence number given to a
row of the reflog. -/
structure ContentStore where
  blobs : KeyedTable BlobRow.hash
  checkpoints : KeyedTable CheckpointRow.hash
  refs : KeyedTable RefRow.name
  reflog : List ReflogRow
  reflogSeq : Nat
  pendingEffects : KeyedTable PendingRow.callId
  pendingResolvedRecent : KeyedTable ResolvedRow.callId
  sessionBindings : KeyedTable SessionBindingRow.sessionId

def ContentStore.openInMemory : ContentStore where
  blobs := ⟨[], List.nodup_nil⟩
  checkpoints := ⟨[], List.nodup_nil⟩
  refs := ⟨[], List.nodup_nil⟩
  reflog := []
  reflogSeq := 0
  pendingEffects := ⟨[], List.nodup_nil⟩
  pendingResolvedRecent := ⟨[], List.nodup_nil⟩
  sessionBindings := ⟨[], List.nodup_nil⟩

/-- Rust `ContentStoreError`, without the failures of the database and of opening
it. -/
inductive ContentStoreError where
  | json (error : String)
  | invalidHash (text : String)
  | corruptData (expected found : ContentHash)
  | corruptCheckpoint (expected found : ContentHash)
  | missingParent (hash : ContentHash)
  | missingTree (hash : ContentHash)
  | missingTarget (hash : ContentHash)
  | oversizedField (field : String) (size max : Nat)
  | emptyField (field : String)
  | invalidRefName (name : String)
  deriving DecidableEq

def beyondI64 (value : UInt64) : Bool := 0x7fffffffffffffff < value.toNat

/-- A stored hash; bad text is `InvalidHash`. -/
def decodeHash (text : String) : Except ContentStoreError ContentHash :=
  match ContentHash.fromHex text with
  | .ok hash => .ok hash
  | .error (.invalidHash text) => .error (.invalidHash text)

def decodeHashes : List String → Except ContentStoreError (List ContentHash)
  | [] => .ok []
  | text :: texts => do
    let hash ← decodeHash text
    let hashes ← decodeHashes texts
    return hash :: hashes

def decodeHash? : Option String → Except ContentStoreError (Option ContentHash)
  | none => .ok none
  | some text => some <$> decodeHash text

def decodeJson {α : Type} : JsonColumn α → Except ContentStoreError α
  | .decoded value => .ok value
  | .malformed error => .error (.json error)

namespace ContentStore

/-! ## Blobs and checkpoints -/

def getBlob (store : ContentStore) (hash : ContentHash) :
    Except ContentStoreError (Option (List UInt8)) :=
  match store.blobs.find? hash.toHex with
  | none => .ok none
  | some row =>
    let computed := ContentHash.compute row.data
    if computed ≠ hash then .error (.corruptData hash computed) else .ok (some row.data)

def hasCheckpoint (store : ContentStore) (hash : ContentHash) : Bool :=
  store.checkpoints.contains hash.toHex

def decodeRow (row : CheckpointRow) : Except ContentStoreError CheckpointDraft := do
  let parents ← decodeJson row.parentsJson
  let rationale ← decodeJson row.rationaleJson
  let treeHash ← decodeHash? row.treeHash
  return { parents, taskId := row.taskId, agentId := row.agentId, rationale, treeHash
           summary := row.summary, timestampMs := row.createdAtMs.toUInt64 }

def getCheckpoint (store : ContentStore) (hash : ContentHash) :
    Except ContentStoreError (Option Checkpoint) :=
  match store.checkpoints.find? hash.toHex with
  | none => .ok none
  | some row => do
    let draft ← decodeRow row
    refuseIf (draft.canonicalHash ≠ hash) (.corruptCheckpoint hash draft.canonicalHash)
    return some
      { id := hash, parents := draft.parents, taskId := draft.taskId, agentId := draft.agentId
        rationale := draft.rationale, treeHash := draft.treeHash, summary := draft.summary
        timestampMs := draft.timestampMs }

/-! ## Refs and listings -/

def getRef (store : ContentStore) (name : String) : Except ContentStoreError (Option ContentHash) :=
  decodeHash? ((store.refs.find? name).map (·.targetHash))

def listRefs (store : ContentStore) : Except ContentStoreError (List (String × ContentHash)) := do
  let rows := store.refs.rows.insertionSort (·.name ≤ ·.name)
  let targets ← decodeHashes (rows.map (·.targetHash))
  return (rows.map (·.name)).zip targets

def decodeMoves : List ReflogRow →
    Except ContentStoreError (List (Option ContentHash × ContentHash))
  | [] => .ok []
  | row :: rows => do
    let old ← decodeHash? row.oldHash
    let new ← decodeHash row.newHash
    let moves ← decodeMoves rows
    return (old, new) :: moves

def windowStart (nowMs graceMs : UInt64) : Nat :=
  min (nowMs.toNat - graceMs.toNat) 0x7fffffffffffffff

def reflogWindowHashes (store : ContentStore) (nowMs graceMs : UInt64) :
    Except ContentStoreError (List (Option ContentHash × ContentHash)) :=
  decodeMoves (store.reflog.filter fun row => (windowStart nowMs graceMs : Int) ≤ row.atMs.toInt)

def allCheckpointHashes (store : ContentStore) : Except ContentStoreError (List ContentHash) :=
  decodeHashes ((store.checkpoints.rows.map (·.hash)).insertionSort (· ≤ ·))

def allBlobHashes (store : ContentStore) : Except ContentStoreError (List ContentHash) :=
  decodeHashes ((store.blobs.rows.map (·.hash)).insertionSort (· ≤ ·))

def deleteCheckpointsAndBlobs (store : ContentStore) (checkpoints blobs : List ContentHash) :
    ContentStore :=
  { store with
    checkpoints := (checkpoints.map ContentHash.toHex).foldl KeyedTable.erase store.checkpoints
    blobs := (blobs.map ContentHash.toHex).foldl KeyedTable.erase store.blobs }

/-! ## Ancestry -/

def rowParents (row : CheckpointRow) : List ContentHash :=
  match row.parentsJson with
  | .decoded parents => parents
  | .malformed _ => []

def parentsOf (store : ContentStore) (hash : ContentHash) : List ContentHash :=
  ((store.checkpoints.find? hash.toHex).map rowParents).getD []

def readParents (store : ContentStore) (hash : ContentHash) :
    Except ContentStoreError (List ContentHash) := do
  let checkpoint ← store.getCheckpoint hash
  return (checkpoint.map (·.parents)).getD []

def walkFuel (store : ContentStore) : Nat := 1 + (store.checkpoints.rows.flatMap rowParents).length

/-- The first loop of `merge_base`: all ancestors, the start included. -/
def ancestorsOf (store : ContentStore) (start : ContentHash) :
    Except ContentStoreError (List ContentHash) := do
  let (_, seen) ← search (fun (_ : Unit) _ current => do return ((), ← store.readParents current))
    store.walkFuel () [start] [start]
  return seen

/-- How the second loop of `merge_base` stops early. -/
inductive Met where
  | common (hash : ContentHash)
  | failed (error : ContentStoreError)

/-- A round of the second loop of `merge_base`. -/
def meetStep (store : ContentStore) (ancestors : List ContentHash) (current : ContentHash) :
    Except Met (Unit × List ContentHash) :=
  if current ∈ ancestors then .error (.common current)
  else match store.readParents current with
    | .error error => .error (.failed error)
    | .ok parents => .ok ((), parents)

def mergeBase (store : ContentStore) (a b : ContentHash) :
    Except ContentStoreError (Option ContentHash) :=
  if a = b then .ok (some a)
  else do
    let ancestors ← store.ancestorsOf a
    match search (fun _ _ => store.meetStep ancestors) store.walkFuel () [b] [b] with
    | .error (.common hash) => .ok (some hash)
    | .error (.failed error) => .error error
    | .ok _ => .ok none

end ContentStore

/-! ## Names -/

def refNameChar (c : Char) : Bool := c.isAlphanum || c ∈ ['/', '-', '_', '.']

def validateRefName (name : String) : Except ContentStoreError Unit := do
  refuseIf (trim name).isEmpty (.emptyField "ref_name")
  refuseIf (name.utf8ByteSize > maxRefNameBytes)
    (.oversizedField "ref_name" name.utf8ByteSize maxRefNameBytes)
  refuseIf (name.toList.any fun c => !refNameChar c) (.invalidRefName name)

end BittyAi.Session
