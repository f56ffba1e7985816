/-
BittyAi.Session.Refs — branches of `bitty-ai-session/src/session_refs.rs`: their names,
the verbs that move them, each with its row of the reflog, the commit that moves one,
what is known of a name that is gone, and the pruning of the reflog.
-/
import BittyAi.Session.Commit

namespace BittyAi.Session

open Lib Exiting

def maxReflogReasonBytes : Nat := 512
def maxReflogActorBytes : Nat := 128
def maxReflogReadLimit : Nat := 1024
def maxReflogPruneRows : Nat := 1024
def minReflogFloor : Nat := 1

def branchNamespace : String := "heads/"
def tagNamespace : String := "tags/"
def headName : String := "HEAD"
def nonFastForwardMsg : String := "refusing non-fast-forward branch update"

inductive RefError where
  | invalidName
  | alreadyExists
  | notFound
  | protectedHead
  | reservedNamespace
  | missingTarget (hash : ContentHash)
  | corrupt
  | storage (detail : String)
  deriving DecidableEq

def mapStoreErr : ContentStoreError → RefError
  | .missingTarget hash => .missingTarget hash
  | .corruptData _ _ | .corruptCheckpoint _ _ | .invalidHash _ | .missingParent _
  | .missingTree _ => .corrupt
  | .invalidRefName _ | .emptyField _ | .oversizedField _ _ _ => .invalidName
  | .json error => .storage error

/-! ## Branch names -/

/-- What `BranchName::parse` has checked of the text it keeps. -/
def branchNameShape (text : String) : Bool :=
  (validateRefName text).isOk && branchNamespace.toList.isPrefixOf text.toList &&
    text ≠ branchNamespace

structure BranchName where
  text : String
  valid : branchNameShape text = true
  deriving DecidableEq

def BranchName.parse (raw : String) : Except RefError BranchName :=
  if raw = headName then .error .protectedHead
  else if (validateRefName raw).isOk = false then .error .invalidName
  else if branchNamespace.toList.isPrefixOf raw.toList then
    if h : branchNameShape raw = true then .ok ⟨raw, h⟩ else .error .invalidName
  else if tagNamespace.toList.isPrefixOf raw.toList ∨ '/' ∈ raw.toList then
    .error .reservedNamespace
  else .error .invalidName

/-! ## Moving a branch -/

abbrev RefOp (α : Type) : Type := Exiting ContentStore RefError α

def readStore {α : Type} (f : ContentStore → Except ContentStoreError α) : RefOp α :=
  attempt fun store => (f store).mapError mapStoreErr

/-- Rust `append_reflog_tx`, with `check_reflog_meta`. -/
def appendReflog (refName : String) (oldHash : Option ContentHash) (newHash : ContentHash)
    (reason actor : String) (atMs : UInt64) : RefOp Unit := do
  refuse
    (reason.utf8ByteSize > maxReflogReasonBytes ∨ actor.utf8ByteSize > maxReflogActorBytes)
    .invalidName
  modify fun store =>
    { store with
      reflog := store.reflog ++
        [{ seq := store.reflogSeq + 1, refName, oldHash := oldHash.map ContentHash.toHex
           newHash := newHash.toHex, reason, actor, atMs := atMs.toInt64 }]
      reflogSeq := store.reflogSeq + 1 }

/-- Rust `read_ref_tx`, where a missing ref is `NotFound`. -/
def readBranch (branch : BranchName) : RefOp ContentHash := do
  match ← attempt fun store => (store.getRef branch.text).mapError fun _ => RefError.corrupt with
  | some hash => pure hash
  | none => exit .notFound

/-- The `UPDATE` of a ref; the result is the number of rows it met. -/
def setRef (branch : BranchName) (target : ContentHash) (atMs : UInt64) : RefOp Nat :=
  lift fun store =>
    (store.refs.rows.countP fun row => row.name = branch.text,
      { store with
        refs := store.refs.modify branch.text
          (fun row => { row with targetHash := target.toHex, updatedAtMs := atMs.toInt64 })
          fun _ => rfl })

def updateBranch (name : String) (target : ContentHash) (reason actor : String) (atMs : UInt64)
    (fastForwardOnly : Bool) : RefOp BranchName := do
  let branch ← attempt fun _ => BranchName.parse name
  let known ← read (·.hasCheckpoint target)
  refuse (known = false) (.missingTarget target)
  let oldHash ← (do
    match ← readStore (·.getRef branch.text) with
    | some hash => pure hash
    | none => exit .notFound)
  if fastForwardOnly then do
    let base ← readStore (·.mergeBase oldHash target)
    refuse (base ≠ some oldHash) (.storage nonFastForwardMsg)
  transaction do
    let current ← readBranch branch
    refuse (fastForwardOnly ∧ current ≠ oldHash) (.storage nonFastForwardMsg)
    let affected ← setRef branch target atMs
    refuse (affected ≠ 1) .notFound
    appendReflog branch.text (some current) target reason actor atMs
    pure branch

/-! ## The other verbs -/

def readRef (branch : BranchName) : RefOp (Option ContentHash) :=
  attempt fun store => (store.getRef branch.text).mapError fun _ => RefError.corrupt

def insertRef (branch : BranchName) (target : ContentHash) (atMs : UInt64) : RefOp Unit := do
  match ← read (·.refs.insert? ⟨branch.text, target.toHex, atMs.toInt64⟩) with
  | none => exit (.storage "UNIQUE constraint failed: refs.name")
  | some refs => modify fun store => { store with refs }

/-- The `DELETE` of a ref; the result is the number of rows it met. -/
def deleteRef (branch : BranchName) : RefOp Nat :=
  lift fun store =>
    (store.refs.rows.countP fun row => row.name = branch.text,
      { store with refs := store.refs.erase branch.text })

def createBranch (name : String) (target : ContentHash) (reason actor : String) (atMs : UInt64) :
    RefOp BranchName := do
  let branch ← attempt fun _ => BranchName.parse name
  let known ← read (·.hasCheckpoint target)
  refuse (known = false) (.missingTarget target)
  transaction do
    let present ← readRef branch
    refuse (present.isSome = true) .alreadyExists
    insertRef branch target atMs
    appendReflog branch.text none target reason actor atMs
    pure branch

def deleteBranch (name reason actor : String) (atMs : UInt64) : RefOp ContentHash := do
  let branch ← attempt fun _ => BranchName.parse name
  transaction do
    let oldHash ← readBranch branch
    let affected ← deleteRef branch
    refuse (affected ≠ 1) .notFound
    appendReflog branch.text (some oldHash) tombstoneHash reason actor atMs
    pure oldHash

def renameBranch (oldName newName reason actor : String) (atMs : UInt64) : RefOp ContentHash := do
  let oldBranch ← attempt fun _ => BranchName.parse oldName
  let newBranch ← attempt fun _ => BranchName.parse newName
  refuse (oldBranch = newBranch) .invalidName
  let tip ← (do
    match ← readStore (·.getRef oldBranch.text) with
    | some hash => pure hash
    | none => exit .notFound)
  transaction do
    let current ← readBranch oldBranch
    let present ← readRef newBranch
    refuse (present.isSome = true) .alreadyExists
    let deleted ← deleteRef oldBranch
    refuse (deleted ≠ 1) .notFound
    insertRef newBranch tip atMs
    appendReflog oldBranch.text (some current) tombstoneHash reason actor atMs
    appendReflog newBranch.text none tip reason actor atMs
    pure tip

def commitCheckpointWithBranch (treeBytes : List UInt8) (treeCreatedAtMs : UInt64)
    (draft : CheckpointDraft) (branchName reason actor : String) (updatedAtMs : UInt64) :
    RefOp Checkpoint := do
  readStore fun _ => checkSize "blob_data" treeBytes.length maxBlobBytes
  readStore fun _ => draft.validate
  let branch ← attempt fun _ => BranchName.parse branchName
  let effective := draft.withTree treeBytes
  transaction do
    readStore (·.checkParents effective.parents)
    modify (ContentStore.insertBlob treeBytes treeCreatedAtMs)
    modify (ContentStore.insertCheckpoint effective)
    modify (ContentStore.upsertRef headName effective.canonicalHash updatedAtMs)
    match ← readRef branch with
    | none => do
      insertRef branch effective.canonicalHash updatedAtMs
      appendReflog branch.text none effective.canonicalHash reason actor updatedAtMs
    | some current => do
      let affected ← setRef branch effective.canonicalHash updatedAtMs
      refuse (affected ≠ 1) .notFound
      appendReflog branch.text (some current) effective.canonicalHash reason actor updatedAtMs
    pure effective.checkpoint

/-! ## Reads -/

structure ReflogEntry where
  seq : Nat
  refName : String
  oldHash : Option ContentHash
  newHash : ContentHash
  reason : String
  actor : String
  atMs : UInt64
  deriving DecidableEq

def ReflogRow.intoEntry (row : ReflogRow) : Except RefError ReflogEntry := do
  let oldHash ← (decodeHash? row.oldHash).mapError fun _ => RefError.corrupt
  let newHash ← (decodeHash row.newHash).mapError fun _ => RefError.corrupt
  refuseIf (row.atMs < 0) .corrupt
  return { seq := row.seq, refName := row.refName, oldHash, newHash, reason := row.reason
           actor := row.actor, atMs := row.atMs.toUInt64 }

def intoReflogEntries (name : String) : List ReflogRow → Except RefError (List ReflogEntry)
  | [] => .ok []
  | row :: rows => do
    refuseIf (row.refName ≠ name) .corrupt
    let entry ← row.intoEntry
    let entries ← intoReflogEntries name rows
    return entry :: entries

def reflogOf (name : String) (store : ContentStore) : List ReflogRow :=
  store.reflog.filter fun row => row.refName = name

def readReflog (name : String) (limit : Nat) (store : ContentStore) :
    Except RefError (List ReflogEntry) := do
  (validateRefName name).mapError fun _ => RefError.invalidName
  intoReflogEntries name
    (((reflogOf name store).insertionSort fun a b => b.seq ≤ a.seq).take
      (min limit maxReflogReadLimit))

def dumpReflogAll (store : ContentStore) : Except RefError (List ReflogEntry) :=
  (store.reflog.insertionSort fun a b => a.seq ≤ b.seq).mapM ReflogRow.intoEntry

inductive BranchAbsence where
  | live (tip : ContentHash)
  | deleted (tip : ContentHash) (reason actor : String) (atMs : UInt64)
  | neverExisted

def branchAbsence (name : String) (store : ContentStore) : Except RefError BranchAbsence := do
  let branch ← BranchName.parse name
  match ← (store.getRef branch.text).mapError mapStoreErr with
  | some tip => return .live tip
  | none =>
    let newest ← readReflog branch.text 1 store
    match newest.head? with
    | some entry =>
      if entry.newHash = tombstoneHash then
        return .deleted (entry.oldHash.getD tombstoneHash) entry.reason entry.actor entry.atMs
      else return .neverExisted
    | none => return .neverExisted

/-! ## Pruning the reflog -/

structure PruneReport where
  pruned : Nat
  floorKept : Nat
  tombstoneSurvived : Nat

structure PruneScan where
  victims : List Nat
  tombstoneSurvived : Nat

/-- A candidate of the scan: too young, a tombstone in its grace, or a victim while
there is room. -/
def pruneStep (olderThanMs : UInt64) (graceThreshold cap : Nat) (scan : PruneScan)
    (entry : ReflogEntry) : PruneScan :=
  if olderThanMs ≤ entry.atMs then scan
  else if entry.newHash = tombstoneHash ∧ graceThreshold ≤ entry.atMs.toNat then
    { scan with tombstoneSurvived := scan.tombstoneSurvived + 1 }
  else if scan.victims.length < cap then { scan with victims := scan.victims ++ [entry.seq] }
  else scan

def pruneScan (olderThanMs : UInt64) (graceThreshold cap : Nat) :
    List ReflogRow → PruneScan → Except RefError PruneScan
  | [], scan => .ok scan
  | row :: rows, scan => do
    let entry ← row.intoEntry
    pruneScan olderThanMs graceThreshold cap rows
      (pruneStep olderThanMs graceThreshold cap scan entry)

def floorEntry (seq : Nat) (store : ContentStore) : Except RefError (Option ReflogEntry) :=
  match store.reflog.find? fun row => row.seq = seq with
  | none => .ok none
  | some row => some <$> row.intoEntry

def deleteReflogRow (name : String) (_ : Unit) (seq : Nat) : RefOp Unit := do
  let affected ← lift fun store =>
    (store.reflog.countP fun row => row.seq = seq ∧ row.refName = name,
      { store with reflog := store.reflog.filter fun row => ¬(row.seq = seq ∧ row.refName = name) })
  refuse (affected ≠ 1) .corrupt

def pruneReflog (name : String) (olderThanMs : UInt64) (maxRows : Nat)
    (tombstoneGraceMs nowMs : UInt64) : RefOp PruneReport := do
  attempt fun _ => (validateRefName name).mapError fun _ => RefError.invalidName
  let cap := min maxRows maxReflogPruneRows
  let graceThreshold := nowMs.toNat - tombstoneGraceMs.toNat
  transaction do
    match ← read fun store => ((reflogOf name store).map (·.seq)).max? with
    | none => pure ⟨0, 0, 0⟩
    | some maxSeq =>
      -- the newest row is no candidate, so it is validated on its own
      let _ ← attempt (floorEntry maxSeq)
      let scan ← attempt fun store =>
        pruneScan olderThanMs graceThreshold cap
          (((reflogOf name store).filter fun row => row.seq < maxSeq).insertionSort
            fun a b => a.seq ≤ b.seq) ⟨[], 0⟩
      each (deleteReflogRow name) scan.victims ()
      pure ⟨scan.victims.length, minReflogFloor, scan.tombstoneSurvived⟩

end BittyAi.Session
