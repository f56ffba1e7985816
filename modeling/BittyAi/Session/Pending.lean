/-
BittyAi.Session.Pending — the pending log of `bitty-ai-session/src/pending.rs`: how
a row is validated, the calls that open and close one, the listings and the blobs that
open rows keep. A missing table reads as an empty one: the source creates it first.
-/
import Mathlib.Data.Prod.Lex
import BittyAi.Lib.SortedList
import BittyAi.Session.ContentStore

namespace BittyAi.Session

open Lib Exiting

def maxSessionIdBytes : Nat := 128
def maxPendingToolName : Nat := 64
def maxPendingCallId : Nat := 128
def maxOpenPendingPerSession : Nat := 32
def maxResolvedRecent : Nat := 32
def pendingIntegerRangeMsg : String := "pending integer out of range: value exceeds i64::MAX"

def sessionIdChar (c : Char) : Bool := c.isAlphanum || c ∈ ['-', '_', '.']

/-- What `WheelSessionId::parse` checks. -/
def sessionIdShape (raw : String) : Bool :=
  !(trim raw).isEmpty && decide (raw.utf8ByteSize ≤ maxSessionIdBytes) && raw ≠ "HEAD" &&
    raw.toList.all sessionIdChar

structure WheelSessionId where
  text : String
  valid : sessionIdShape text = true
  deriving DecidableEq

inductive PendingStatus where
  | «open»
  | resolved
  deriving DecidableEq

def PendingStatus.parse (raw : String) : Option PendingStatus :=
  if raw = "open" then some .open else if raw = "resolved" then some .resolved else none

inductive PendingDisposition where
  | success
  | failed
  | denied
  | refused
  | unknownReconciled
  | unknownEscalated
  | abandoned
  deriving DecidableEq

def PendingDisposition.asStr : PendingDisposition → String
  | .success => "success"
  | .failed => "failed"
  | .denied => "denied"
  | .refused => "refused"
  | .unknownReconciled => "unknown-reconciled"
  | .unknownEscalated => "unknown-escalated"
  | .abandoned => "abandoned"

def PendingDisposition.parse (raw : String) : Option PendingDisposition :=
  [("success", success), ("failed", failed), ("denied", denied), ("refused", refused),
    ("unknown-reconciled", unknownReconciled), ("unknown-escalated", unknownEscalated),
    ("abandoned", abandoned)].lookup raw

structure PendingEntry where
  callId : String
  sessionId : WheelSessionId
  taskId : Option String
  tool : String
  argsDigest : ContentHash
  status : PendingStatus
  disposition : Option PendingDisposition
  generation : UInt64
  epoch : UInt64
  begunAtMs : UInt64
  resolvedAtMs : Option UInt64
  deriving DecidableEq

inductive PendingError where
  | invalidId
  | alreadyExists
  | notFound
  | staleEpoch (claimEpoch currentEpoch : UInt64)
  | staleGeneration (expected found : UInt64)
  | tooManyOpen (limit : Nat)
  | mismatch (stored supplied : PendingDisposition)
  | corrupt
  | storage (detail : String)
  deriving DecidableEq

/-! ## Rows -/

def validCallId (raw : String) : Bool :=
  !raw.isEmpty && decide (raw.utf8ByteSize ≤ maxPendingCallId) && raw.toList.all fun c =>
    c.isDigit || ('a' ≤ c && c ≤ 'f') || ('A' ≤ c && c ≤ 'F')

def validTool (raw : String) : Bool :=
  !raw.isEmpty && decide (raw.utf8ByteSize ≤ maxPendingToolName)

def validTaskId (raw : Option String) : Bool :=
  raw.all fun id => !id.isEmpty && decide (id.utf8ByteSize ≤ maxTaskIdBytes)

def orCorrupt {α : Type} : Option α → Except PendingError α
  | some value => .ok value
  | none => .error .corrupt

def parseOptional {α : Type} (parse : String → Option α) : Option String →
    Except PendingError (Option α)
  | none => .ok none
  | some raw => some <$> orCorrupt (parse raw)

def statusFits : PendingStatus → Option PendingDisposition → Option Int64 → Bool
  | .open, none, none => true
  | .resolved, some _, some _ => true
  | _, _, _ => false

def PendingRow.intoEntry (row : PendingRow) : Except PendingError PendingEntry := do
  refuseIf (validCallId row.callId = false) .corrupt
  let sessionId ← orCorrupt <|
    if h : sessionIdShape row.sessionId = true then some (⟨row.sessionId, h⟩ : WheelSessionId)
    else none
  refuseIf (validTool row.tool = false ∨ validTaskId row.taskId = false) .corrupt
  let argsDigest ← orCorrupt (ContentHash.fromHex row.argsDigest).toOption
  let status ← orCorrupt (PendingStatus.parse row.status)
  let disposition ← parseOptional PendingDisposition.parse row.disposition
  refuseIf (statusFits status disposition row.resolvedAtMs = false) .corrupt
  refuseIf (row.generation < 0 ∨ row.epoch < 0 ∨ row.begunAtMs < 0) .corrupt
  refuseIf (row.resolvedAtMs.any fun moment => moment < 0) .corrupt
  return { callId := row.callId, sessionId, taskId := row.taskId, tool := row.tool, argsDigest
           status, disposition, generation := row.generation.toUInt64
           epoch := row.epoch.toUInt64, begunAtMs := row.begunAtMs.toUInt64
           resolvedAtMs := row.resolvedAtMs.map Int64.toUInt64 }

def openDigests : List PendingRow → Except PendingError (List ContentHash)
  | [] => .ok []
  | row :: rows => do
    let entry ← row.intoEntry
    let digests ← openDigests rows
    return if entry.status = .open ∧ entry.argsDigest ≠ tombstoneHash then
      entry.argsDigest :: digests else digests

def openBlobRoots (store : ContentStore) : Except PendingError (List ContentHash) := do
  let roots ← openDigests (store.pendingEffects.rows.filter fun row => row.status = "open")
  refuseIf (store.pendingEffects.rows.any fun row =>
    row.status ≠ "open" && row.status ≠ "resolved") .corrupt
  return sortDedup roots

/-! ## Reads -/

def ResolvedRow.stored (row : ResolvedRow) : PendingRow where
  callId := row.callId
  sessionId := row.sessionId
  taskId := row.taskId
  tool := row.tool
  argsDigest := row.argsDigest
  status := row.status
  disposition := some row.disposition
  generation := row.generation
  epoch := row.epoch
  begunAtMs := row.begunAtMs
  resolvedAtMs := some row.resolvedAtMs

def intoEntry? : Option PendingRow → Except PendingError (Option PendingEntry)
  | none => .ok none
  | some row => some <$> row.intoEntry

def readEntry (callId : String) (store : ContentStore) :
    Except PendingError (Option PendingEntry) :=
  intoEntry? (store.pendingEffects.find? callId)

def readCached (callId : String) (store : ContentStore) :
    Except PendingError (Option PendingEntry) :=
  intoEntry? ((store.pendingResolvedRecent.find? callId).map ResolvedRow.stored)

def intoEntries : List PendingRow → Except PendingError (List PendingEntry)
  | [] => .ok []
  | row :: rows => do
    let entry ← row.intoEntry
    let entries ← intoEntries rows
    return entry :: entries

/-- The order of `list_open`: by begin, then by call id. -/
def begunAge (row : PendingRow) : Int ×ₗ String := toLex (row.begunAtMs.toInt, row.callId)

def resolvedAge (row : ResolvedRow) : Int ×ₗ String := toLex (row.resolvedAtMs.toInt, row.callId)

namespace PendingStore

def listOpen (sessionId : WheelSessionId) (store : ContentStore) :
    Except PendingError (List PendingEntry) := do
  let rows := store.pendingEffects.rows.filter fun row =>
    row.sessionId = sessionId.text ∧ row.status = "open"
  let entries ← intoEntries (rows.insertionSort fun a b => begunAge a ≤ begunAge b)
  refuseIf (store.pendingEffects.rows.any fun row =>
    row.sessionId = sessionId.text ∧ row.status ≠ "open" ∧ row.status ≠ "resolved") .corrupt
  return entries

def get (callId : String) (store : ContentStore) : Except PendingError (Option PendingEntry) := do
  refuseIf (validCallId callId = false) .invalidId
  match ← readEntry callId store with
  | some entry => return some entry
  | none => readCached callId store

end PendingStore

/-! ## Opening and closing a call -/

structure PendingBegin where
  callId : String
  sessionId : WheelSessionId
  taskId : Option String
  tool : String
  args : List UInt8
  generation : UInt64
  epoch : UInt64
  nowMs : UInt64

structure PendingResolve where
  callId : String
  disposition : PendingDisposition
  claimEpoch : UInt64
  expectedGeneration : UInt64
  nowMs : UInt64

abbrev PendingOp (α : Type) : Type := Exiting ContentStore PendingError α

def openCount (sessionId : WheelSessionId) (store : ContentStore) : Nat :=
  store.pendingEffects.rows.countP fun row => row.sessionId = sessionId.text ∧ row.status = "open"

def PendingBegin.entry (req : PendingBegin) : PendingEntry where
  callId := req.callId
  sessionId := req.sessionId
  taskId := req.taskId
  tool := req.tool
  argsDigest := ContentHash.compute req.args
  status := .open
  disposition := none
  generation := req.generation
  epoch := req.epoch
  begunAtMs := req.nowMs
  resolvedAtMs := none

def PendingBegin.row (req : PendingBegin) : PendingRow where
  callId := req.callId
  sessionId := req.sessionId.text
  taskId := req.taskId
  tool := req.tool
  argsDigest := (ContentHash.compute req.args).toHex
  status := "open"
  disposition := none
  generation := req.generation.toInt64
  epoch := req.epoch.toInt64
  begunAtMs := req.nowMs.toInt64
  resolvedAtMs := none

/-- The row that `insert_resolved_cache` inserts. -/
def PendingEntry.resolvedRow (resolved : PendingEntry) : ResolvedRow where
  callId := resolved.callId
  sessionId := resolved.sessionId.text
  taskId := resolved.taskId
  tool := resolved.tool
  argsDigest := resolved.argsDigest.toHex
  status := "resolved"
  disposition := (resolved.disposition.getD .abandoned).asStr
  generation := resolved.generation.toInt64
  epoch := resolved.epoch.toInt64
  begunAtMs := resolved.begunAtMs.toInt64
  resolvedAtMs := (resolved.resolvedAtMs.getD resolved.begunAtMs).toInt64

def insertPending (row : PendingRow) : PendingOp Unit := do
  match ← read (·.pendingEffects.insert? row) with
  | none => exit .alreadyExists
  | some pendingEffects => modify fun store => { store with pendingEffects }

def deleteOpen (callId : String) : PendingOp Unit :=
  modify fun store =>
    { store with
      pendingEffects := store.pendingEffects.filter fun row =>
        ¬(row.callId = callId ∧ row.status = "open") }

def evictOldest (cache : KeyedTable ResolvedRow.callId) : KeyedTable ResolvedRow.callId :=
  cache.filter fun row =>
    row.callId ∈ (newest resolvedAge maxResolvedRecent cache.rows).map (·.callId)

def insertResolvedCache (resolved : PendingEntry) : PendingOp Unit := do
  match ← read (·.pendingResolvedRecent.insert? resolved.resolvedRow) with
  | none => exit .alreadyExists
  | some cache => modify fun store => { store with pendingResolvedRecent := evictOldest cache }

def answerStored (entry : PendingEntry) (supplied : PendingDisposition) : PendingOp PendingEntry :=
  let stored := entry.disposition.getD .abandoned
  if stored = supplied then pure entry else exit (.mismatch stored supplied)

def PendingEntry.close (entry : PendingEntry) (req : PendingResolve) : PendingEntry :=
  { entry with
    status := .resolved, disposition := some req.disposition, resolvedAtMs := some req.nowMs }

/-- The branch of `resolve` where the live table has the call. -/
def resolveLive (req : PendingResolve) (entry : PendingEntry) : PendingOp PendingEntry :=
  -- a resolved row in the live table is left by older databases
  if entry.status = .resolved then answerStored entry req.disposition
  else do
    refuse (req.claimEpoch < entry.epoch) (.staleEpoch req.claimEpoch entry.epoch)
    refuse (req.expectedGeneration ≠ entry.generation)
      (.staleGeneration entry.generation req.expectedGeneration)
    deleteOpen req.callId
    insertResolvedCache (entry.close req)
    pure (entry.close req)

namespace PendingStore

def begin (req : PendingBegin) : PendingOp PendingEntry := do
  refuse (validCallId req.callId = false ∨ validTool req.tool = false ∨
    validTaskId req.taskId = false) .invalidId
  refuse (beyondI64 req.generation ∨ beyondI64 req.epoch ∨ beyondI64 req.nowMs)
    (.storage pendingIntegerRangeMsg)
  transaction do
    let openRows ← read (openCount req.sessionId)
    refuse (maxOpenPendingPerSession ≤ openRows) (.tooManyOpen maxOpenPendingPerSession)
    let taken ← read (·.pendingEffects.contains req.callId)
    let takenCache ← read (·.pendingResolvedRecent.contains req.callId)
    refuse (taken ∨ takenCache) .alreadyExists
    insertPending req.row
    pure req.entry

def resolve (req : PendingResolve) : PendingOp PendingEntry := do
  refuse (validCallId req.callId = false) .invalidId
  refuse (beyondI64 req.nowMs) (.storage pendingIntegerRangeMsg)
  transaction do
    match ← attempt (readEntry req.callId) with
    | some entry => resolveLive req entry
    | none =>
      match ← attempt (readCached req.callId) with
      | some cached => answerStored cached req.disposition
      | none => exit .notFound

end PendingStore

end BittyAi.Session
