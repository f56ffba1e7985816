/-
BittyAi.Runtime.Context — bounded context assembly (L0 + L1) of
`bitty-ai-runtime/src/context.rs`.

`assemble` is translated stage by stage, one definition per loop of the Rust body, in the
order the source runs them.

Rust holds the staged records in a vector indexed by position and marks the included
positions in a boolean vector. Here a staged record is paired with its position by
`List.zipIdx` and the included positions form a list.
-/
import BittyAi.Runtime.ArtifactStore

namespace BittyAi.Runtime

open Lib

/-! ## Records and requests -/

def defaultContextBudgetBytes : Nat := 32 * 1024

inductive ContextPriority where
  | low
  | normal
  | high
  | critical
  deriving DecidableEq

/-- The discriminant Rust compares and sorts by (`as u8`). -/
def ContextPriority.rank : ContextPriority → Nat
  | .low => 0
  | .normal => 1
  | .high => 2
  | .critical => 3

structure ContextRequest where
  maxTokens : Option Nat
  maxBytes : Option Nat
  currentGeneration : Nat

def estimateTokens (bytes : Nat) : Nat :=
  (bytes + bytesPerTokenEstimate - 1) / bytesPerTokenEstimate

/-- `u64` converts to `usize` without loss on the supported targets. -/
def ContextRequest.effectiveBudgetBytes (request : ContextRequest) : Nat :=
  let budget := request.maxBytes.getD defaultContextBudgetBytes
  match request.maxTokens with
  | some tokens => min budget (tokens * bytesPerTokenEstimate)
  | none => budget

inductive RecordBody where
  | inline (bytes : List UInt8)
  | artifact (reference : ArtifactRef)
  deriving DecidableEq

def RecordBody.byteLen : RecordBody → Nat
  | .inline bytes => bytes.length
  | .artifact reference => reference.text.utf8ByteSize

structure ContextRecord where
  id : String
  provider : String
  owner : StableId
  generation : Nat
  collectedAtMs : Nat
  priority : ContextPriority
  summary : String
  body : RecordBody
  supersedes : Option String
  isUntrustedSurface : Bool
  deriving DecidableEq

def ContextRecord.validate (record : ContextRecord) : Except ContextError Unit :=
  if record.provider ∉ knownProviders then .error (.unknownProvider record.provider)
  else if record.summary.utf8ByteSize > maxSummaryBytes then
    .error (.summaryTooLarge maxSummaryBytes record.summary.utf8ByteSize)
  else match record.body with
    | .inline bytes =>
      if bytes.length > maxRecordBodyBytes then
        .error (.bodyTooLarge maxRecordBodyBytes bytes.length)
      else .ok ()
    | .artifact _ => .ok ()

def ContextRecord.footprintBytes (record : ContextRecord) : Nat :=
  record.summary.utf8ByteSize + record.body.byteLen

/-- Untrusted records clamp to at most `Normal`. -/
def effectivePriority (record : ContextRecord) : ContextPriority :=
  if record.isUntrustedSurface then
    if record.priority.rank ≤ ContextPriority.normal.rank then record.priority else .normal
  else record.priority

def ContextRecord.sameContent (kept record : ContextRecord) : Bool :=
  kept.provider == record.provider && kept.owner == record.owner &&
    kept.summary == record.summary && kept.body == record.body

/-! ## Assembled values -/

inductive AssembledContent where
  | inline (bytes : List UInt8)
  | reference (target : ArtifactRef)

def AssembledContent.byteLen : AssembledContent → Nat
  | .inline bytes => bytes.length
  | .reference target => target.text.utf8ByteSize

structure AssembledRecord where
  id : String
  provider : String
  summary : String
  content : AssembledContent
  isUntrustedSurface : Bool

def AssembledRecord.footprintBytes (record : AssembledRecord) : Nat :=
  record.summary.utf8ByteSize + record.content.byteLen

def AssembledRecord.spanHeader (record : AssembledRecord) : String :=
  let trust := if record.isUntrustedSurface then "untrusted" else "trusted"
  s!"[{trust}:{record.provider}:{record.id}]"

structure AssembledContext where
  records : List AssembledRecord
  contextRefs : List String
  omittedIds : List String
  prunedIds : List String
  externalized : Nat
  truncatedBytes : Nat
  truncatedTokensEstimate : Nat
  truncatedProviders : List String
  budgetBytes : Nat

/-! ## Record checks -/

/-- `record.validate()?` over every record, first failure first. -/
def validateAll : List ContextRecord → Except ContextError Unit
  | [] => .ok ()
  | record :: rest =>
    match record.validate with
    | .error e => .error e
    | .ok () => validateAll rest

/-- The `HashSet` pass over the turn-scoped ids: the first repeated id fails. -/
def rejectDuplicateIds (seen : List String) : List ContextRecord → Except ContextError Unit
  | [] => .ok ()
  | record :: rest =>
    if record.id ∈ seen then .error (.duplicateRecordId record.id)
    else rejectDuplicateIds (record.id :: seen) rest

def rejectStale (current : Nat) : List ContextRecord → Except ContextError Unit
  | [] => .ok ()
  | record :: rest =>
    if record.generation ≠ current then
      .error (.staleGeneration record.id record.generation current)
    else rejectStale current rest

def checkRecords (records : List ContextRecord) (current : Nat) : Except ContextError Unit :=
  if records.length > maxContextRecords then .error (.tooManyRecords maxContextRecords)
  else
    match validateAll records with
    | .error e => .error e
    | .ok () =>
      match rejectDuplicateIds [] records with
      | .error e => .error e
      | .ok () => rejectStale current records

/-! ## Supersede filter and dedupe -/

/-- The ids named by `supersedes` links of trusted records. -/
def supersededIds (records : List ContextRecord) : List String :=
  (records.filter fun record => !record.isUntrustedSurface).filterMap (·.supersedes)

/-- Whether a later duplicate takes the slot: a trusted record never yields to
an untrusted one and always reclaims from one; otherwise the newer wins. -/
def keepNew (kept record : ContextRecord) : Bool :=
  match kept.isUntrustedSurface, record.isUntrustedSurface with
  | false, true => false
  | true, false => true
  | _, _ => record.collectedAtMs > kept.collectedAtMs

abbrev Slot := Nat × ContextRecord

/-- The first slot with the same content decides, otherwise a new slot is opened at the end. The
second component is the id the collapse prunes. -/
def offer (index : Nat) (record : ContextRecord) : List Slot → List Slot × Option String
  | [] => ([(index, record)], none)
  | slot :: rest =>
    if slot.2.sameContent record then
      if keepNew slot.2 record then ((index, record) :: rest, some slot.2.id)
      else (slot :: rest, some record.id)
    else (slot :: (offer index record rest).1, (offer index record rest).2)

structure Deduped where
  slots : List Slot
  prunedIds : List String

def dedupeStep (superseded : List String) (acc : Deduped) (entry : ContextRecord × Nat) : Deduped :=
  if entry.1.id ∈ superseded then
    { acc with prunedIds := acc.prunedIds ++ [entry.1.id] }
  else
    { slots := (offer entry.2 entry.1 acc.slots).1
      prunedIds := acc.prunedIds ++ (offer entry.2 entry.1 acc.slots).2.toList }

def dedupe (records : List ContextRecord) : Deduped :=
  records.zipIdx.foldl (dedupeStep (supersededIds records)) ⟨[], []⟩

/-! ## Staging -/

/-- A deduped record with its caller index; `pending` holds the bytes that move
to the store if the record is selected. -/
structure Staged where
  index : Nat
  record : ContextRecord
  pending : Option (List UInt8)

def ContextRecord.largeBody (record : ContextRecord) : Option (List UInt8) :=
  match record.body with
  | .inline bytes => if bytes.length > externalizeThresholdBytes then some bytes else none
  | .artifact _ => none

/-- Phase 1: large bodies move to `pending` under a predicted reference. `lastId`
is the last id the store assigned plus the externalizations predicted so far. -/
def stage (lastId : Nat) : List Slot → Except ContextError (List Staged)
  | [] => .ok []
  | (index, record) :: rest =>
    match record.largeBody with
    | some bytes =>
      if bytes.length > maxArtifactBytes then
        .error (.artifactTooLarge maxArtifactBytes bytes.length)
      else
        (stage (lastId + 1) rest).map fun staged =>
          ⟨index, { record with body := .artifact ⟨artifactName (lastId + 1)⟩ }, some bytes⟩ ::
            staged
    | none => (stage lastId rest).map fun staged => ⟨index, record, none⟩ :: staged

/-! ## Greedy inclusion -/

/-- The sort key `(Reverse(effective_priority), position)` as an order. -/
def slotBefore (a b : Staged × Nat) : Prop :=
  (effectivePriority b.1.record).rank < (effectivePriority a.1.record).rank ∨
    (effectivePriority b.1.record).rank = (effectivePriority a.1.record).rank ∧ a.2 ≤ b.2

instance : DecidableRel slotBefore := fun _ _ => inferInstanceAs (Decidable (_ ∨ _ ∧ _))

def selectionOrder (staged : List Staged) : List (Staged × Nat) :=
  staged.zipIdx.insertionSort slotBefore

/-- The state of the greedy loop; `included` lists the marked positions. -/
structure Selection where
  included : List Nat
  used : Nat
  omittedIds : List String
  truncatedBytes : Nat
  truncatedProviders : List String

def greedyStep (budget : Nat) (acc : Selection) (slot : Staged × Nat) : Selection :=
  let need := slot.1.record.footprintBytes
  if acc.used + need ≤ budget then
    { acc with included := acc.included ++ [slot.2], used := acc.used + need }
  else
    { acc with
      omittedIds := acc.omittedIds ++ [slot.1.record.id]
      truncatedBytes := acc.truncatedBytes + need
      truncatedProviders :=
        if slot.1.record.provider ∈ acc.truncatedProviders then acc.truncatedProviders
        else acc.truncatedProviders ++ [slot.1.record.provider] }

def greedy (budget : Nat) (order : List (Staged × Nat)) : Selection :=
  order.foldl (greedyStep budget) ⟨[], 0, [], 0, []⟩

/-! ## Commit -/

def includedPending (included : List Nat) (slots : List (Staged × Nat)) : List (List UInt8) :=
  slots.filterMap fun slot => if slot.2 ∈ included then slot.1.pending else none

/-- Phase 2: pending bodies of included slots move to the store in slot order and
the record takes the reference the store assigned. -/
def commit (generation : Nat) (included : List Nat) : List (Staged × Nat) → ArtifactStore →
      Except ContextError (List (Staged × Nat) × Nat) × ArtifactStore
  | [], store => (.ok ([], 0), store)
  | slot :: rest, store =>
    match (if slot.2 ∈ included then slot.1.pending else none) with
    | some bytes =>
      match store.store bytes generation with
      | (.error e, store') => (.error e, store')
      | (.ok reference, store') =>
        let committed : Staged :=
          { slot.1 with record := { slot.1.record with body := .artifact reference }
                        pending := none }
        match commit generation included rest store' with
        | (.error e, store'') => (.error e, store'')
        | (.ok (slots, count), store'') => (.ok ((committed, slot.2) :: slots, count + 1), store'')
    | none =>
      match commit generation included rest store with
      | (.error e, store') => (.error e, store')
      | (.ok (slots, count), store') => (.ok (slot :: slots, count), store')

def selectedRecords (included : List Nat) (slots : List (Staged × Nat)) : List Slot :=
  ((slots.filter fun slot => slot.2 ∈ included).map fun slot =>
    (slot.1.index, slot.1.record)).insertionSort fun a b => a.1 ≤ b.1

def ContextRecord.assembled (record : ContextRecord) : AssembledRecord where
  id := record.id
  provider := record.provider
  summary := record.summary
  content := match record.body with
    | .inline bytes => .inline bytes
    | .artifact reference => .reference reference
  isUntrustedSurface := record.isUntrustedSurface

/-! ## Assembly -/

def assembleStaged (store : ArtifactStore) (request : ContextRequest) (prunedIds : List String)
    (staged : List Staged) : Except ContextError AssembledContext × ArtifactStore :=
  let budget := request.effectiveBudgetBytes
  let selection := greedy budget (selectionOrder staged)
  let pending := includedPending selection.included staged.zipIdx
  if !staged.isEmpty && selection.included.isEmpty then
    (.error (.budgetExceeded budget ((staged.map (·.record.footprintBytes)).min?.getD 0)), store)
  else if store.len + pending.length > maxArtifacts then
    (.error (.artifactStoreFull s!"at most {maxArtifacts} artifacts"), store)
  else if store.totalBytes + (pending.map List.length).sum > maxArtifactStoreBytes then
    (.error (.artifactStoreFull s!"at most {maxArtifactStoreBytes} retained bytes"), store)
  else
    match commit request.currentGeneration selection.included staged.zipIdx store with
    | (.error e, store') => (.error e, store')
    | (.ok (slots, count), store') =>
      let selected := selectedRecords selection.included slots
      (.ok
        { records := selected.map fun slot => slot.2.assembled
          contextRefs := selected.map fun slot => slot.2.id
          omittedIds := selection.omittedIds
          prunedIds := prunedIds
          externalized := count
          truncatedBytes := selection.truncatedBytes
          truncatedTokensEstimate := estimateTokens selection.truncatedBytes
          truncatedProviders := selection.truncatedProviders
          budgetBytes := budget }, store')

def assemble (records : List ContextRecord) (store : ArtifactStore) (request : ContextRequest) :
    Except ContextError AssembledContext × ArtifactStore :=
  match checkRecords records request.currentGeneration with
  | .error e => (.error e, store)
  | .ok () =>
    match stage store.nextId (dedupe records).slots with
    | .error e => (.error e, store)
    | .ok staged => assembleStaged store request (dedupe records).prunedIds staged

end BittyAi.Runtime
