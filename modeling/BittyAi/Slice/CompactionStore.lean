/-
BittyAi.Slice.CompactionStore — the durable compaction store of
`bitty-ai-slice/src/compaction_store.rs`: a compressed view is recorded, tombstones are
added, and the view is loaded again.

The column `records_json` is kept as its text and the records it decodes to, the columns
`source_ids_json` and `retention_tags_json` as what they decode to. Database statements
succeed; the counters of the driver, which no view depends on, are left out.
-/
import BittyAi.Lib.JsonText
import BittyAi.Lib.KeyedTable
import BittyAi.Lib.Worklist
import BittyAi.Runtime.Compression
import BittyAi.Session.ContentHash

namespace BittyAi.Slice

open Lib Exiting BittyAi.Runtime

def maxStoredTombstones : Nat := 4096
def maxTombstoneIdLen : Nat := 128
def maxRecordsJsonBytes : Nat := 8 * 1024 * 1024

/-- Rust `DurabilityError`, without the failures of the database and of opening it. -/
inductive DurabilityError where
  | corrupt (detail : String)
  | staleGeneration (expected found : Nat)
  | storage (detail : String)

/-! ## Tables -/

structure SpanRow where
  spanId : String
  sourceIds : List String
  summary : String
  retention : String
  sourceDeadlineMs : Nat
  createdAtMs : Nat
  isUntrusted : Bool

structure RecordsImage where
  json : String
  records : List ContextRecord

/-- The tables of the store; the columns of `compaction_meta` that a view depends on. -/
structure CompactionStore where
  spans : KeyedTable SpanRow.spanId
  tombstones : KeyedTable (fun id : String => id)
  recordsJson : Option RecordsImage
  retentionTagsJson : Option (List (String × String))
  generation : Option Nat

def CompactionStore.openInMemory : CompactionStore where
  spans := ⟨[], List.nodup_nil⟩
  tombstones := ⟨[], List.nodup_nil⟩
  recordsJson := none
  retentionTagsJson := none
  generation := none

/-! ## Columns -/

def retentionToStr : RetentionClass → String
  | .pinned => "Pinned"
  | .recent => "Recent"
  | .normal => "Normal"
  | .ephemeral => "Ephemeral"

def retentionFromStr (text : String) : Except DurabilityError RetentionClass :=
  if text = "Pinned" then .ok .pinned
  else if text = "Recent" then .ok .recent
  else if text = "Normal" then .ok .normal
  else if text = "Ephemeral" then .ok .ephemeral
  else .error (.corrupt s!"unknown retention class '{text}'")

def priorityToStr : ContextPriority → String
  | .low => "Low"
  | .normal => "Normal"
  | .high => "High"
  | .critical => "Critical"

def recordJson (record : ContextRecord) (bytes : List UInt8) : String :=
  jsonMembers
    [("body", jsonMembers
        [("hex", jsonString (String.ofList (bytes.flatMap Session.hexByte))),
          ("type", jsonString "inline")]),
      ("collected_at_ms", toString record.collectedAtMs),
      ("generation", toString record.generation),
      ("id", jsonString record.id),
      ("is_untrusted_surface", if record.isUntrustedSurface then "true" else "false"),
      ("owner", jsonString record.owner.text),
      ("priority", jsonString (priorityToStr record.priority)),
      ("provider", jsonString record.provider),
      ("summary", jsonString record.summary),
      ("supersedes", (record.supersedes.map jsonString).getD "null")]

def recordTexts : List ContextRecord → Except DurabilityError (List String)
  | [] => .ok []
  | record :: rest =>
    match record.body with
    | .inline bytes => do
      let texts ← recordTexts rest
      return recordJson record bytes :: texts
    | .artifact reference =>
      .error (.storage s!"record {record.id} has an artifact body ({reference.text}); durable compaction stores inline bodies only")

def serializeRecords (records : List ContextRecord) : Except DurabilityError RecordsImage := do
  let texts ← recordTexts records
  return ⟨jsonArray texts, records⟩

def deserializeRecords (image : RecordsImage) : Except DurabilityError (List ContextRecord) := do
  (validateAll image.records).mapError fun e => .corrupt s!"stored record invalid: {e.display}"
  return image.records

def taggedIds (view : CompressedView) : List String :=
  fresh [] (view.records.map (·.id) ++ view.spans.flatMap (·.sourceIds) ++ view.tombstones)

/-- An id that is `Normal` is left out. -/
def serializeTags (view : CompressedView) : List (String × String) :=
  (((taggedIds view).filter fun id => view.tags.get id ≠ .normal).insertionSort (· ≤ ·)).map
    fun id => (id, retentionToStr (view.tags.get id))

/-! ## Recording a view -/

abbrev CompactionOp (α : Type) : Type := Exiting CompactionStore DurabilityError α

def idOutOfBound (id : String) : Bool := id.isEmpty || id.utf8ByteSize > maxTombstoneIdLen

/-- The checks of `record_view` on a span. -/
def checkSpan (span : CompressedSpan) : Except DurabilityError Unit := do
  refuseIf (span.spanId.utf8ByteSize > maxSpanIdLen ∨ span.spanId.isEmpty)
    (.corrupt s!"span id {debugString span.spanId} violates length bound")
  refuseIf (span.summary.utf8ByteSize > maxSummaryBytes)
    (.storage s!"span {span.spanId} summary {span.summary.utf8ByteSize} bytes exceeds {maxSummaryBytes} byte limit")
  refuseIf (span.sourceIds.length > maxContextRecords)
    (.storage s!"span {span.spanId} source count {span.sourceIds.length} exceeds limit {maxContextRecords}")
  refuseIf (span.sourceIds.any idOutOfBound)
    (.corrupt s!"span {span.spanId} source id violates length bound")

def checkSpans : List CompressedSpan → Except DurabilityError Unit
  | [] => .ok ()
  | span :: rest => do
    checkSpan span
    checkSpans rest

/-- The checks of `record_view` on the view alone. -/
def checkView (view : CompressedView) : Except DurabilityError Unit := do
  refuseIf (view.spans.length > maxSpans)
    (.storage s!"compressed span count {view.spans.length} exceeds limit {maxSpans}")
  refuseIf (view.tombstones.length > maxStoredTombstones)
    (.storage s!"tombstone count {view.tombstones.length} exceeds limit {maxStoredTombstones}")
  checkSpans view.spans
  refuseIf (view.tombstones.any idOutOfBound) (.storage "tombstone id violates bound")

def liveRecords (view : CompressedView) : List ContextRecord :=
  view.records.filter fun record => record.id ∉ view.tombstones

def viewGeneration (records : List ContextRecord) : Nat := (records.map (·.generation)).max?.getD 0

def checkFence (records : List ContextRecord) : Option Nat → Except DurabilityError Unit
  | none => .ok ()
  | some stored =>
    refuseIf (stored ≠ viewGeneration records ∧ records ≠ [])
      (.staleGeneration stored (viewGeneration records))

def CompressedSpan.toRow (span : CompressedSpan) : SpanRow where
  spanId := span.spanId
  sourceIds := span.sourceIds
  summary := span.summary
  retention := retentionToStr span.retention
  sourceDeadlineMs := span.sourceDeadlineMs
  createdAtMs := span.createdAtMs
  isUntrusted := span.isUntrustedSurface

namespace CompactionStore

/-- `DELETE FROM compaction_spans`, then an `INSERT OR REPLACE` for each span. -/
def replaceSpans (spans : List CompressedSpan) (store : CompactionStore) : CompactionStore :=
  { store with
    spans := spans.foldl (fun table span => table.upsert (CompressedSpan.toRow span))
      ⟨[], List.nodup_nil⟩ }

/-- An `INSERT OR IGNORE INTO compaction_tombstones` for each id. -/
def mergeTombstones (ids : List String) (store : CompactionStore) : CompactionStore :=
  { store with tombstones := ids.foldl KeyedTable.insertOrIgnore store.tombstones }

end CompactionStore

def checkMerged : CompactionOp Unit := do
  let merged ← read fun store => store.tombstones.rows.length
  refuse (merged > maxStoredTombstones)
    (.storage s!"merged tombstone count {merged} exceeds limit {maxStoredTombstones}")

def recordView (view : CompressedView) : CompactionOp Unit := do
  attempt fun _ => checkView view
  let live := liveRecords view
  refuse (live.length > maxContextRecords)
    (.storage s!"record count {live.length} exceeds limit {maxContextRecords}")
  attempt fun store => checkFence live store.generation
  let image ← attempt fun _ => serializeRecords live
  transaction do
    modify (CompactionStore.replaceSpans view.spans)
    modify (CompactionStore.mergeTombstones view.tombstones)
    checkMerged
    modify fun store =>
      { store with
        recordsJson := some image
        retentionTagsJson := some (serializeTags { view with records := live })
        generation := if live.isEmpty then store.generation else some (viewGeneration live) }

/-! ## Adding tombstones -/

def SpanRow.doomed (tombstones : List String) (row : SpanRow) : Bool :=
  row.spanId ∈ tombstones || row.sourceIds.any (· ∈ tombstones)

/-- The stored records without those that have a tombstone; an image that loses none is
left alone. -/
def stripImage (tombstones : List String) (image : RecordsImage) :
    Except DurabilityError RecordsImage := do
  let records ← deserializeRecords image
  let kept := records.filter fun record => record.id ∉ tombstones
  if kept.length ≠ records.length then serializeRecords kept else return image

/-- The column `records_json` without the records that have a tombstone. -/
def stripRecords (tombstones : List String) :
    Option RecordsImage → Except DurabilityError (Option RecordsImage)
  | none => .ok none
  | some image => some <$> stripImage tombstones image

def addTombstones (ids : List String) : CompactionOp Unit :=
  if ids.isEmpty then pure ()
  else transaction do
    refuse (ids.any idOutOfBound) (.storage "tombstone id violates bound")
    modify (CompactionStore.mergeTombstones ids)
    checkMerged
    let recordsJson ← attempt fun store => stripRecords store.tombstones.rows store.recordsJson
    modify fun store =>
      { store with
        recordsJson
        spans := store.spans.filter fun row => !row.doomed store.tombstones.rows }

/-! ## Loading the view -/

def loadSpan (row : SpanRow) : Except DurabilityError CompressedSpan := do
  refuseIf (row.spanId.isEmpty ∨ row.spanId.utf8ByteSize > maxSpanIdLen)
    (.corrupt "stored span id violates bound")
  refuseIf (row.summary.utf8ByteSize > maxSummaryBytes)
    (.corrupt "stored span summary exceeds bound")
  refuseIf ((jsonArray (row.sourceIds.map jsonString)).utf8ByteSize > maxRecordsJsonBytes)
    (.corrupt "stored source_ids_json exceeds bound")
  refuseIf (row.sourceIds.length > maxContextRecords)
    (.corrupt "stored span source count exceeds bound")
  refuseIf (row.sourceIds.any idOutOfBound) (.corrupt "stored span source id violates bound")
  let retention ← retentionFromStr row.retention
  return { spanId := row.spanId, sourceIds := row.sourceIds, summary := row.summary
           isUntrustedSurface := row.isUntrusted, retention
           sourceDeadlineMs := row.sourceDeadlineMs, createdAtMs := row.createdAtMs }

def loadSpans : List SpanRow → Except DurabilityError (List CompressedSpan)
  | [] => .ok []
  | row :: rows => do
    let span ← loadSpan row
    let spans ← loadSpans rows
    return span :: spans

def loadRecordsInner : Option RecordsImage → Except DurabilityError (List ContextRecord)
  | none => .ok []
  | some image => do
    refuseIf (image.json.length > maxRecordsJsonBytes)
      (.corrupt s!"stored records_json {image.json.length} bytes exceeds limit {maxRecordsJsonBytes}")
    let records ← deserializeRecords image
    refuseIf (records.length > maxContextRecords)
      (.corrupt s!"stored record count {records.length} exceeds limit {maxContextRecords}")
    return records

def setTags (tags : RetentionTags) : List (String × String) → Except DurabilityError RetentionTags
  | [] => .ok tags
  | (id, text) :: rest => do
    let cls ← retentionFromStr text
    setTags (tags.set id cls) rest

def loadTagsInner (map : Option (List (String × String))) : Except DurabilityError RetentionTags :=
  setTags ⟨[]⟩ (map.getD [])

def loadView (store : CompactionStore) : Except DurabilityError CompressedView := do
  let spanRows := store.spans.rows.length
  refuseIf (spanRows > maxSpans)
    (.corrupt s!"stored span count {spanRows} exceeds limit {maxSpans}")
  let spans ← loadSpans (store.spans.rows.insertionSort (·.spanId ≤ ·.spanId))
  let tombstoneRows := store.tombstones.rows.length
  refuseIf (tombstoneRows > maxStoredTombstones)
    (.corrupt s!"stored tombstone count {tombstoneRows} exceeds limit {maxStoredTombstones}")
  let tombstones := store.tombstones.rows.insertionSort (· ≤ ·)
  refuseIf (tombstones.any idOutOfBound) (.corrupt "stored tombstone id violates bound")
  let records ← loadRecordsInner store.recordsJson
  let tags ← loadTagsInner store.retentionTagsJson
  return { records := records.filter fun record => record.id ∉ tombstones
           spans := spans.filter fun span => !span.hitBy tombstones
           tombstones
           tags }

end BittyAi.Slice
