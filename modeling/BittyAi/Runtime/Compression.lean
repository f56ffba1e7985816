/-
BittyAi.Runtime.Compression — selective compression of
`bitty-ai-runtime/src/compression.rs`: spans and their retention, the shared
compression core, deletion from a compressed view, and the selective driver.

A `Summarizer` is host code with a state of its own (`FakeSummarizer` counts its
calls). Every input it is given is kept with its answer in the `Seam`, in call
order; the source keeps no such list, it is what statements about the inputs of
a pass speak of.

Sizes and timestamps are natural numbers; the saturating sums of the source stay
far below `2^64`.
-/
import BittyAi.Lib.EarlyExit
import BittyAi.Runtime.Context

namespace BittyAi.Runtime

open Lib

/-! ## Bounds and errors -/

def maxSpans : Nat := 32
def maxSpanIdLen : Nat := 64
def minKeepRecords : Nat := 1

inductive CompressionError where
  | invalidConfig (reason : String)
  | invalidRange (reason : String)
  | duplicateId (id : String)
  | tooManySpans (limit : Nat)
  | summaryTooLarge (limit actual : Nat)
  | summarizerFailed (reason : String)
  | summaryUnavailable (spanId reason : String)
  | context (error : ContextError)
  deriving DecidableEq

def CompressionError.display : CompressionError → String
  | .invalidConfig reason => s!"invalid compression config: {reason}"
  | .invalidRange reason => s!"invalid compression range: {reason}"
  | .duplicateId id => s!"span id collides with source record: {id}"
  | .tooManySpans limit => s!"compressed span count exceeds limit {limit}"
  | .summaryTooLarge limit actual =>
    s!"compressed summary of {actual} bytes exceeds {limit} byte limit"
  | .summarizerFailed reason => s!"summarizer failed: {reason}"
  | .summaryUnavailable spanId reason => s!"compressed summary unavailable: {spanId} ({reason})"
  | .context error => s!"compression source invalid: {error.display}"

/-! ## Retention -/

inductive RetentionClass where
  | pinned
  | recent
  | normal
  | ephemeral
  deriving DecidableEq

def RetentionClass.restrictiveness : RetentionClass → Nat
  | .ephemeral => 3
  | .normal => 2
  | .recent => 1
  | .pinned => 0

def RetentionClass.mostRestrictive (a b : RetentionClass) : RetentionClass :=
  if b.restrictiveness > a.restrictiveness then b else a

structure RetentionTags where
  entries : List (String × RetentionClass)
  deriving DecidableEq

/-- An untagged record is `Normal`. -/
def RetentionTags.get (tags : RetentionTags) (id : String) : RetentionClass :=
  ((tags.entries.find? fun entry => entry.1 == id).map (·.2)).getD .normal

/-- The loop of `RetentionTags::set`: the first entry of the id is changed, else one is
pushed. -/
def setEntry (id : String) (cls : RetentionClass) :
    List (String × RetentionClass) → List (String × RetentionClass)
  | [] => [(id, cls)]
  | entry :: rest =>
    if entry.1 = id then (entry.1, cls) :: rest else entry :: setEntry id cls rest

def RetentionTags.set (tags : RetentionTags) (id : String) (cls : RetentionClass) : RetentionTags :=
  ⟨setEntry id cls tags.entries⟩

def inheritRetention (sourceIds : List String) (tags : RetentionTags) : RetentionClass :=
  match sourceIds with
  | [] => .normal
  | id :: rest => rest.foldl (fun acc next => acc.mostRestrictive (tags.get next)) (tags.get id)

/-! ## Spans and views -/

/-- Rust `SpanRange`, half open over record indices. -/
structure SpanRange where
  start : Nat
  stop : Nat
  deriving DecidableEq

def SpanRange.isEmpty (range : SpanRange) : Bool := range.stop ≤ range.start

def SpanRange.covered (range : SpanRange) (records : List ContextRecord) : List ContextRecord :=
  (records.drop range.start).take (range.stop - range.start)

structure SummarizeInput where
  spanId : String
  sourceIds : List String
  sourceSummaries : List String
  totalSourceBytes : Nat
  untrustedSources : Nat
  nowMs : Nat
  previousSummary : Option String

structure CompressedSpan where
  spanId : String
  sourceIds : List String
  summary : String
  isUntrustedSurface : Bool
  retention : RetentionClass
  sourceDeadlineMs : Nat
  createdAtMs : Nat
  deriving DecidableEq

structure CompressedView where
  records : List ContextRecord
  spans : List CompressedSpan
  tombstones : List String
  tags : RetentionTags
  deriving DecidableEq

def CompressedView.resolveSummary (view : CompressedView) (spanId : String) :
    Except CompressionError String :=
  match view.spans.find? fun span => span.spanId == spanId with
  | some span => .ok span.summary
  | none =>
    if spanId ∈ view.tombstones then .error (.summaryUnavailable spanId "deleted or expired")
    else .error (.summaryUnavailable spanId "unknown")

def addTombstone (tombstones : List String) (id : String) : List String :=
  if id ∈ tombstones then tombstones else tombstones ++ [id]

/-- Whether a deletion of `ids` hits a span: by one of its sources or by name. -/
def CompressedSpan.hitBy (span : CompressedSpan) (ids : List String) : Bool :=
  (span.sourceIds.any fun source => ids.contains source) || ids.contains span.spanId

def CompressedView.deleteIds (view : CompressedView) (ids : List String) :
    List String × CompressedView :=
  let invalidated := (view.spans.filter fun span => span.hitBy ids).map (·.spanId)
  (invalidated,
    { view with
      tombstones := ids.foldl addTombstone view.tombstones
      spans := view.spans.filter fun span => !span.hitBy ids
      records := view.records.filter fun record =>
        !(ids.contains record.id) && !(invalidated.contains record.id) })

/-! ## Breakpoints -/

structure CompressionConfig where
  maxSpanBytes : Nat
  maxSpanTokens : Option Nat

namespace CompressionConfig

def validate (config : CompressionConfig) : Except CompressionError Unit := do
  if config.maxSpanBytes = 0 then throw (.invalidConfig "max_span_bytes must be non-zero")
  if config.maxSpanTokens = some 0 then
    throw (.invalidConfig "max_span_tokens must be non-zero when set")

def effectiveSpanBytes (config : CompressionConfig) : Nat :=
  match config.maxSpanTokens with
  | some tokens => min config.maxSpanBytes (tokens * bytesPerTokenEstimate)
  | none => config.maxSpanBytes

end CompressionConfig

/-- The loop of `selectBreakpoints` from the record at `index` on, and the range behind it. -/
def packFrom (cap : Nat) (ranges : List SpanRange) (start used index : Nat) :
    List ContextRecord → Except CompressionError (List SpanRange)
  | [] =>
    let ranges := if start < index then ranges ++ [⟨start, index⟩] else ranges
    if maxSpans < ranges.length then .error (.tooManySpans maxSpans) else .ok ranges
  | record :: rest =>
    if 0 < used ∧ cap < used + record.footprintBytes then
      let ranges := ranges ++ [⟨start, index⟩]
      if maxSpans < ranges.length then .error (.tooManySpans maxSpans)
      else packFrom cap ranges index record.footprintBytes (index + 1) rest
    else packFrom cap ranges start (used + record.footprintBytes) (index + 1) rest

def selectBreakpoints (records : List ContextRecord) (config : CompressionConfig) :
    Except CompressionError (List SpanRange) := do
  config.validate
  packFrom config.effectiveSpanBytes [] 0 0 0 records

/-! ## The summarizer -/

abbrev Summarizer (E : Type) := E → SummarizeInput → Except CompressionError String × E

structure SummarizeCall where
  input : SummarizeInput
  answer : Except CompressionError String

structure Seam (E : Type) where
  env : E
  calls : List SummarizeCall

variable {E : Type}

abbrev Compressing (E α : Type) := Exiting (Seam E) CompressionError α

def summarize (summarizer : Summarizer E) (input : SummarizeInput) : Compressing E String :=
  fun seam =>
    let reply := summarizer seam.env input
    (reply.1, ⟨reply.2, seam.calls ++ [⟨input, reply.1⟩]⟩)

/-! ## The compression core -/

/-- `record.validate()?` over every record, then the span checks use these. -/
def liftContext : Except ContextError Unit → Except CompressionError Unit
  | .ok () => .ok ()
  | .error e => .error (.context e)

/-- The loop of Rust `validate_ranges`; `cursor` is the end of the last range. -/
def validateRangesFrom (recordCount cursor : Nat) : List SpanRange → Except CompressionError Unit
  | [] => .ok ()
  | range :: rest =>
    if range.isEmpty then .error (.invalidRange s!"empty range {range.start}..{range.stop}")
    else if range.stop > recordCount then
      .error (.invalidRange s!"range {range.start}..{range.stop} exceeds {recordCount} records")
    else if range.start < cursor then
      .error (.invalidRange s!"range {range.start}..{range.stop} overlaps or is unsorted")
    else validateRangesFrom recordCount range.stop rest

def validateRanges (recordCount : Nat) (ranges : List SpanRange) : Except CompressionError Unit :=
  if ranges.length > maxSpans then .error (.tooManySpans maxSpans)
  else validateRangesFrom recordCount 0 ranges

def checkGenerations (records : List ContextRecord) (ranges : List SpanRange) :
    Option Nat → Except ContextError Unit
  | none => .ok ()
  | some current => rejectStale current (ranges.flatMap fun range => range.covered records)

def checkCompression (records : List ContextRecord) (ranges : List SpanRange)
    (currentGeneration : Option Nat) : Except CompressionError Unit :=
  if records.length > maxContextRecords then .error (.context (.tooManyRecords maxContextRecords))
  else
    match liftContext (validateAll records) with
    | .error e => .error e
    | .ok () =>
      match validateRanges records.length ranges with
      | .error e => .error e
      | .ok () => liftContext (checkGenerations records ranges currentGeneration)

def spanId (spanIndex : Nat) : String := "cmp-" ++ zeroPadded 4 spanIndex

def spanInput (spanIndex : Nat) (covered : List ContextRecord) (nowMs : Nat)
    (previous : Option String) : SummarizeInput where
  spanId := spanId spanIndex
  sourceIds := covered.map (·.id)
  sourceSummaries := covered.map (·.summary)
  totalSourceBytes := (covered.map (·.footprintBytes)).sum
  untrustedSources := (covered.filter (·.isUntrustedSurface)).length
  nowMs := nowMs
  previousSummary := previous

def sourceEffectivePriority (record : ContextRecord) : ContextPriority :=
  if record.isUntrustedSurface then
    if record.priority.rank ≤ ContextPriority.normal.rank then record.priority else .normal
  else record.priority

def ContextPriority.lower (a b : ContextPriority) : ContextPriority :=
  if b.rank < a.rank then b else a

def spanPriority : List ContextRecord → ContextPriority
  | [] => .normal
  | first :: rest =>
    rest.foldl (fun acc record => acc.lower (sourceEffectivePriority record))
      (sourceEffectivePriority first)

def compressedSpan (tags : RetentionTags) (nowMs spanIndex : Nat) (covered : List ContextRecord)
    (summary : String) : CompressedSpan where
  spanId := spanId spanIndex
  sourceIds := covered.map (·.id)
  summary := summary
  isUntrustedSurface := (covered.filter (·.isUntrustedSurface)).length > 0
  retention := inheritRetention (covered.map (·.id)) tags
  sourceDeadlineMs := (covered.map (·.collectedAtMs)).min?.getD nowMs
  createdAtMs := nowMs

/-- The synthetic record pushed next to the span; `first` is `covered[0]`. -/
def syntheticRecord (nowMs spanIndex : Nat) (first : ContextRecord) (covered : List ContextRecord)
    (summary : String) : ContextRecord where
  id := spanId spanIndex
  provider := first.provider
  owner := first.owner
  generation := (covered.map (·.generation)).max?.getD 0
  collectedAtMs := nowMs
  priority := spanPriority covered
  summary := summary
  body := .inline []
  supersedes := none
  isUntrustedSurface := (covered.filter (·.isUntrustedSurface)).length > 0

inductive PreviousMode where
  | absent
  | chain (seed : Option String)

/-- `next_previous` before the first span. -/
def PreviousMode.start : PreviousMode → Option (Option String)
  | .absent => none
  | .chain seed => some seed

structure SpanLoop where
  spans : List CompressedSpan
  synthetic : List ContextRecord
  nextPrevious : Option (Option String)

def compressSpan (records : List ContextRecord) (summarizer : Summarizer E) (tags : RetentionTags)
    (nowMs : Nat) (acc : SpanLoop) (entry : SpanRange × Nat) : Compressing E SpanLoop := do
  let id := spanId entry.2
  if id.utf8ByteSize > maxSpanIdLen then Exiting.exit (.invalidConfig "span id exceeds bound")
  else if records.any (fun record => record.id == id) then Exiting.exit (.duplicateId id)
  else
    match entry.1.covered records with
    -- `covered[0]` of an empty range; `validate_ranges` has refused it
    | [] => pure acc
    | first :: rest =>
      let covered := first :: rest
      let summary ← summarize summarizer (spanInput entry.2 covered nowMs acc.nextPrevious.join)
      if trim summary = "" then
        Exiting.exit (.summarizerFailed s!"summarizer returned empty text for span {id}")
      else if summary.utf8ByteSize > maxSummaryBytes then
        Exiting.exit (.summaryTooLarge maxSummaryBytes summary.utf8ByteSize)
      else
        pure
          { spans := acc.spans ++ [compressedSpan tags nowMs entry.2 covered summary]
            synthetic := acc.synthetic ++ [syntheticRecord nowMs entry.2 first covered summary]
            nextPrevious := acc.nextPrevious.map fun _ => some summary }

/-- The splice loop. The jump of `index` over a range is a countdown `skip` over
the records it covers. -/
def splice : Nat → Nat → List ContextRecord → List SpanRange → List ContextRecord →
    List ContextRecord
  | _, _, [], _, _ => []
  | skip + 1, index, _ :: records, ranges, synthetic =>
    splice skip (index + 1) records ranges synthetic
  | 0, index, record :: records, range :: ranges, summary :: synthetic =>
    if index = range.start then
      summary :: splice (range.stop - range.start - 1) (index + 1) records ranges synthetic
    else record :: splice 0 (index + 1) records (range :: ranges) (summary :: synthetic)
  | 0, index, record :: records, ranges, synthetic =>
    record :: splice 0 (index + 1) records ranges synthetic

def compressRangesImpl (records : List ContextRecord) (ranges : List SpanRange)
    (summarizer : Summarizer E) (tags : RetentionTags) (nowMs : Nat)
    (currentGeneration : Option Nat) (previous : PreviousMode) : Compressing E CompressedView :=
  match checkCompression records ranges currentGeneration with
  | .error e => Exiting.exit e
  | .ok () => do
    let done ← Exiting.each (compressSpan records summarizer tags nowMs) ranges.zipIdx
      ⟨[], [], previous.start⟩
    pure
      { records := splice 0 0 records ranges done.synthetic
        spans := done.spans
        tombstones := []
        tags := tags }

/-! ## The selective driver -/

structure CompactionWindow where
  head : List Nat
  recent : List Nat

structure RecentLoop where
  recentDescending : List Nat
  keptBytes : Nat

def recentStep (keepRecentBytes : Nat) (protectedIds : List String) (acc : RecentLoop)
    (entry : ContextRecord × Nat) : RecentLoop :=
  let isProtected := protectedIds.contains entry.1.id
  let budgetMet :=
    decide (acc.recentDescending.length ≥ minKeepRecords) &&
      decide (acc.keptBytes ≥ keepRecentBytes)
  if !isProtected && budgetMet then acc
  else ⟨acc.recentDescending ++ [entry.2], acc.keptBytes + entry.1.footprintBytes⟩

/-- The head: the indices that are not in the ascending `recent` list. The second
argument is `recent` from the cursor on. -/
def headIndices : List Nat → List Nat → List Nat
  | [], _ => []
  | index :: rest, [] => index :: headIndices rest []
  | index :: rest, next :: recent =>
    if next = index then headIndices rest recent
    else index :: headIndices rest (next :: recent)

def checkWindow (records : List ContextRecord) (currentGeneration : Option Nat) :
    Except ContextError Unit :=
  if records.length > maxContextRecords then .error (.tooManyRecords maxContextRecords)
  else
    match validateAll records with
    | .error e => .error e
    | .ok () =>
      match rejectDuplicateIds [] records with
      | .error e => .error e
      | .ok () =>
        match currentGeneration with
        | none => .ok ()
        | some current => rejectStale current records

def selectCompactionWindow (records : List ContextRecord) (keepRecentBytes : Nat)
    (protectedIds : List String) (currentGeneration : Option Nat) :
    Except CompressionError CompactionWindow :=
  match liftContext (checkWindow records currentGeneration) with
  | .error e => .error e
  | .ok () =>
    let recent :=
      (records.zipIdx.reverse.foldl (recentStep keepRecentBytes protectedIds)
        ⟨[], 0⟩).recentDescending.reverse
    .ok ⟨headIndices (List.range records.length) recent, recent⟩

structure SelectiveCompactionConfig where
  windowBytes : Nat
  keepRecentBytes : Nat
  protectedIds : List String
  currentGeneration : Option Nat
  previousSummary : Option String

inductive CompactionOutcome where
  | compacted (spanCount : Nat) (view : CompressedView)
  | noOp
  | failed (reason : String)
  deriving DecidableEq

/-- The run grouping loop: `run` is the open run, the argument list the head
indices after it. -/
def groupRuns (run : SpanRange) : List Nat → List SpanRange
  | [] => [run]
  | index :: rest =>
    if index = run.stop then groupRuns { run with stop := run.stop + 1 } rest
    else run :: groupRuns ⟨index, index + 1⟩ rest

def contiguousRuns : List Nat → List SpanRange
  | [] => []
  | index :: rest => groupRuns ⟨index, index + 1⟩ rest

/-- The refusals of `compact_selective` between the selection and the
compression: an over-bound seed, then a head that cannot fit. -/
def compactionRefusal (records : List ContextRecord) (config : SelectiveCompactionConfig)
    (head : List Nat) : Option String :=
  let headBytes := (head.map fun index => (records[index]?.map (·.footprintBytes)).getD 0).sum
  let doomed :=
    if headBytes + maxSummaryBytes > config.windowBytes then
      some s!"compaction doomed: head {headBytes} bytes plus {maxSummaryBytes} byte summary bound exceeds {config.windowBytes} byte window"
    else none
  match config.previousSummary with
  | some previous =>
    if previous.utf8ByteSize > maxSummaryBytes then
      some (CompressionError.summaryTooLarge maxSummaryBytes previous.utf8ByteSize).display
    else doomed
  | none => doomed

def compactSelective (records : List ContextRecord) (config : SelectiveCompactionConfig)
    (summarizer : Summarizer E) (tags : RetentionTags) (nowMs : Nat) (env : E) :
    CompactionOutcome × Seam E :=
  let seam : Seam E := ⟨env, []⟩
  match selectCompactionWindow records config.keepRecentBytes config.protectedIds
      config.currentGeneration with
  | .error e => (.failed e.display, seam)
  | .ok window =>
    if window.head.isEmpty then (.noOp, seam)
    else
      match compactionRefusal records config window.head with
      | some reason => (.failed reason, seam)
      | none =>
        match compressRangesImpl records (contiguousRuns window.head) summarizer tags nowMs
            config.currentGeneration (.chain config.previousSummary) seam with
        | (.ok view, seam') => (.compacted view.spans.length view, seam')
        | (.error e, seam') => (.failed e.display, seam')

end BittyAi.Runtime
