/-
BittyAi.Runtime.CompactionChainTheorems — selective passes one after the other.

A pass of a chain takes the records of the last view that was compacted, with new records
appended. Every pass numbers its spans from `cmp-0000`, and the summary that an earlier pass
left under that id is among the records.
-/
import BittyAi.Runtime.CompressionFlowTheorems

namespace BittyAi.Runtime

open Lib SpanStep CompressionError
open List hiding span

/-! ## The text of a collision -/

theorem take_toList_append {start rest : String} {a b : Char}
    (h : start.toList.take 2 = [a, b]) : (start ++ rest).toList.take 2 = [a, b] := by
  have hlength : 2 ≤ start.toList.length := by
    have htake := congrArg length h
    simp only [length_take, length_cons, length_nil] at htake
    omega
  rw [String.toList_append, take_append_of_le_length hlength, h]

variable {id : String}

theorem ne_display_duplicateId {text : String} {a b : Char}
    (h : text.toList.take 2 = [a, b]) (hne : [a, b] ≠ ['s', 'p']) :
    text ≠ (duplicateId id).display := by
  have hspan : "span id collides with source record: ".toList.take 2 = ['s', 'p'] := by
    decide +kernel
  have hletters : (duplicateId id).display.toList.take 2 = ['s', 'p'] := take_toList_append hspan
  rintro rfl
  exact hne (h.symm.trans hletters)

theorem display_ne_duplicateId {e : CompressionError} (h : ∀ id, e ≠ .duplicateId id)
    (id : String) : e.display ≠ (duplicateId id).display := by
  cases e with
  | duplicateId other => exact absurd rfl (h other)
  | invalidConfig | invalidRange =>
    refine @ne_display_duplicateId _ _ 'i' 'n' (take_toList_append ?_) (by decide)
    decide +kernel
  | tooManySpans | context =>
    refine @ne_display_duplicateId _ _ 'c' 'o' (take_toList_append ?_) (by decide)
    decide +kernel
  | summaryTooLarge | summaryUnavailable =>
    refine @ne_display_duplicateId _ _ 'c' 'o' (take_toList_append (take_toList_append
      (take_toList_append (take_toList_append ?_)))) (by decide)
    decide +kernel
  | summarizerFailed =>
    refine @ne_display_duplicateId _ _ 's' 'u' (take_toList_append ?_) (by decide)
    decide +kernel

variable {records : List ContextRecord} {ranges : List SpanRange}

theorem compactionRefusal_ne_duplicateId
    {config : SelectiveCompactionConfig} {head : List Nat} {reason : String}
    (h : compactionRefusal records config head = some reason) (id : String) :
    reason ≠ (duplicateId id).display := by
  have hdoomed : ∀ headBytes : Nat, s!"compaction doomed: head {headBytes} bytes plus {maxSummaryBytes} byte summary bound exceeds {config.windowBytes} byte window" ≠
      (duplicateId id).display := by
    intro headBytes
    have hletters : "compaction doomed: head ".toList.take 2 = ['c', 'o'] := by decide +kernel
    exact ne_display_duplicateId (take_toList_append (take_toList_append (take_toList_append
      (take_toList_append (take_toList_append (take_toList_append hletters)))))) (by decide)
  unfold compactionRefusal at h
  dsimp only at h
  split at h
  · split at h
    · cases h
      exact display_ne_duplicateId (by simp) id
    · split at h
      · cases h
        exact hdoomed _
      · cases h
  · split at h
    · cases h
      exact hdoomed _
    · cases h

/-! ## One pass -/

structure Summarizes (records : List ContextRecord) (config : SelectiveCompactionConfig) :
    Prop where
  window : checkWindow records config.currentGeneration = .ok ()
  head : headOf records config ≠ []
  refusal : compactionRefusal records config (headOf records config) = none
  ranges : checkCompression records (headRuns records config) config.currentGeneration = .ok ()

instance (records : List ContextRecord) (config : SelectiveCompactionConfig) :
    Decidable (Summarizes records config) :=
  decidable_of_iff
    (checkWindow records config.currentGeneration = .ok () ∧ headOf records config ≠ [] ∧
      compactionRefusal records config (headOf records config) = none ∧
      checkCompression records (headRuns records config) config.currentGeneration = .ok ())
    ⟨fun ⟨window, head, refusal, ranges⟩ => ⟨window, head, refusal, ranges⟩,
      fun ⟨window, head, refusal, ranges⟩ => ⟨window, head, refusal, ranges⟩⟩

theorem groupRuns_ne_nil (run : SpanRange) (indices : List Nat) : groupRuns run indices ≠ [] := by
  induction indices generalizing run with
  | nil => simp [groupRuns]
  | cons index rest ih =>
    rw [groupRuns]
    split
    · exact ih _
    · simp

theorem contiguousRuns_ne_nil {head : List Nat} (h : head ≠ []) : contiguousRuns head ≠ [] := by
  obtain ⟨index, rest, rfl⟩ := exists_cons_of_ne_nil h
  exact groupRuns_ne_nil _ _

theorem validateRangesFrom_ne_duplicateId {count cursor : Nat} :
    validateRangesFrom count cursor ranges ≠ .error (.duplicateId id) := by
  induction ranges generalizing cursor with
  | nil => simp [validateRangesFrom]
  | cons range rest ih =>
    rw [validateRangesFrom]
    split
    · simp
    · split
      · simp
      · split
        · simp
        · exact ih

theorem checkCompression_ne_duplicateId
    {generation : Option Nat}
    (h : checkCompression records ranges generation = .error (.duplicateId id)) : False := by
  unfold checkCompression at h
  split at h
  · cases h
  · split at h
    · rename_i hvalid
      cases h
      unfold liftContext at hvalid
      split at hvalid <;> cases hvalid
    · split at h
      · rename_i hranges
        cases h
        unfold validateRanges at hranges
        split at hranges
        · cases hranges
        · exact validateRangesFrom_ne_duplicateId hranges
      · unfold liftContext at h
        split at h <;> cases h

variable {view : CompressedView} {span : CompressedSpan} {record : ContextRecord}

section Pass

variable {E : Type} {records : List ContextRecord} {config : SelectiveCompactionConfig}
  {summarizer : Summarizer E} {tags : RetentionTags} {nowMs : Nat} {env : E}

theorem compactSelective_of_summarizes (h : Summarizes records config) :
    compactSelective records config summarizer tags nowMs env =
      match compressRangesImpl records (headRuns records config) summarizer tags nowMs
          config.currentGeneration (.chain config.previousSummary) ⟨env, []⟩ with
      | (.ok view, seam) => (.compacted view.spans.length view, seam)
      | (.error e, seam) => (.failed e.display, seam) := by
  obtain ⟨window, hwindow⟩ : ∃ window, selectCompactionWindow records config.keepRecentBytes
      config.protectedIds config.currentGeneration = .ok window := by
    simp [selectCompactionWindow, h.window, liftContext]
  obtain ⟨-, hhead, -⟩ := selectCompactionWindow_ok hwindow
  cases hpass : compressRangesImpl records (headRuns records config) summarizer tags nowMs
      config.currentGeneration (.chain config.previousSummary) ⟨env, []⟩ with
  | mk result seam =>
    rw [headRuns] at hpass
    cases result <;>
      simp only [compactSelective, hwindow, hhead, h.refusal, List.isEmpty_iff, h.head, if_false,
        hpass]

theorem compactSelective_of_not_summarizes (h : ¬Summarizes records config) :
    (compactSelective records config summarizer tags nowMs env).1 = .noOp ∨
      ∃ reason, (compactSelective records config summarizer tags nowMs env).1 = .failed reason ∧
        ∀ id, reason ≠ (duplicateId id).display := by
  unfold compactSelective
  dsimp only
  cases hwindow : selectCompactionWindow records config.keepRecentBytes config.protectedIds
      config.currentGeneration with
  | error e =>
    refine .inr ⟨_, rfl, display_ne_duplicateId ?_⟩
    rintro id rfl
    unfold selectCompactionWindow liftContext at hwindow
    cases hcheck : checkWindow records config.currentGeneration <;> simp [hcheck] at hwindow
  | ok window =>
    obtain ⟨hchecked, hhead, -⟩ := selectCompactionWindow_ok hwindow
    dsimp only
    rw [hhead]
    split
    · exact .inl rfl
    · rename_i hne
      cases hrefusal : compactionRefusal records config (headOf records config) with
      | some reason => exact .inr ⟨reason, rfl, compactionRefusal_ne_duplicateId hrefusal⟩
      | none =>
        cases hcheck : checkCompression records (headRuns records config)
            config.currentGeneration with
        | ok _ => exact absurd ⟨hchecked, by simpa using hne, hrefusal, hcheck⟩ h
        | error e =>
          have hrun : compressRangesImpl records (contiguousRuns (headOf records config))
              summarizer tags nowMs config.currentGeneration (.chain config.previousSummary)
              ⟨env, []⟩ = (.error e, ⟨env, []⟩) := by
            rw [compressRangesImpl, ← headRuns, hcheck]
            rfl
          simp only [hrun]
          refine .inr ⟨_, rfl, display_ne_duplicateId ?_⟩
          rintro id rfl
          exact checkCompression_ne_duplicateId hcheck

theorem compactSelective_collides (h : Summarizes records config)
    (hrecord : ∃ record ∈ records, record.id = spanId 0) :
    (compactSelective records config summarizer tags nowMs env).1 =
      .failed (duplicateId (spanId 0)).display := by
  have hloop : Exiting.wp (compressRangesImpl records (headRuns records config) summarizer tags
      nowMs config.currentGeneration (.chain config.previousSummary)) (fun _ _ => False)
      (fun e _ => e = .duplicateId (spanId 0)) ⟨env, []⟩ := by
    obtain ⟨range, ranges, hranges⟩ := exists_cons_of_ne_nil (contiguousRuns_ne_nil h.head)
    rw [compressRangesImpl, h.ranges, headRuns, hranges, zipIdx_cons]
    dsimp only
    rw [Exiting.wp_bind, Exiting.each, Exiting.wp_bind, compressSpan]
    have hbound : ¬(spanId 0).utf8ByteSize > maxSpanIdLen := by decide +kernel
    have hany : (records.any fun record => record.id == spanId 0) = true := by simpa using hrecord
    simp only [hbound, if_false, hany, if_true]
    exact Exiting.wp_exit.mpr rfl
  obtain ⟨e, seam, hrun, rfl⟩ := Exiting.wp_exits hloop
  rw [compactSelective_of_summarizes h, hrun]

theorem compactSelective_first {spanCount : Nat}
    (h : (compactSelective records config summarizer tags nowMs env).1 =
      .compacted spanCount view) :
    Summarizes records config ∧ (∃ record ∈ view.records, record.id = spanId 0) ∧
      ∃ span ∈ view.spans, span.spanId = spanId 0 := by
  have hsummarizes : Summarizes records config := by
    by_contra hnot
    rcases compactSelective_of_not_summarizes hnot with hnoOp | ⟨reason, hfailed, -⟩
    · rw [h] at hnoOp
      cases hnoOp
    · rw [h] at hfailed
      cases hfailed
  obtain ⟨-, steps, hpassed⟩ := compactSelective_compacted (Prod.ext h rfl)
  obtain ⟨range, ranges, hranges⟩ := exists_cons_of_ne_nil (contiguousRuns_ne_nil hsummarizes.head)
  have hfirst : (headRuns records config)[0]? = some range := by
    rw [headRuns, hranges]
    rfl
  obtain ⟨step, hstep, -⟩ := hpassed.exists_step hfirst
  obtain ⟨hmem, hid⟩ := (hpassed.mem_records_id_iff hstep (step.synthetic nowMs)).mpr rfl
  refine ⟨hsummarizes, ⟨_, hmem, hid⟩, step.span tags nowMs, ?_, hid⟩
  rw [hpassed.spans_eq]
  exact mem_map_of_mem (mem_of_getElem? hstep)

structure Inherits (tags : RetentionTags) (span : CompressedSpan) (record : ContextRecord) :
    Prop where
  deadline : span.sourceDeadlineMs ≤ record.collectedAtMs
  retention : (tags.get record.id).restrictiveness ≤ span.retention.restrictiveness

theorem inherits_of_source {spanCount : Nat}
    (h : (compactSelective records config summarizer tags nowMs env).1 = .compacted spanCount view)
    (hspan : span ∈ view.spans) (hrecord : record ∈ records)
    (hsource : record.id ∈ span.sourceIds) : Inherits tags span record := by
  obtain ⟨hnodup, steps, hpassed⟩ := compactSelective_compacted (Prod.ext h rfl)
  rw [hpassed.spans_eq] at hspan
  obtain ⟨step, hstep, rfl⟩ := mem_map.mp hspan
  obtain ⟨k, hk⟩ := getElem?_of_mem hstep
  obtain ⟨-, range, -, hcovered⟩ := hpassed.step_at hk
  obtain ⟨source, hmem, hid⟩ := mem_map.mp hsource
  have hsame : source = record := by
    have hsourceMem : source ∈ records := by
      have hmem' : source ∈ range.covered records := hcovered ▸ hmem
      exact mem_of_mem_drop (mem_of_mem_take hmem')
    exact inj_on_of_nodup_map hnodup hsourceMem hrecord hid
  subst hsame
  refine ⟨(@sourceDeadline_le_iff _ nowMs _ (cons_ne_nil _ _)).mpr
    ⟨source, hmem, Nat.le_refl _⟩, ?_⟩
  exact (le_inheritRetention_iff (cons_ne_nil _ _)).mpr
    ⟨source.id, mem_map_of_mem hmem, Nat.le_refl _⟩

end Pass

/-! ## Chains -/

structure ChainPass (E : Type) where
  appended : List ContextRecord
  config : SelectiveCompactionConfig
  summarizer : Summarizer E
  nowMs : Nat
  env : E

section Chain

variable {E : Type}

def ChainPass.outcome (tags : RetentionTags) (records : List ContextRecord) (pass : ChainPass E) :
    CompactionOutcome :=
  (compactSelective (records ++ pass.appended) pass.config pass.summarizer tags pass.nowMs
    pass.env).1

def CompactionOutcome.view? : CompactionOutcome → Option CompressedView
  | .compacted _ view => some view
  | .noOp => none
  | .failed _ => none

def chainRecords (tags : RetentionTags) (records : List ContextRecord) :
    List (ChainPass E) → List ContextRecord
  | [] => records
  | pass :: passes =>
    chainRecords tags (((pass.outcome tags records).view?.map (·.records)).getD records) passes

def chainSpans (tags : RetentionTags) (records : List ContextRecord) :
    List (ChainPass E) → List CompressedSpan
  | [] => []
  | pass :: passes =>
    ((pass.outcome tags records).view?.map (·.spans)).getD [] ++
      chainSpans tags (((pass.outcome tags records).view?.map (·.records)).getD records) passes

/-- `Covers tags records passes record n span`: the span that pass `n` produced covers the
record, as a source or through the summary of a span of an earlier pass. -/
inductive Covers (tags : RetentionTags) (records : List ContextRecord)
    (passes : List (ChainPass E)) (record : ContextRecord) : Nat → CompressedSpan → Prop
  | source {earlier later : List (ChainPass E)} {pass : ChainPass E} {view : CompressedView}
      {span : CompressedSpan} (hpasses : passes = earlier ++ pass :: later)
      (hview : (pass.outcome tags (chainRecords tags records earlier)).view? = some view)
      (hspan : span ∈ view.spans)
      (hrecord : record ∈ chainRecords tags records earlier ++ pass.appended)
      (hsource : record.id ∈ span.sourceIds) :
      Covers tags records passes record earlier.length span
  | summary {n : Nat} {inner : CompressedSpan} {earlier later : List (ChainPass E)}
      {pass : ChainPass E} {view : CompressedView} {span : CompressedSpan}
      (hinner : Covers tags records passes record n inner) (hn : n < earlier.length)
      (hpasses : passes = earlier ++ pass :: later)
      (hview : (pass.outcome tags (chainRecords tags records earlier)).view? = some view)
      (hspan : span ∈ view.spans) (hsource : inner.spanId ∈ span.sourceIds) :
      Covers tags records passes record earlier.length span

def Collides (tags : RetentionTags) (records : List ContextRecord) (earlier : List (ChainPass E))
    (pass : ChainPass E) : Prop :=
  ∃ span ∈ chainSpans tags records earlier,
    pass.outcome tags (chainRecords tags records earlier) =
      .failed (duplicateId span.spanId).display

/-- What a chain is meant to satisfy: no pass collides with an earlier span, and each span that
covers one of the first records expires no later than it. -/
structure ChainHolds (tags : RetentionTags) (records : List ContextRecord)
    (passes : List (ChainPass E)) : Prop where
  free : ∀ earlier pass later, passes = earlier ++ pass :: later →
    ¬Collides tags records earlier pass
  inherits : ∀ record ∈ records, ∀ n span, Covers tags records passes record n span →
    Inherits tags span record

variable {tags : RetentionTags} {records : List ContextRecord} {passes : List (ChainPass E)}

theorem view?_eq_some {outcome : CompactionOutcome} :
    outcome.view? = some view ↔ ∃ spanCount, outcome = .compacted spanCount view := by
  cases outcome <;> simp [CompactionOutcome.view?, eq_comm]

theorem outcome_view?_eq_none {pass : ChainPass E}
    (h : ∃ record ∈ records, record.id = spanId 0) : (pass.outcome tags records).view? = none := by
  by_contra hsome
  obtain ⟨view, hview⟩ := Option.ne_none_iff_exists'.mp hsome
  obtain ⟨spanCount, hcompacted⟩ := view?_eq_some.mp hview
  obtain ⟨hsummarizes, -⟩ := compactSelective_first hcompacted
  obtain ⟨record, hrecord, hid⟩ := h
  have hfailed : pass.outcome tags records = .failed _ :=
    compactSelective_collides hsummarizes ⟨record, mem_append_left _ hrecord, hid⟩
  cases hfailed.symm.trans hcompacted

theorem chainRecords_append (records : List ContextRecord) (earlier later : List (ChainPass E)) :
    chainRecords tags records (earlier ++ later) =
      chainRecords tags (chainRecords tags records earlier) later := by
  induction earlier generalizing records with
  | nil => rfl
  | cons pass rest ih => simp [chainRecords, ih]

theorem chain_stuck (h : ∃ record ∈ records, record.id = spanId 0) (passes : List (ChainPass E)) :
    chainRecords tags records passes = records ∧ chainSpans tags records passes = [] := by
  induction passes with
  | nil => exact ⟨rfl, rfl⟩
  | cons pass rest ih => simp [chainRecords, chainSpans, outcome_view?_eq_none h, ih]

theorem chain_cases (records : List ContextRecord) (passes : List (ChainPass E)) :
    chainSpans tags records passes = [] ∨
      (∃ record ∈ chainRecords tags records passes, record.id = spanId 0) ∧
        ∃ span ∈ chainSpans tags records passes, span.spanId = spanId 0 := by
  induction passes generalizing records with
  | nil => exact .inl rfl
  | cons pass rest ih =>
    cases hview : (pass.outcome tags records).view? with
    | none => simpa [chainRecords, chainSpans, hview] using ih records
    | some view =>
      obtain ⟨spanCount, hcompacted⟩ := view?_eq_some.mp hview
      obtain ⟨-, hrecord, hspan⟩ := compactSelective_first hcompacted
      obtain ⟨hrecords, hspans⟩ : chainRecords tags view.records rest = view.records ∧
          chainSpans tags view.records rest = [] := chain_stuck hrecord rest
      right
      simpa [chainRecords, chainSpans, hview, hrecords, hspans] using ⟨hrecord, hspan⟩

theorem compacts_once {earlier later earlier' later' : List (ChainPass E)}
    {pass pass' : ChainPass E} {view' : CompressedView}
    (hpasses : passes = earlier ++ pass :: later)
    (hview : (pass.outcome tags (chainRecords tags records earlier)).view? = some view)
    (hpasses' : passes = earlier' ++ pass' :: later')
    (hview' : (pass'.outcome tags (chainRecords tags records earlier')).view? = some view') :
    ¬earlier.length < earlier'.length := by
  intro hlt
  obtain ⟨between, hearlier', hbetween⟩ | ⟨rest, hearlier, -⟩ :=
    append_eq_append_iff.mp (hpasses.symm.trans hpasses')
  · cases between with
    | nil =>
      rw [hearlier', append_nil] at hlt
      exact Nat.lt_irrefl _ hlt
    | cons next between =>
      cases hbetween
      obtain ⟨spanCount, hcompacted⟩ := view?_eq_some.mp hview
      obtain ⟨-, hrecord, -⟩ := compactSelective_first hcompacted
      have hrecords : chainRecords tags records earlier' = view.records := by
        rw [hearlier', chainRecords_append, chainRecords, hview]
        exact (chain_stuck hrecord between).1
      rw [hrecords, outcome_view?_eq_none hrecord] at hview'
      cases hview'
  · rw [hearlier, length_append] at hlt
    omega

theorem Covers.exists_pass {n : Nat} (h : Covers tags records passes record n span) :
    ∃ earlier pass later view, passes = earlier ++ pass :: later ∧ earlier.length = n ∧
      (pass.outcome tags (chainRecords tags records earlier)).view? = some view := by
  cases h with
  | source hpasses hview | summary _ _ hpasses hview => exact ⟨_, _, _, _, hpasses, rfl, hview⟩

theorem inherits_of_covers {n : Nat}
    (h : Covers tags records passes record n span) : Inherits tags span record := by
  cases h with
  | source hpasses hview hspan hrecord hsource =>
    obtain ⟨spanCount, hcompacted⟩ := view?_eq_some.mp hview
    exact inherits_of_source hcompacted hspan hrecord hsource
  | summary hinner hn hpasses hview =>
    obtain ⟨earlier, pass, later, view, hpasses', rfl, hview'⟩ := hinner.exists_pass
    exact absurd hn (compacts_once hpasses' hview' hpasses hview)

/-- No pass of a chain fails because of a span of an earlier one, and each span that covers a
record expires no later than it, exactly if no pass after one that produced spans has
something to summarize. -/
theorem chain_holds_iff (tags : RetentionTags) (records : List ContextRecord)
    (passes : List (ChainPass E)) :
    ChainHolds tags records passes ↔
      ∀ earlier pass later, passes = earlier ++ pass :: later →
        chainSpans tags records earlier ≠ [] →
        ¬Summarizes (chainRecords tags records earlier ++ pass.appended) pass.config := by
  constructor
  · intro hholds earlier pass later hpasses hproduced hsummarizes
    obtain ⟨⟨record, hrecord, hid⟩, span, hspan, hspanId⟩ :=
      (chain_cases records earlier).resolve_left hproduced
    refine hholds.free earlier pass later hpasses ⟨span, hspan, ?_⟩
    rw [hspanId]
    exact compactSelective_collides hsummarizes ⟨record, mem_append_left _ hrecord, hid⟩
  · intro hquiet
    refine ⟨fun earlier pass later hpasses => ?_, fun record _ n span => inherits_of_covers⟩
    rintro ⟨span, hspan, hfailed⟩
    have hnot := hquiet earlier pass later hpasses (ne_nil_of_mem hspan)
    rcases compactSelective_of_not_summarizes hnot with hnoOp | ⟨reason, hother, hne⟩
    · cases hnoOp.symm.trans hfailed
    · cases hother.symm.trans hfailed
      exact hne span.spanId rfl

end Chain

/-! ## A follow-up pass -/

/-- A first pass over the records `a`, `b`, `c` and `d`, of which `b` and `d` are kept. -/
def firstPass : ChainPass Unit := ⟨[], twoRunsConfig, constantSummarizer, 1, ()⟩

def followUpPass : ChainPass Unit :=
  ⟨[plainRecord "e" .normal "e"], twoRunsConfig, constantSummarizer, 2, ()⟩

theorem followUp_collides :
    ¬ChainHolds ⟨[]⟩ (twoRuns (plainRecord "a" .normal "a")) [firstPass, followUpPass] := by
  intro hholds
  refine hholds.free [firstPass] followUpPass [] rfl ?_
  unfold Collides
  decide +kernel

/-! ## Conservation

A selective compaction conserves the records: what leaves the view is what the spans name, in its
place. -/

/-- The source ids of the span a record stands for, or the id of the record. -/
def CompressedView.expand (view : CompressedView) (record : ContextRecord) : List String :=
  match view.spans.find? (·.spanId == record.id) with
  | some found => found.sourceIds
  | none => [record.id]

/-- What a compaction conserves. -/
structure Conserves (records : List ContextRecord) (protectedIds : List String)
    (window : CompactionWindow) (view : CompressedView) : Prop where
  partition : (window.head ++ window.recent).Perm (range records.length)
  ascending : window.head.Pairwise (· < ·) ∧ window.recent.Pairwise (· < ·)
  newest : ∀ i, i + 1 = records.length → i ∈ window.recent
  guarded : ∀ i record, records[i]? = some record → record.id ∈ protectedIds → i ∈ window.recent
  /-- The sources are the records of the head, each once. -/
  sources : view.spans.flatMap (·.sourceIds) =
    (window.head.filterMap fun i => records[i]?).map (·.id)
  once : (view.spans.flatMap (·.sourceIds)).Nodup
  kept : ∀ i ∈ window.recent, ∀ record, records[i]? = some record →
    record ∈ view.records ∧ record.id ∉ view.spans.flatMap (·.sourceIds)
  expands : view.records.flatMap view.expand = records.map (·.id)

variable {records : List ContextRecord}

/-! ## Runs and the splice -/

theorem filterMap_range' {α : Type} (l : List α) (start count : Nat) :
    (range' start count).filterMap (fun i => l[i]?) = (l.drop start).take count := by
  induction count generalizing start with
  | zero => simp
  | succ count ih =>
    rw [range'_succ, filterMap_cons, ih]
    cases hl : l[start]? with
    | none =>
      have hlength := List.getElem?_eq_none_iff.mp hl
      simp [drop_eq_nil_of_le hlength, drop_eq_nil_of_le (hlength.trans (Nat.le_succ _))]
    | some a =>
      obtain ⟨hlt, rfl⟩ := List.getElem?_eq_some_iff.mp hl
      rw [drop_eq_getElem_cons hlt, take_succ_cons]

theorem flatMap_groupRuns (run : SpanRange) (indices : List Nat) (h : run.start ≤ run.stop) :
    (groupRuns run indices).flatMap (fun range => range' range.start (range.stop - range.start)) =
      range' run.start (run.stop - run.start) ++ indices := by
  induction indices generalizing run with
  | nil => simp [groupRuns]
  | cons index rest ih =>
    rw [groupRuns]
    split
    next heq =>
      rw [ih _ (by simp; omega), heq,
        show run.stop + 1 - run.start = run.stop - run.start + 1 by omega,
        range'_concat]
      simp
      omega
    next => rw [flatMap_cons, ih _ (by simp)]; simp

theorem flatMap_covered_runs (indices : List Nat) :
    (contiguousRuns indices).flatMap (·.covered records) =
      indices.filterMap fun i => records[i]? := by
  have hruns : (contiguousRuns indices).flatMap
      (fun range => range' range.start (range.stop - range.start)) = indices := by
    cases indices with
    | nil => rfl
    | cons index rest => rw [contiguousRuns, flatMap_groupRuns _ _ (by simp)]; simp
  conv_rhs => rw [← hruns, filterMap_flatMap]
  simp only [filterMap_range']
  rfl

/-- Whatever puts the covered ids in the place of each synthetic record gives all ids back. -/
theorem flatMap_splice {all : List ContextRecord} {expand : ContextRecord → List String}
    (hkeeps : ∀ record ∈ all, expand record = [record.id]) {skip index : Nat}
    {ranges : List SpanRange} {synthetic : List ContextRecord}
    (hrecords : records = all.drop index)
    (hvalid : validateRangesFrom (index + records.length) (index + skip) ranges = .ok ())
    (hspans : Forall₂ (fun range summary => expand summary = (range.covered all).map (·.id))
      ranges synthetic) :
    (splice skip index records ranges synthetic).flatMap expand =
      (records.drop skip).map (·.id) := by
  induction records generalizing skip index ranges synthetic with
  | nil => simp [splice]
  | cons record records ih =>
    have hmem : record ∈ all := mem_of_mem_drop (hrecords ▸ mem_cons_self)
    have hrest : records = all.drop (index + 1) := by
      rw [← drop_drop, ← hrecords]
      rfl
    rw [length_cons, show index + (records.length + 1) = index + 1 + records.length by omega]
      at hvalid
    cases skip with
    | succ skip =>
      rw [show index + (skip + 1) = index + 1 + skip by omega] at hvalid
      simpa [splice] using ih hrest hvalid hspans
    | zero =>
      cases hspans with
      | nil => simp [splice, hkeeps record hmem, @ih 0 _ _ _ hrest rfl .nil]
      | @cons range summary ranges synthetic hcovered hspans =>
        obtain ⟨hstart, hstop, hcursor, hnext⟩ := validateRangesFrom_cons.mp hvalid
        rw [splice]
        split
        next heq =>
          subst heq
          obtain ⟨k, hk⟩ : ∃ k, range.stop - range.start = k + 1 :=
            ⟨_, (Nat.succ_pred (by omega)).symm⟩
          have hbehind : range.start + 1 + k = range.stop := by omega
          rw [flatMap_cons, hcovered, SpanRange.covered, ← hrecords, hk, Nat.add_sub_cancel,
            ih hrest (by rwa [hbehind]) hspans, ← map_append]
          simp
        next hne =>
          rw [flatMap_cons, hkeeps record hmem, ih hrest
            (validateRangesFrom_cons.mpr ⟨hstart, hstop, by omega, hnext⟩) (.cons hcovered hspans)]
          simp

/-! ## The window -/

variable {config : SelectiveCompactionConfig} {window : CompactionWindow}

theorem leftBehind_eq_false {keep : Nat} {protectedIds : List String} {i : Nat}
    (h : i + 1 = records.length ∨
      ∃ record, records[i]? = some record ∧ record.id ∈ protectedIds) :
    leftBehind keep protectedIds records i = false := by
  unfold leftBehind
  cases hdrop : records.drop i with
  | nil => rfl
  | cons first newer =>
    obtain hlast | ⟨record, hrecord, hid⟩ := h
    · have hlength := congrArg length hdrop
      have hnewer : newer = [] := length_eq_zero_iff.mp (by simp at hlength; omega)
      simp [hnewer]
    · have hfirst : first = record := by
        have hzero := congrArg (·[0]?) hdrop
        simpa [hrecord] using hzero.symm
      simp [hfirst, hid]

/-! ## The view -/

section View

variable {ranges : List SpanRange} {tags : RetentionTags} {nowMs : Nat} {seed : Option String}
  {view : CompressedView} {calls : List SummarizeCall} {steps : List SpanStep}
  (hpass : Passed records ranges tags nowMs seed view calls steps)

include hpass

theorem Passed.sources_eq :
    view.spans.flatMap (·.sourceIds) = (ranges.flatMap (·.covered records)).map (·.id) := by
  have hcovered := congrArg (map Prod.fst) hpass.walk.ranged
  simp only [map_map, Function.comp_def] at hcovered
  have hranges : ranges.zipIdx.map (fun entry => entry.1.covered records) =
      ranges.map (·.covered records) := by
    conv_rhs => rw [← zipIdx_map_fst 0 ranges, map_map]
    rfl
  calc view.spans.flatMap (·.sourceIds)
      = (steps.flatMap (·.covered)).map (·.id) := by
        rw [hpass.spans_eq, flatMap_map, map_flatMap]
        rfl
    _ = (ranges.flatMap (·.covered records)).map (·.id) := by
        rw [flatMap_def, hcovered, hranges, flatMap_def]

theorem Passed.expand_synthetic {k : Nat} {step : SpanStep} (hstep : steps[k]? = some step) :
    view.expand (step.synthetic nowMs) = step.covered.map (·.id) := by
  have hindex := (hpass.step_at hstep).1
  unfold CompressedView.expand
  cases hfind : view.spans.find? (·.spanId == (step.synthetic nowMs).id) with
  | none =>
    have hmem : step.span tags nowMs ∈ view.spans :=
      hpass.spans_eq ▸ mem_map_of_mem (mem_of_getElem? hstep)
    simpa [span, compressedSpan, synthetic, syntheticRecord] using
      find?_eq_none.mp hfind _ hmem
  | some found =>
    have hmem := mem_of_find?_eq_some hfind
    have hid : found.spanId = (step.synthetic nowMs).id := by simpa using find?_some hfind
    rw [hpass.spans_eq] at hmem
    obtain ⟨other, hother, rfl⟩ := mem_map.mp hmem
    rw [hpass.step_unique hstep hother (hindex ▸ hid)]
    rfl

theorem Passed.expand_record {record : ContextRecord} (hrecord : record ∈ records) :
    view.expand record = [record.id] := by
  have hnone : view.spans.find? (·.spanId == record.id) = none := by
    rw [find?_eq_none, hpass.spans_eq]
    intro found hfound hid
    obtain ⟨step, hstep, rfl⟩ := mem_map.mp hfound
    exact hpass.walk.fresh step hstep record hrecord (eq_of_beq hid).symm
  rw [CompressedView.expand, hnone]

theorem Passed.expands : view.records.flatMap view.expand = records.map (·.id) := by
  have hlength := congrArg length hpass.walk.ranged
  simp only [length_map, length_zipIdx] at hlength
  have hspans : Forall₂ (fun range summary => view.expand summary =
      (range.covered records).map (·.id)) ranges (steps.map (synthetic nowMs)) := by
    rw [forall₂_map_right_iff, forall₂_iff_get]
    refine ⟨hlength.symm, fun i hi hi' => ?_⟩
    have hstep : steps[i]? = some steps[i] := getElem?_eq_getElem hi'
    obtain ⟨-, range, hrange, hcovered⟩ := hpass.step_at hstep
    rw [getElem?_eq_getElem hi, Option.some.injEq] at hrange
    rw [get_eq_getElem, get_eq_getElem, hpass.expand_synthetic hstep, hcovered, hrange]
  have hvalid : validateRangesFrom (0 + records.length) (0 + 0) ranges = .ok () := by
    simpa using hpass.valid
  rw [hpass.records_eq, flatMap_splice (fun _ => hpass.expand_record) drop_zero.symm hvalid
    hspans, drop_zero]

/-- A record that is no source stays in the view. -/
theorem Passed.mem_records (hnodup : (records.map (·.id)).Nodup) {record : ContextRecord}
    (hrecord : record ∈ records)
    (hapart : record.id ∉ view.spans.flatMap (·.sourceIds)) : record ∈ view.records := by
  have hid : record.id ∈ view.records.flatMap view.expand := hpass.expands ▸ mem_map_of_mem hrecord
  obtain ⟨other, hother, hid⟩ := mem_flatMap.mp hid
  rcases mem_of_mem_splice (hpass.records_eq ▸ hother) with hmem | hmem
  · rw [hpass.expand_record hmem, mem_singleton] at hid
    rwa [inj_on_of_nodup_map hnodup hrecord hmem hid]
  · obtain ⟨step, hstep, rfl⟩ := mem_map.mp hmem
    obtain ⟨k, hk⟩ := getElem?_of_mem hstep
    rw [hpass.expand_synthetic hk] at hid
    refine absurd (mem_flatMap.mpr ⟨step.span tags nowMs, ?_, hid⟩) hapart
    exact hpass.spans_eq ▸ mem_map_of_mem hstep

end View

/-- A compaction conserves the records. -/
theorem compaction_conserves {E : Type} (records : List ContextRecord)
    (config : SelectiveCompactionConfig) (summarizer : Summarizer E) (tags : RetentionTags)
    (nowMs : Nat) (env : E) {spanCount : Nat} {view : CompressedView} {seam : Seam E}
    (h : compactSelective records config summarizer tags nowMs env =
      (.compacted spanCount view, seam)) :
    ∃ window, selectCompactionWindow records config.keepRecentBytes config.protectedIds
        config.currentGeneration = .ok window ∧
      Conserves records config.protectedIds window view := by
  obtain ⟨window, hwindow, -⟩ := compactSelective_run h
  obtain ⟨hnodup, steps, hpass⟩ := compactSelective_compacted h
  obtain ⟨head, recent⟩ := window
  obtain ⟨-, rfl, rfl⟩ := selectCompactionWindow_ok hwindow
  have hsources : view.spans.flatMap (·.sourceIds) =
      ((headOf records config).filterMap fun i => records[i]?).map (·.id) := by
    rw [hpass.sources_eq, headRuns, flatMap_covered_runs]
  have hall : (range records.length).filterMap (fun i => records[i]?) = records := by
    simpa [range_eq_range'] using filterMap_range' records 0 records.length
  have hrecent : ∀ {i}, i + 1 = records.length ∨
      (∃ record, records[i]? = some record ∧ record.id ∈ config.protectedIds) →
      i < records.length → i ∈ (range records.length).filter fun i =>
        !leftBehind config.keepRecentBytes config.protectedIds records i := by
    intro i hi hlt
    simp [hlt, leftBehind_eq_false hi]
  have hapart : ∀ i, leftBehind config.keepRecentBytes config.protectedIds records i = false →
      ∀ record, records[i]? = some record → record.id ∉ view.spans.flatMap (·.sourceIds) := by
    intro i hkept record hrecord hmem
    rw [hsources] at hmem
    obtain ⟨other, hother, hid⟩ := mem_map.mp hmem
    obtain ⟨j, hj, hjother⟩ := mem_filterMap.mp hother
    have hij : i = j := by
      have hlt : i < (records.map (·.id)).length := by
        simpa using (List.getElem?_eq_some_iff.mp hrecord).1
      exact (getElem?_inj hlt hnodup).mp (by simp [hrecord, hjother, hid])
    rw [hij] at hkept
    simp [headOf, hkept] at hj
  refine ⟨_, hwindow, ?_, ⟨pairwise_lt_range.filter _, pairwise_lt_range.filter _⟩,
    fun i hi => hrecent (.inl hi) (by omega), ?_, hsources, ?_, ?_, hpass.expands⟩
  · exact filter_append_perm _ _
  · intro i record hrecord hid
    exact hrecent (.inr ⟨record, hrecord, hid⟩) (List.getElem?_eq_some_iff.mp hrecord).1
  · rw [hsources]
    refine hnodup.sublist (Sublist.map _ ?_)
    conv_rhs => rw [← hall]
    exact filter_sublist.filterMap _
  · intro i hi record hrecord
    have hkept : leftBehind config.keepRecentBytes config.protectedIds records i = false := by
      simpa using (mem_filter.mp hi).2
    have hout := hapart i hkept record hrecord
    exact ⟨hpass.mem_records hnodup (mem_of_getElem? hrecord) hout, hout⟩

theorem compaction_conserves_twoRuns : ∃ view seam,
    compactSelective (twoRuns untrustedFirst) twoRunsConfig constantSummarizer ⟨[]⟩ 1 () =
        (.compacted 2 view, seam) ∧
      view.records.flatMap view.expand = ["a", "b", "c", "d"] := by
  obtain ⟨view, seam, hrun⟩ := compactSelective_twoRuns
  obtain ⟨window, -, hconserves⟩ := compaction_conserves _ _ _ _ _ _ hrun
  exact ⟨view, seam, hrun, hconserves.expands⟩

end BittyAi.Runtime
