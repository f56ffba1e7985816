/-
BittyAi.Runtime.CompressionFlowTheorems — what flows through the rolling summary of a
selective compaction, against the marks and the deletions that follow it.

The summarizer of one span is given the summary of the span before it, so what the first
span was made from can show up in the last one (`Feeds`, `SummarizedFrom`). The marks of a
span and the reach of a deletion are computed from the records the span covers itself.
-/
import BittyAi.Runtime.CompressionTheorems
import BittyAi.Runtime.ContextAssemblyTheorems

namespace BittyAi.Runtime

open Lib SpanStep
open List hiding span

variable {E : Type} {records : List ContextRecord} {summarizer : Summarizer E}
  {tags : RetentionTags} {nowMs : Nat}

/-! ## Flow -/

/-- The answer of call `j` went into the input of call `k`: it is that call, or it came along with
the previous summary. -/
inductive Feeds (calls : List SummarizeCall) (j : Nat) : Nat → Prop where
  | self : Feeds calls j j
  | rolled {k : Nat} {prior next : SummarizeCall} {text : String} (earlier : Feeds calls j k)
      (hprior : calls[k]? = some prior) (hnext : calls[k + 1]? = some next)
      (hanswer : prior.answer = .ok text) (hprevious : next.input.previousSummary = some text) :
      Feeds calls j (k + 1)

/-- The input of call `k` contained `record`, directly or through the previous
summary and the calls before it. -/
def SummarizedFrom (calls : List SummarizeCall) (k : Nat) (record : ContextRecord) : Prop :=
  ∃ j call, Feeds calls j k ∧ calls[j]? = some call ∧ record.id ∈ call.input.sourceIds

variable {calls : List SummarizeCall} {k : Nat}

theorem Feeds.le {j : Nat} (h : Feeds calls j k) : j ≤ k := by
  induction h with
  | self => exact le_rfl
  | rolled _ _ _ _ _ ih => exact ih.trans (Nat.le_succ _)

theorem SummarizedFrom.lt_length {record : ContextRecord}
    (h : SummarizedFrom calls k record) : k < calls.length := by
  obtain ⟨j, call, hfeeds, hcall, -⟩ := h
  cases hfeeds with
  | self => exact (List.getElem?_eq_some_iff.mp hcall).1
  | rolled _ _ hnext _ _ => exact (List.getElem?_eq_some_iff.mp hnext).1

variable {seed : Option String} {steps : List SpanStep}

theorem feeds_of_le (hlinked : Linked seed steps) {j : Nat} (hjk : j ≤ k) (hk : k < steps.length) :
    Feeds (steps.map (call nowMs)) j k := by
  induction k, hjk using Nat.le_induction with
  | base => exact .self
  | succ k _ ih =>
    have hstep : steps[k]? = some steps[k] := getElem?_eq_getElem (by omega)
    have hnext : steps[k + 1]? = some steps[k + 1] := getElem?_eq_getElem hk
    have hprior : (steps.map (call nowMs))[k]? = some (steps[k].call nowMs) := by
      rw [getElem?_map, hstep, Option.map_some]
    have hcall : (steps.map (call nowMs))[k + 1]? = some (steps[k + 1].call nowMs) := by
      rw [getElem?_map, hnext, Option.map_some]
    exact .rolled (ih (by omega)) hprior hcall rfl (hlinked.previous_eq hstep hnext)

variable {ranges : List SpanRange} {view : CompressedView}

theorem Passed.summarizedFrom_iff (hpass : Passed records ranges tags nowMs seed view calls steps)
    (hnodup : (records.map (·.id)).Nodup) {last : SpanStep} (hlast : steps[k]? = some last)
    {record : ContextRecord} (hrecord : record ∈ records) :
    SummarizedFrom calls k record ↔
      ∃ j step, j ≤ k ∧ steps[j]? = some step ∧ record ∈ step.covered := by
  rw [hpass.calls_eq]
  constructor
  · rintro ⟨j, answered, hfeeds, hcall, hid⟩
    rw [getElem?_map, Option.map_eq_some_iff] at hcall
    obtain ⟨step, hstep, rfl⟩ := hcall
    obtain ⟨source, hsource, hsourceId⟩ := mem_map.mp hid
    refine ⟨j, step, hfeeds.le, hstep, ?_⟩
    -- ids are distinct, so the source under this id is the record
    obtain ⟨-, range, -, hcovered⟩ := hpass.step_at hstep
    have hmem : source ∈ records := by
      rw [hcovered] at hsource
      exact mem_of_mem_drop (mem_of_mem_take hsource)
    rwa [← inj_on_of_nodup_map hnodup hmem hrecord hsourceId]
  · rintro ⟨j, step, hjk, hstep, hcovered⟩
    have hk := (List.getElem?_eq_some_iff.mp hlast).1
    refine ⟨j, step.call nowMs, feeds_of_le hpass.walk.linked hjk hk, ?_, mem_map_of_mem hcovered⟩
    rw [getElem?_map, hstep, Option.map_some]

/-- What must hold of a source and of every span made from it, and holds of the span that
covers the source, is left to check between the runs of the head. -/
theorem Passed.forall_flow_iff (hpass : Passed records ranges tags nowMs seed view calls steps)
    (hnodup : (records.map (·.id)).Nodup) {P : ContextRecord → Prop}
    {Q : Nat → List ContextRecord → ContextRecord → Prop}
    (hself : ∀ k covered source, source ∈ covered → P source → Q k covered source) :
    (∀ k step, steps[k]? = some step → ∀ source ∈ records, P source →
        SummarizedFrom calls k source → Q k step.covered source) ↔
      ∀ (i j : Nat) (earlier later : SpanRange), i < j → ranges[i]? = some earlier →
        ranges[j]? = some later → ∀ source ∈ earlier.covered records, P source →
        Q j (later.covered records) source := by
  constructor
  · intro hflows i j earlier later hij hearlier hlater source hsource hP
    obtain ⟨from', hfrom, hfromCovered⟩ := hpass.exists_step hearlier
    obtain ⟨step, hstep, hcovered⟩ := hpass.exists_step hlater
    have hmem : source ∈ records := mem_of_mem_drop (mem_of_mem_take hsource)
    rw [← hcovered]
    exact hflows j step hstep source hmem hP ((hpass.summarizedFrom_iff hnodup hstep hmem).mpr
      ⟨i, from', hij.le, hfrom, hfromCovered ▸ hsource⟩)
  · intro hruns k step hstep source hmem hP hflow
    obtain ⟨j, from', hjk, hfrom, hsource⟩ :=
      (hpass.summarizedFrom_iff hnodup hstep hmem).mp hflow
    rcases hjk.lt_or_eq with hlt | rfl
    · obtain ⟨-, earlier, hearlier, hfromCovered⟩ := hpass.step_at hfrom
      obtain ⟨-, later, hlater, hcovered⟩ := hpass.step_at hstep
      rw [hcovered]
      exact hruns j k earlier later hlt hearlier hlater source (hfromCovered ▸ hsource) hP
    · rw [hfrom, Option.some.injEq] at hstep
      exact hself j _ source (hstep ▸ hsource) hP

/-! ## Taint -/

/-- The span and the record under its id are untrusted, and the span is retained
no longer than `source`. -/
structure CarriesMarks (tags : RetentionTags) (view : CompressedView) (span : CompressedSpan)
    (source : ContextRecord) : Prop where
  span_untrusted : span.isUntrustedSurface = true
  record_untrusted : ∃ record ∈ view.records, record.id = span.spanId ∧
    record.isUntrustedSurface = true
  retention : (tags.get source.id).restrictiveness ≤ span.retention.restrictiveness
  deadline : span.sourceDeadlineMs ≤ source.collectedAtMs

/-- Some of the records are marked at least as strictly as `source`. -/
structure MakesUpFor (tags : RetentionTags) (covered : List ContextRecord)
    (source : ContextRecord) : Prop where
  untrusted : ∃ record ∈ covered, record.isUntrustedSurface = true
  retention : ∃ record ∈ covered,
    (tags.get source.id).restrictiveness ≤ (tags.get record.id).restrictiveness
  deadline : ∃ record ∈ covered, record.collectedAtMs ≤ source.collectedAtMs

theorem MakesUpFor.of_mem {covered : List ContextRecord} {source : ContextRecord}
    (hmem : source ∈ covered) (huntrusted : source.isUntrustedSurface = true) :
    MakesUpFor tags covered source :=
  ⟨⟨source, hmem, huntrusted⟩, ⟨source, hmem, le_rfl⟩, ⟨source, hmem, le_rfl⟩⟩

theorem Passed.carriesMarks_iff
    (hpass : Passed records ranges tags nowMs seed view calls steps) {step : SpanStep}
    (hstep : steps[k]? = some step) (source : ContextRecord) :
    CarriesMarks tags view (step.span tags nowMs) source ↔ MakesUpFor tags step.covered source := by
  have hne : step.covered ≠ [] := cons_ne_nil _ _
  have hids : step.covered.map (·.id) ≠ [] := by simpa using hne
  have huntrusted : (step.span tags nowMs).isUntrustedSurface = true ↔
      ∃ record ∈ step.covered, record.isUntrustedSurface = true := by
    rw [span, compressedSpan, decide_eq_true_eq, untrustedCount_pos_iff]
  have hretention : ∀ rank, rank ≤ (step.span tags nowMs).retention.restrictiveness ↔
      ∃ record ∈ step.covered, rank ≤ (tags.get record.id).restrictiveness := by
    intro rank
    rw [span, compressedSpan, le_inheritRetention_iff hids]
    simp only [mem_map, exists_exists_and_eq_and]
  have hdeadline : (step.span tags nowMs).sourceDeadlineMs ≤ source.collectedAtMs ↔
      ∃ record ∈ step.covered, record.collectedAtMs ≤ source.collectedAtMs :=
    @sourceDeadline_le_iff _ nowMs _ hne
  constructor
  · intro h
    exact ⟨huntrusted.mp h.span_untrusted, (hretention _).mp h.retention, hdeadline.mp h.deadline⟩
  · intro h
    have hmark := huntrusted.mpr h.untrusted
    obtain ⟨hmem, hid⟩ := (hpass.mem_records_id_iff hstep (step.synthetic nowMs)).mpr rfl
    refine ⟨hmark, ⟨step.synthetic nowMs, hmem, ?_, hmark⟩, (hretention _).mpr h.retention,
      hdeadline.mpr h.deadline⟩
    rw [hid, span, compressedSpan, (hpass.step_at hstep).1]

def RunsMakeUp (records : List ContextRecord) (config : SelectiveCompactionConfig)
    (tags : RetentionTags) : Prop :=
  ∀ (i j : Nat) (earlier later : SpanRange), i < j → (headRuns records config)[i]? = some earlier →
    (headRuns records config)[j]? = some later →
    ∀ source ∈ earlier.covered records, source.isUntrustedSurface = true →
      MakesUpFor tags (later.covered records) source

/-- The spans of a pass carry the marks of every untrusted record they were made
from exactly when each run of the head makes up for the runs before it. -/
theorem taint_carried_iff (records : List ContextRecord) (config : SelectiveCompactionConfig)
    (summarizer : Summarizer E) (tags : RetentionTags) (nowMs : Nat) (env : E)
    {spanCount : Nat} {view : CompressedView} {seam : Seam E}
    (h : compactSelective records config summarizer tags nowMs env =
      (.compacted spanCount view, seam)) :
    (∀ k span, view.spans[k]? = some span → ∀ source ∈ records,
        source.isUntrustedSurface = true → SummarizedFrom seam.calls k source →
        CarriesMarks tags view span source) ↔
      RunsMakeUp records config tags := by
  obtain ⟨hnodup, steps, hpass⟩ := compactSelective_compacted h
  refine Iff.trans ?_ (hpass.forall_flow_iff hnodup
    (P := fun source => source.isUntrustedSurface = true) (Q := fun _ => MakesUpFor tags)
    fun _ _ _ hmem huntrusted => .of_mem hmem huntrusted)
  constructor
  · intro hcarries k step hstep source hmem huntrusted hflow
    have hspan : view.spans[k]? = some (step.span tags nowMs) := by
      rw [hpass.spans_eq, List.getElem?_map, hstep, Option.map_some]
    exact (hpass.carriesMarks_iff hstep source).mp (hcarries k _ hspan source hmem huntrusted hflow)
  · intro hruns k span hspan source hmem huntrusted hflow
    rw [hpass.spans_eq, List.getElem?_map, Option.map_eq_some_iff] at hspan
    obtain ⟨step, hstep, rfl⟩ := hspan
    exact (hpass.carriesMarks_iff hstep source).mpr
      (hruns k step hstep source hmem huntrusted hflow)

/-- Four records; the second is protected and the last is the recent tail, so the
untrusted `a` and the trusted `c` are two runs. -/
def twoRuns (first : ContextRecord) : List ContextRecord :=
  [first, plainRecord "b" .normal "b", plainRecord "c" .normal "c", plainRecord "d" .normal "d"]

def twoRunsConfig : SelectiveCompactionConfig where
  windowBytes := 64 * 1024
  keepRecentBytes := 0
  protectedIds := ["b"]
  currentGeneration := none
  previousSummary := none

def untrustedFirst : ContextRecord :=
  { plainRecord "a" .normal "a" with isUntrustedSurface := true }

def constantSummarizer : Summarizer Unit := fun _ _ => (.ok "summary", ())

theorem compactSelective_twoRuns : ∃ view seam,
    compactSelective (twoRuns untrustedFirst) twoRunsConfig constantSummarizer ⟨[]⟩ 1 () =
      (.compacted 2 view, seam) := ⟨_, _, rfl⟩

/-- The same records, all of them untrusted. -/
def untrustedRuns : List ContextRecord :=
  (twoRuns untrustedFirst).map fun record => { record with isUntrustedSurface := true }

theorem headRuns_twoRuns (rest : List ContextRecord)
    (h : headRuns (untrustedFirst :: rest) twoRunsConfig = [⟨0, 1⟩, ⟨2, 3⟩])
    {i j : Nat} {earlier later : SpanRange} (hij : i < j)
    (hearlier : (headRuns (untrustedFirst :: rest) twoRunsConfig)[i]? = some earlier)
    (hlater : (headRuns (untrustedFirst :: rest) twoRunsConfig)[j]? = some later) :
    j = 1 ∧ earlier = ⟨0, 1⟩ ∧ later = ⟨2, 3⟩ := by
  rw [h] at hearlier hlater
  have hj : j = 1 := by
    have := (List.getElem?_eq_some_iff.mp hlater).1
    simp only [length_cons, length_nil] at this
    omega
  obtain rfl : i = 0 := by omega
  subst hj
  simp_all

theorem summarizedFrom_twoRuns {rest : List ContextRecord}
    (hruns : headRuns (untrustedFirst :: rest) twoRunsConfig = [⟨0, 1⟩, ⟨2, 3⟩])
    {spanCount : Nat} {seam : Seam Unit}
    (h : compactSelective (untrustedFirst :: rest) twoRunsConfig constantSummarizer ⟨[]⟩ 1 () =
      (.compacted spanCount view, seam)) :
    SummarizedFrom seam.calls 1 untrustedFirst := by
  obtain ⟨hnodup, steps, hpass⟩ := compactSelective_compacted h
  rw [hruns] at hpass
  obtain ⟨step, hstep, hcovered⟩ := hpass.exists_step (k := 0) rfl
  obtain ⟨later, hlater, -⟩ := hpass.exists_step (k := 1) rfl
  refine (hpass.summarizedFrom_iff hnodup hlater mem_cons_self).mpr
    ⟨0, step, Nat.zero_le 1, hstep, ?_⟩
  rw [hcovered]
  exact mem_cons_self

/-- The summary of the untrusted `a` is given to the summarizer of `c`, which is untrusted
too: the span of `c` carries the marks of both. -/
theorem taint_carried_iff_untrusted : ∃ view seam,
      compactSelective untrustedRuns twoRunsConfig constantSummarizer ⟨[]⟩ 1 () =
        (.compacted 2 view, seam) ∧ SummarizedFrom seam.calls 1 untrustedFirst ∧
      ∀ k span, view.spans[k]? = some span → ∀ source ∈ untrustedRuns,
        source.isUntrustedSurface = true → SummarizedFrom seam.calls k source →
        CarriesMarks ⟨[]⟩ view span source := by
  obtain ⟨view, seam, hrun⟩ : ∃ view seam,
      compactSelective untrustedRuns twoRunsConfig constantSummarizer ⟨[]⟩ 1 () =
        (.compacted 2 view, seam) := ⟨_, _, rfl⟩
  refine ⟨view, seam, hrun, summarizedFrom_twoRuns rfl hrun,
    (taint_carried_iff _ _ _ _ _ _ hrun).mpr ?_⟩
  intro i j earlier later hij hearlier hlater source hsource huntrusted
  obtain ⟨rfl, rfl, rfl⟩ := headRuns_twoRuns _ rfl hij hearlier hlater
  obtain rfl : source = untrustedFirst := mem_singleton.mp hsource
  exact ⟨⟨_, mem_cons_self, rfl⟩, ⟨_, mem_cons_self, le_rfl⟩, ⟨_, mem_cons_self, le_rfl⟩⟩

/-- The summary of the untrusted `a` is given to the summarizer of `c`, whose span
is trusted. -/
theorem taint_lost_between_runs : ∃ view seam span,
      compactSelective (twoRuns untrustedFirst) twoRunsConfig constantSummarizer ⟨[]⟩ 1 () =
        (.compacted 2 view, seam) ∧
      view.spans[1]? = some span ∧ untrustedFirst.isUntrustedSurface = true ∧
      SummarizedFrom seam.calls 1 untrustedFirst ∧ span.isUntrustedSurface = false := by
  have hrun : ∃ view seam,
      compactSelective (twoRuns untrustedFirst) twoRunsConfig constantSummarizer ⟨[]⟩ 1 () =
        (.compacted 2 view, seam) ∧
      view.spans[1]?.map (·.isUntrustedSurface) = some false := ⟨_, _, rfl, by decide +kernel⟩
  obtain ⟨view, seam, hrun, hmark⟩ := hrun
  obtain ⟨span, hspan, hmark⟩ := Option.map_eq_some_iff.mp hmark
  exact ⟨view, seam, span, hrun, hspan, rfl, summarizedFrom_twoRuns rfl hrun, hmark⟩

/-! ## Deletion -/

theorem hitBy_span_iff (step : SpanStep) (ids : List String) :
    (step.span tags nowMs).hitBy ids = true ↔
      (∃ record ∈ step.covered, record.id ∈ ids) ∨ spanId step.spanIndex ∈ ids := by
  simp [CompressedSpan.hitBy, span, compressedSpan]

/-- What is left of call `k` after a deletion: a span or a record under its id. -/
def Survives (view : CompressedView) (k : Nat) : Prop :=
  (∃ span ∈ view.spans, span.spanId = spanId k) ∨ ∃ record ∈ view.records, record.id = spanId k

theorem Passed.survives_deleteIds_iff
    (hpass : Passed records ranges tags nowMs seed view calls steps) {step : SpanStep}
    (hstep : steps[k]? = some step) (ids : List String) :
    Survives (view.deleteIds ids).2 k ↔ (step.span tags nowMs).hitBy ids = false := by
  have hindex := (hpass.step_at hstep).1
  have hspanMem : step.span tags nowMs ∈ view.spans :=
    hpass.spans_eq ▸ mem_map_of_mem (mem_of_getElem? hstep)
  have hspanId : (step.span tags nowMs).spanId = spanId k := by rw [span, compressedSpan, hindex]
  -- the span under this id is the one of the step
  have hunique : ∀ other ∈ view.spans, other.spanId = spanId k → other = step.span tags nowMs := by
    intro other hother hid
    rw [hpass.spans_eq] at hother
    obtain ⟨source, hsource, rfl⟩ := mem_map.mp hother
    rw [hpass.step_unique hstep hsource hid]
  constructor
  · rintro (⟨other, hother, hid⟩ | ⟨record, hrecord, hid⟩)
    · obtain ⟨hmem, hkept⟩ := mem_filter.mp hother
      rw [← hunique other hmem hid]
      simpa using hkept
    · obtain ⟨hmem, hkept⟩ := mem_filter.mp hrecord
      simp only [Bool.and_eq_true, Bool.not_eq_true', contains_eq_mem, decide_eq_false_iff_not,
        mem_map, mem_filter, not_exists, not_and] at hkept
      refine Bool.eq_false_iff.mpr fun hhit => ?_
      exact hkept.2 _ ⟨hspanMem, hhit⟩ (by rw [hspanId, hid])
  · intro hkept
    exact .inl ⟨step.span tags nowMs, mem_filter.mpr ⟨hspanMem, by simp [hkept]⟩, hspanId⟩

/-- Whatever a deletion names in one run of the head, it names something in every
later run too, or the span of that run. -/
def RunsAllNamed (records : List ContextRecord) (config : SelectiveCompactionConfig)
    (ids : List String) : Prop :=
  ∀ (i j : Nat) (earlier later : SpanRange), i < j → (headRuns records config)[i]? = some earlier →
    (headRuns records config)[j]? = some later →
    (∃ source ∈ earlier.covered records, source.id ∈ ids) →
      (∃ record ∈ later.covered records, record.id ∈ ids) ∨ spanId j ∈ ids

theorem Passed.resolveSummary_dropped
    (hpass : Passed records ranges tags nowMs seed view calls steps) (ids : List String)
    {span : CompressedSpan} (hspan : span ∈ view.spans)
    (hdropped : span ∉ (view.deleteIds ids).2.spans) :
    ∃ e, (view.deleteIds ids).2.resolveSummary span.spanId = .error e := by
  have hmem := hspan
  rw [hpass.spans_eq] at hmem
  obtain ⟨step, hstep, rfl⟩ := mem_map.mp hmem
  obtain ⟨k, hk⟩ := getElem?_of_mem hstep
  have hindex := (hpass.step_at hk).1
  unfold CompressedView.resolveSummary
  cases hfind : (view.deleteIds ids).2.spans.find? fun span => span.spanId ==
      (step.span tags nowMs).spanId with
  | none =>
    dsimp only
    split <;> exact ⟨_, rfl⟩
  | some other =>
    have hid : other.spanId = spanId k := by
      have hfound := find?_some hfind
      rw [← hindex]
      simpa [span, compressedSpan] using hfound
    have hsurvives : Survives (view.deleteIds ids).2 k :=
      .inl ⟨other, mem_of_find?_eq_some hfind, hid⟩
    have hkept := (hpass.survives_deleteIds_iff hk ids).mp hsurvives
    exact absurd (mem_filter.mpr ⟨hspan, by simp [hkept]⟩) hdropped

/-- A deletion leaves nothing made from a deleted record exactly when it names
something in every later run; a dropped span never resolves. -/
theorem deletion_reaches_iff (records : List ContextRecord) (config : SelectiveCompactionConfig)
    (summarizer : Summarizer E) (tags : RetentionTags) (nowMs : Nat) (env : E)
    {spanCount : Nat} {view : CompressedView} {seam : Seam E}
    (h : compactSelective records config summarizer tags nowMs env =
      (.compacted spanCount view, seam)) (ids : List String) :
    ((∀ k source, source ∈ records → source.id ∈ ids → SummarizedFrom seam.calls k source →
        ¬ Survives (view.deleteIds ids).2 k) ∧
      ∀ span ∈ view.spans, span ∉ (view.deleteIds ids).2.spans →
        ∃ e, (view.deleteIds ids).2.resolveSummary span.spanId = .error e) ↔
      RunsAllNamed records config ids := by
  obtain ⟨hnodup, steps, hpass⟩ := compactSelective_compacted h
  have hgone : ∀ {k step}, steps[k]? = some step → (¬ Survives (view.deleteIds ids).2 k ↔
        (∃ record ∈ step.covered, record.id ∈ ids) ∨ spanId k ∈ ids) := by
    intro k step hstep
    rw [hpass.survives_deleteIds_iff hstep, Bool.not_eq_false, hitBy_span_iff,
      (hpass.step_at hstep).1]
  have hflows := hpass.forall_flow_iff hnodup (P := fun source => source.id ∈ ids)
    (Q := fun k covered _ => (∃ record ∈ covered, record.id ∈ ids) ∨ spanId k ∈ ids)
    fun _ _ source hmem hid => .inl ⟨source, hmem, hid⟩
  constructor
  · rintro ⟨hreaches, -⟩ i j earlier later hij hearlier hlater ⟨source, hsource, hid⟩
    refine hflows.mp ?_ i j earlier later hij hearlier hlater source hsource hid
    intro k step hstep source hmem hid hflow
    exact (hgone hstep).mp (hreaches k source hmem hid hflow)
  · intro hnamed
    refine ⟨?_, fun span hspan hdropped => hpass.resolveSummary_dropped ids hspan hdropped⟩
    intro k source hmem hid hflow
    have hk : k < steps.length := by simpa [hpass.calls_eq] using hflow.lt_length
    have hstep : steps[k]? = some steps[k] := List.getElem?_eq_getElem hk
    refine (hgone hstep).mpr (hflows.mpr ?_ k _ hstep source hmem hid hflow)
    intro i j earlier later hij hearlier hlater source hsource hid
    exact hnamed i j earlier later hij hearlier hlater ⟨source, hsource, hid⟩

theorem deletion_reaches_iff_each_run : ∃ view seam,
      compactSelective (twoRuns untrustedFirst) twoRunsConfig constantSummarizer ⟨[]⟩ 1 () =
        (.compacted 2 view, seam) ∧
      (∀ k source, source ∈ twoRuns untrustedFirst → source.id ∈ ["a", "c"] →
        SummarizedFrom seam.calls k source → ¬ Survives (view.deleteIds ["a", "c"]).2 k) ∧
      ∀ span ∈ view.spans, span ∉ (view.deleteIds ["a", "c"]).2.spans →
        ∃ e, (view.deleteIds ["a", "c"]).2.resolveSummary span.spanId = .error e := by
  obtain ⟨view, seam, hrun⟩ := compactSelective_twoRuns
  refine ⟨view, seam, hrun, (deletion_reaches_iff _ _ _ _ _ _ hrun ["a", "c"]).mpr ?_⟩
  intro i j earlier later hij hearlier hlater hsource
  obtain ⟨-, -, rfl⟩ := headRuns_twoRuns _ rfl hij hearlier hlater
  exact .inl ⟨_, mem_cons_self, by decide⟩

/-- After the deletion of `a`, the span of `c` and its record are still there,
although the summary of `a` went into them. -/
theorem deletion_misses_later_run : ∃ view seam,
      compactSelective (twoRuns untrustedFirst) twoRunsConfig constantSummarizer ⟨[]⟩ 1 () =
        (.compacted 2 view, seam) ∧
      SummarizedFrom seam.calls 1 untrustedFirst ∧
      (view.deleteIds [untrustedFirst.id]).2.resolveSummary (spanId 1) = .ok "summary" ∧
      Survives (view.deleteIds [untrustedFirst.id]).2 1 := by
  have hrun : ∃ view seam,
      compactSelective (twoRuns untrustedFirst) twoRunsConfig constantSummarizer ⟨[]⟩ 1 () =
        (.compacted 2 view, seam) ∧
      (view.deleteIds [untrustedFirst.id]).2.spans.map (·.spanId) = [spanId 1] ∧
      (view.deleteIds [untrustedFirst.id]).2.resolveSummary (spanId 1) = .ok "summary" :=
    ⟨_, _, rfl, by decide +kernel, rfl⟩
  obtain ⟨view, seam, hrun, hspans, hresolve⟩ := hrun
  refine ⟨view, seam, hrun, summarizedFrom_twoRuns rfl hrun, hresolve, .inl ?_⟩
  exact mem_map.mp (hspans ▸ mem_singleton_self _)

theorem hitBy_append (span : CompressedSpan) (ids more : List String) :
    span.hitBy (ids ++ more) = (span.hitBy ids || span.hitBy more) := by
  simp only [CompressedSpan.hitBy, contains_eq_mem, mem_append]
  grind

theorem deleteIds_append (view : CompressedView) (ids more : List String) :
    ((view.deleteIds ids).2.deleteIds more).2 = (view.deleteIds (ids ++ more)).2 := by
  simp only [CompressedView.deleteIds, filter_filter, foldl_append, hitBy_append, Bool.not_or,
    CompressedView.mk.injEq, and_true]
  refine ⟨filter_congr fun record _ => ?_, filter_congr fun span _ => Bool.and_comm _ _⟩
  rw [Bool.eq_iff_iff]
  simp only [contains_eq_mem, Bool.and_eq_true, Bool.not_eq_true',
    decide_eq_false_iff_not, mem_map, mem_filter, mem_append, Bool.or_eq_true]
  grind

/-- Deletions one after the other leave what one deletion of all their ids leaves. -/
theorem deletions_batched (view : CompressedView) (calls : List (List String)) :
    calls.foldl (fun view ids => (view.deleteIds ids).2) view =
      (view.deleteIds calls.flatten).2 := by
  induction calls generalizing view with
  | nil => simp [CompressedView.deleteIds, CompressedSpan.hitBy, any_eq]
  | cons ids calls ih => rw [foldl_cons, ih, deleteIds_append, flatten_cons]

end BittyAi.Runtime
