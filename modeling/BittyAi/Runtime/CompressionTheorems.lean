/-
BittyAi.Runtime.CompressionTheorems — what the selective driver selects and what a pass that
succeeds has done.
-/
import BittyAi.Runtime.Compression
import BittyAi.Runtime.ContextTheorems

namespace BittyAi.Runtime

open Lib Exiting
open List hiding span

/-! ## Marks -/

theorem restrictiveness_mostRestrictive (a b : RetentionClass) :
    (a.mostRestrictive b).restrictiveness = max a.restrictiveness b.restrictiveness := by
  cases a <;> cases b <;> rfl

theorem le_inheritRetention_iff {ids : List String} {tags : RetentionTags} {rank : Nat}
    (hids : ids ≠ []) :
    rank ≤ (inheritRetention ids tags).restrictiveness ↔
      ∃ id ∈ ids, rank ≤ (tags.get id).restrictiveness := by
  obtain ⟨id, rest, rfl⟩ := exists_cons_of_ne_nil hids
  have hfold : ∀ (rest : List String) (acc : RetentionClass),
      rank ≤
          (rest.foldl (fun acc next => acc.mostRestrictive (tags.get next)) acc).restrictiveness ↔
        rank ≤ acc.restrictiveness ∨ ∃ id ∈ rest, rank ≤ (tags.get id).restrictiveness := by
    intro rest
    induction rest with
    | nil => intro acc; simp
    | cons next rest ih =>
      intro acc
      simp only [foldl_cons, ih, restrictiveness_mostRestrictive, le_max_iff,
        mem_cons, exists_eq_or_imp, or_assoc]
  simp only [inheritRetention, hfold, mem_cons, exists_eq_or_imp]

theorem sourceDeadline_le_iff {covered : List ContextRecord} {nowMs deadline : Nat}
    (hcovered : covered ≠ []) :
    (covered.map (·.collectedAtMs)).min?.getD nowMs ≤ deadline ↔
      ∃ record ∈ covered, record.collectedAtMs ≤ deadline := by
  obtain ⟨least, hleast⟩ : ∃ least, (covered.map (·.collectedAtMs)).min? = some least := by
    cases hmin : (covered.map (·.collectedAtMs)).min? with
    | none => simp [min?_eq_none_iff, hcovered] at hmin
    | some least => exact ⟨least, rfl⟩
  obtain ⟨hmem, hle⟩ := min?_eq_some_iff.mp hleast
  rw [hleast, Option.getD_some]
  constructor
  · intro hdeadline
    obtain ⟨record, hrecord, rfl⟩ := mem_map.mp hmem
    exact ⟨record, hrecord, hdeadline⟩
  · rintro ⟨record, hrecord, hdeadline⟩
    exact (hle _ (mem_map_of_mem hrecord)).trans hdeadline

theorem untrustedCount_pos_iff {covered : List ContextRecord} :
    (covered.filter (·.isUntrustedSurface)).length > 0 ↔
      ∃ record ∈ covered, record.isUntrustedSurface = true := by
  rw [gt_iff_lt, length_pos_iff_exists_mem]
  simp only [mem_filter]

theorem spanId_inj {m n : Nat} : spanId m = spanId n ↔ m = n := by
  rw [spanId, spanId, String.append_right_inj, zeroPadded_inj]

/-! ## Selection -/

/-- The record at `index` is not protected, something newer is kept, and the
newer records already fill the tail budget. -/
def leftBehind (keepRecentBytes : Nat) (protectedIds : List String)
    (records : List ContextRecord) (index : Nat) : Bool :=
  match records.drop index with
  | [] => false
  | record :: newer =>
    !protectedIds.contains record.id && !newer.isEmpty &&
      decide (keepRecentBytes ≤ (newer.map (·.footprintBytes)).sum)

/-- The newest-first loop over the records from `index` on. -/
def recentFrom (keepRecentBytes : Nat) (protectedIds : List String) (records : List ContextRecord)
    (index : Nat) : RecentLoop :=
  (records.zipIdx index).reverse.foldl (recentStep keepRecentBytes protectedIds) ⟨[], 0⟩

section Selection

variable {keep : Nat} {protectedIds : List String}

theorem recentFrom_cons (record : ContextRecord) (newer : List ContextRecord) (index : Nat) :
    recentFrom keep protectedIds (record :: newer) index =
      recentStep keep protectedIds (recentFrom keep protectedIds newer (index + 1))
        (record, index) := by
  simp [recentFrom, zipIdx_cons, foldl_append]

theorem recentFrom_kept (records : List ContextRecord) (index : Nat) :
    let loop := recentFrom keep protectedIds records index
    (loop.recentDescending = [] ↔ records = []) ∧
      loop.keptBytes ≤ (records.map (·.footprintBytes)).sum ∧
      (loop.keptBytes = (records.map (·.footprintBytes)).sum ∨ keep ≤ loop.keptBytes) := by
  induction records generalizing index with
  | nil => simp [recentFrom]
  | cons record newer ih =>
    obtain ⟨hempty, hle, hkept⟩ := ih (index + 1)
    rw [recentFrom_cons, recentStep]
    simp only [minKeepRecords, ge_iff_le, Bool.and_eq_true, Bool.not_eq_true', decide_eq_true_eq,
      map_cons, sum_cons]
    split
    · rename_i hskip
      have hne : (recentFrom keep protectedIds newer (index + 1)).recentDescending ≠ [] :=
        ne_nil_of_length_pos hskip.2.1
      simp only [hne, reduceCtorEq, true_and]
      omega
    · simp only [append_eq_nil_iff, cons_ne_self, and_false, reduceCtorEq, true_and]
      omega

theorem recentStep_skips_iff (record : ContextRecord) (newer : List ContextRecord) (index : Nat) :
    (protectedIds.contains record.id = false ∧
        minKeepRecords ≤ (recentFrom keep protectedIds newer index).recentDescending.length ∧
        keep ≤ (recentFrom keep protectedIds newer index).keptBytes) ↔
      leftBehind keep protectedIds (record :: newer) 0 = true := by
  obtain ⟨hempty, hle, hkept⟩ := @recentFrom_kept keep protectedIds newer index
  have hlength :
      minKeepRecords ≤ (recentFrom keep protectedIds newer index).recentDescending.length ↔
      newer.isEmpty = false := by
    rw [minKeepRecords, Nat.succ_le_iff, length_pos_iff, ne_eq, hempty]
    simp
  have hbytes : keep ≤ (recentFrom keep protectedIds newer index).keptBytes ↔
      keep ≤ (newer.map (·.footprintBytes)).sum := by omega
  rw [hlength, hbytes]
  simp [leftBehind, and_assoc]

theorem leftBehind_cons_succ (record : ContextRecord) (newer : List ContextRecord) (index : Nat) :
    leftBehind keep protectedIds (record :: newer) (index + 1) =
      leftBehind keep protectedIds newer index := by
  simp [leftBehind]

theorem reverse_recentFrom (records : List ContextRecord) (index : Nat) :
    (recentFrom keep protectedIds records index).recentDescending.reverse =
      (range' index records.length).filter fun i =>
        !leftBehind keep protectedIds records (i - index) := by
  induction records generalizing index with
  | nil => rfl
  | cons record newer ih =>
    have htail : (range' (index + 1) newer.length).filter
          (fun i => !leftBehind keep protectedIds (record :: newer) (i - index)) =
        (range' (index + 1) newer.length).filter
          (fun i => !leftBehind keep protectedIds newer (i - (index + 1))) := by
      refine filter_congr fun i hi => ?_
      obtain ⟨k, rfl⟩ := Nat.exists_eq_add_of_le (mem_range'_1.mp hi).1
      rw [show index + 1 + k - index = k + 1 by omega, Nat.add_sub_cancel_left,
        leftBehind_cons_succ]
    have hskip := @recentStep_skips_iff keep protectedIds record newer (index + 1)
    rw [recentFrom_cons, recentStep, length_cons, range'_succ, filter_cons, htail,
      ← ih (index + 1), Nat.sub_self]
    simp only [ge_iff_le, Bool.and_eq_true, Bool.not_eq_true', decide_eq_true_eq, hskip]
    cases leftBehind keep protectedIds (record :: newer) 0 <;> simp

theorem headIndices_filter {indices : List Nat} (hnodup : indices.Nodup) (p : Nat → Bool) :
    headIndices indices (indices.filter p) = indices.filter fun i => !p i := by
  induction indices with
  | nil => rfl
  | cons index rest ih =>
    obtain ⟨hnotMem, hrest⟩ := nodup_cons.mp hnodup
    cases hp : p index with
    | true => simp [headIndices, hp, ih hrest]
    | false =>
      have hnext : ∀ recent, recent = rest.filter p →
          headIndices (index :: rest) recent = index :: headIndices rest recent := by
        intro recent hrecent
        cases recent with
        | nil => rfl
        | cons next recent =>
          have hmem : next ∈ rest := mem_of_mem_filter (hrecent ▸ mem_cons_self)
          have hne : next ≠ index := fun heq => hnotMem (heq ▸ hmem)
          simp [headIndices, hne]
      rw [filter_cons_of_neg (by simp [hp]), hnext _ rfl, ih hrest,
        filter_cons_of_pos (by simp [hp])]

end Selection

def headOf (records : List ContextRecord) (config : SelectiveCompactionConfig) : List Nat :=
  (range records.length).filter (leftBehind config.keepRecentBytes config.protectedIds records)

@[simp] theorem liftContext_eq_ok {x : Except ContextError Unit} :
    liftContext x = .ok () ↔ x = .ok () := by
  rcases x with _ | ⟨⟩ <;> simp [liftContext]

variable {records : List ContextRecord}

theorem checkWindow_ok {generation : Option Nat}
    (h : checkWindow records generation = .ok ()) : (records.map (·.id)).Nodup := by
  unfold checkWindow at h
  split at h
  · cases h
  · split at h
    · cases h
    · split at h
      · cases h
      next hdistinct => exact (rejectDuplicateIds_ok hdistinct).1

theorem selectCompactionWindow_ok {config : SelectiveCompactionConfig} {window : CompactionWindow}
    (h : selectCompactionWindow records config.keepRecentBytes config.protectedIds
      config.currentGeneration = .ok window) :
    checkWindow records config.currentGeneration = .ok () ∧ window.head = headOf records config ∧
      window.recent = (range records.length).filter fun i =>
        !leftBehind config.keepRecentBytes config.protectedIds records i := by
  unfold selectCompactionWindow at h
  split at h
  · cases h
  next hcheck =>
    have hrecent := @reverse_recentFrom config.keepRecentBytes config.protectedIds records 0
    simp only [Nat.sub_zero, ← range_eq_range'] at hrecent
    have hhead := headIndices_filter (nodup_range (n := records.length)) fun i =>
      !leftBehind config.keepRecentBytes config.protectedIds records i
    rw [← hrecent] at hhead
    simp only [Bool.not_not] at hhead
    cases h
    exact ⟨liftContext_eq_ok.mp hcheck, hhead, hrecent⟩

/-! ## The pass -/

/-- One range of a pass that succeeded: what it covered, the previous summary the
summarizer was given and the summary it answered. -/
structure SpanStep where
  spanIndex : Nat
  first : ContextRecord
  rest : List ContextRecord
  previous : Option String
  summary : String

namespace SpanStep

def covered (step : SpanStep) : List ContextRecord := step.first :: step.rest

def call (nowMs : Nat) (step : SpanStep) : SummarizeCall where
  input := spanInput step.spanIndex step.covered nowMs step.previous
  answer := .ok step.summary

def span (tags : RetentionTags) (nowMs : Nat) (step : SpanStep) : CompressedSpan :=
  compressedSpan tags nowMs step.spanIndex step.covered step.summary

def synthetic (nowMs : Nat) (step : SpanStep) : ContextRecord :=
  syntheticRecord nowMs step.spanIndex step.first step.covered step.summary

/-- Each step is given the summary of the step before it, the first one `previous`. -/
def Linked : Option String → List SpanStep → Prop
  | _, [] => True
  | previous, step :: rest => step.previous = previous ∧ Linked (some step.summary) rest

def carried : Option String → List SpanStep → Option String
  | previous, [] => previous
  | _, step :: rest => carried (some step.summary) rest

theorem Linked.concat {seed : Option String} {steps : List SpanStep} {step : SpanStep}
    (h : Linked seed steps) (hstep : step.previous = carried seed steps) :
    Linked seed (steps ++ [step]) := by
  induction steps generalizing seed with
  | nil => exact ⟨hstep, trivial⟩
  | cons head rest ih => exact ⟨h.1, ih h.2 hstep⟩

@[simp] theorem carried_concat (seed : Option String) (steps : List SpanStep) (step : SpanStep) :
    carried seed (steps ++ [step]) = some step.summary := by
  induction steps generalizing seed with
  | nil => rfl
  | cons head rest ih => exact ih (some head.summary)

theorem Linked.previous_eq {seed : Option String} {steps : List SpanStep} (h : Linked seed steps)
    {k : Nat} {step next : SpanStep} (hstep : steps[k]? = some step)
    (hnext : steps[k + 1]? = some next) : next.previous = some step.summary := by
  induction steps generalizing seed k with
  | nil => simp at hstep
  | cons head rest ih =>
    cases k with
    | zero =>
      cases rest with
      | nil => simp at hnext
      | cons second rest =>
        simp only [getElem?_cons_zero, getElem?_cons_succ, Option.some.injEq] at hstep hnext
        subst hstep hnext
        exact h.2.1
    | succ k => exact ih h.2 (by simpa using hstep) (by simpa using hnext)

end SpanStep

open SpanStep

section Pass

variable {E : Type} {records : List ContextRecord} {summarizer : Summarizer E}
  {tags : RetentionTags} {nowMs : Nat} {seed : Option String}

def loopAfter (tags : RetentionTags) (nowMs : Nat) (seed : Option String) (steps : List SpanStep) :
    SpanLoop where
  spans := steps.map (span tags nowMs)
  synthetic := steps.map (synthetic nowMs)
  nextPrevious := some (carried seed steps)

/-- Steps of a pass over `ranges`: linked, one per range in order, under ids no
source record has. -/
structure Walk (records : List ContextRecord) (seed : Option String)
    (ranges : List (SpanRange × Nat)) (steps : List SpanStep) : Prop where
  linked : Linked seed steps
  ranged : steps.map (fun step => (step.covered, step.spanIndex)) =
    ranges.map fun entry => (entry.1.covered records, entry.2)
  fresh : ∀ step ∈ steps, ∀ record ∈ records, record.id ≠ spanId step.spanIndex

variable {ranges : List SpanRange} {seam : Seam E} {generation : Option Nat}

theorem wp_summarize {input : SummarizeInput} {Q : String → Seam E → Prop}
    (h : ∀ text env, Q text ⟨env, seam.calls ++ [⟨input, .ok text⟩]⟩) :
    wp (summarize summarizer input) Q (fun _ _ => True) seam := by
  unfold wp summarize
  rcases summarizer seam.env input with ⟨e | text, env⟩
  · trivial
  · exact h text env

theorem wp_compressSpan {walked : List (SpanRange × Nat)} {steps : List SpanStep}
    (hwalk : Walk records seed walked steps) {entry : SpanRange × Nat}
    (hentry : entry.1.covered records ≠ [])
    (hcalls : seam.calls = steps.map (call nowMs)) :
    wp (compressSpan records summarizer tags nowMs (loopAfter tags nowMs seed steps) entry)
      (fun acc seam' => ∃ steps', Walk records seed (walked ++ [entry]) steps' ∧
        acc = loopAfter tags nowMs seed steps' ∧ seam'.calls = steps'.map (call nowMs))
      (fun _ _ => True) seam := by
  obtain ⟨first, rest, hcovered⟩ := exists_cons_of_ne_nil hentry
  unfold compressSpan
  simp only [hcovered]
  split
  · exact wp_exit.mpr trivial
  · split
    · exact wp_exit.mpr trivial
    · rename_i hfresh
      rw [wp_bind]
      refine wp_summarize fun summary env => ?_
      split
      · exact wp_exit.mpr trivial
      · split
        · exact wp_exit.mpr trivial
        · let step : SpanStep := ⟨entry.2, first, rest, carried seed steps, summary⟩
          rw [wp_pure]
          refine ⟨steps ++ [step], ⟨hwalk.linked.concat rfl, ?_, ?_⟩, ?_, ?_⟩
          · rw [map_append, map_append, hwalk.ranged]
            simp [step, covered, hcovered]
          · simp only [any_eq_true, beq_iff_eq, not_exists, not_and] at hfresh
            exact forall_mem_append.mpr ⟨hwalk.fresh, forall_mem_singleton.mpr hfresh⟩
          · simp [loopAfter, step, span, synthetic, covered]
          · simp [hcalls, step, call, covered, loopAfter]

theorem wp_spanLoop {ranges : List (SpanRange × Nat)}
    (hranges : ∀ entry ∈ ranges, entry.1.covered records ≠ []) {env : E} :
    wp
      (Exiting.each (compressSpan records summarizer tags nowMs) ranges ⟨[], [], some seed⟩)
      (fun acc seam => ∃ steps, Walk records seed ranges steps ∧
        acc = loopAfter tags nowMs seed steps ∧ seam.calls = steps.map (call nowMs))
      (fun _ _ => True) ⟨env, []⟩ := by
  -- the invariant: the ranges already walked are a walk, the rest is still to come
  let I : List (SpanRange × Nat) → SpanLoop → Seam E → Prop := fun rest acc seam =>
    ∃ walked steps, walked ++ rest = ranges ∧ Walk records seed walked steps ∧
      acc = loopAfter tags nowMs seed steps ∧ seam.calls = steps.map (call nowMs)
  have hstep : ∀ entry rest acc seam, I (entry :: rest) acc seam →
      wp (compressSpan records summarizer tags nowMs acc entry) (I rest)
        (fun _ _ => True) seam := by
    rintro entry rest acc seam ⟨walked, steps, hall, hwalk, rfl, hcalls⟩
    have hentry : entry ∈ ranges := hall ▸ mem_append_right _ mem_cons_self
    refine wp_mono (wp_compressSpan hwalk (hranges entry hentry) hcalls) ?_ fun _ _ h => h
    rintro acc' seam' ⟨steps', hwalk', hacc, hcalls'⟩
    exact ⟨walked ++ [entry], steps', by simp [← hall], hwalk', hacc, hcalls'⟩
  have hinit : I ranges ⟨[], [], some seed⟩ ⟨env, []⟩ :=
    ⟨[], [], rfl, ⟨trivial, rfl, by simp⟩, rfl, rfl⟩
  refine wp_mono (wp_each hstep ranges _ _ hinit) ?_ fun _ _ h => h
  rintro acc seam ⟨walked, steps, hall, hwalk, hacc, hcalls⟩
  rw [append_nil] at hall
  exact ⟨steps, hall ▸ hwalk, hacc, hcalls⟩

theorem validateRangesFrom_cons {count cursor : Nat} {range : SpanRange} {rest : List SpanRange} :
    validateRangesFrom count cursor (range :: rest) = .ok () ↔
      range.start < range.stop ∧ range.stop ≤ count ∧ cursor ≤ range.start ∧
        validateRangesFrom count range.stop rest = .ok () := by
  rw [validateRangesFrom]
  split
  · rename_i hempty
    simp only [SpanRange.isEmpty, decide_eq_true_eq] at hempty
    simp only [reduceCtorEq, false_iff, not_and]
    omega
  · rename_i hempty
    simp only [SpanRange.isEmpty, decide_eq_true_eq] at hempty
    split
    · simp only [reduceCtorEq, false_iff, not_and]
      omega
    · split
      · simp only [reduceCtorEq, false_iff, not_and]
        omega
      · constructor
        · intro h
          exact ⟨by omega, by omega, by omega, h⟩
        · exact fun h => h.2.2.2

theorem covered_ne_nil_of_validateRangesFrom {cursor : Nat}
    (h : validateRangesFrom records.length cursor ranges = .ok ()) :
    ∀ range ∈ ranges, range.covered records ≠ [] := by
  induction ranges generalizing cursor with
  | nil => simp
  | cons range rest ih =>
    obtain ⟨hstart, hstop, -, hrest⟩ := validateRangesFrom_cons.mp h
    refine forall_mem_cons.mpr ⟨?_, ih hrest⟩
    rw [← length_pos_iff, SpanRange.covered, length_take, length_drop]
    omega

theorem mem_splice_of_mem_synthetic {skip index : Nat} {records synthetic : List ContextRecord}
    (hvalid : validateRangesFrom (index + records.length) (index + skip) ranges = .ok ())
    (hlength : synthetic.length = ranges.length) :
    ∀ summary ∈ synthetic, summary ∈ splice skip index records ranges synthetic := by
  induction records generalizing skip index ranges synthetic with
  | nil =>
    cases ranges with
    | nil => simp [length_eq_zero_iff.mp hlength]
    | cons range ranges =>
      obtain ⟨hstart, hstop, hcursor, -⟩ := validateRangesFrom_cons.mp hvalid
      simp only [length_nil] at hstop
      omega
  | cons record records ih =>
    rw [length_cons, show index + (records.length + 1) = index + 1 + records.length by omega]
      at hvalid
    cases skip with
    | succ skip =>
      rw [splice]
      rw [show index + (skip + 1) = index + 1 + skip by omega] at hvalid
      exact ih hvalid hlength
    | zero =>
      cases ranges with
      | nil => simp [length_eq_zero_iff.mp hlength]
      | cons range ranges =>
        obtain ⟨first, synthetic, rfl⟩ := exists_cons_of_length_eq_add_one hlength
        obtain ⟨hstart, hstop, hcursor, hrest⟩ := validateRangesFrom_cons.mp hvalid
        simp only [length_cons, Nat.add_right_cancel_iff] at hlength
        rw [splice]
        split
        · intro summary hsummary
          rcases mem_cons.mp hsummary with rfl | hmem
          · exact mem_cons_self
          · refine mem_cons_of_mem _ (ih ?_ hlength summary hmem)
            rwa [show index + 1 + (range.stop - range.start - 1) = range.stop by omega]
        · intro summary hsummary
          refine mem_cons_of_mem _ (ih ?_ (by simpa using hlength) summary hsummary)
          exact validateRangesFrom_cons.mpr ⟨hstart, hstop, by omega, hrest⟩

theorem mem_of_mem_splice {skip index : Nat} {records synthetic : List ContextRecord}
    {record : ContextRecord}
    (h : record ∈ splice skip index records ranges synthetic) :
    record ∈ records ∨ record ∈ synthetic := by
  fun_induction splice skip index records ranges synthetic with
  | case1 => simp at h
  | case2 skip index head records ranges synthetic ih => exact (ih h).imp_left (mem_cons_of_mem _)
  | case3 head records range ranges summary synthetic ih =>
    rcases mem_cons.mp h with rfl | h
    · exact .inr mem_cons_self
    · exact (ih h).imp (mem_cons_of_mem _) (mem_cons_of_mem _)
  | case4 index head records range ranges summary synthetic heq ih
  | case5 index head records ranges synthetic hnone ih =>
    rcases mem_cons.mp h with rfl | h
    · exact .inl mem_cons_self
    · exact (ih h).imp_left (mem_cons_of_mem _)

theorem checkCompression_ok (h : checkCompression records ranges generation = .ok ()) :
    validateAll records = .ok () ∧ validateRangesFrom records.length 0 ranges = .ok () := by
  unfold checkCompression at h
  split at h
  · cases h
  · split at h
    · cases h
    next hvalid =>
    split at h
    · cases h
    next hranges =>
      unfold validateRanges at hranges
      split at hranges
      · cases hranges
      · exact ⟨liftContext_eq_ok.mp hvalid, hranges⟩

def headRuns (records : List ContextRecord) (config : SelectiveCompactionConfig) : List SpanRange :=
  contiguousRuns (headOf records config)

/-- What a successful pass over `ranges` hands back: a walk, and the view and the
calls read off it. -/
structure Passed (records : List ContextRecord) (ranges : List SpanRange) (tags : RetentionTags)
    (nowMs : Nat) (seed : Option String) (view : CompressedView) (calls : List SummarizeCall)
    (steps : List SpanStep) : Prop where
  walk : Walk records seed ranges.zipIdx steps
  valid : validateRangesFrom records.length 0 ranges = .ok ()
  records_eq : view.records = splice 0 0 records ranges (steps.map (synthetic nowMs))
  spans_eq : view.spans = steps.map (span tags nowMs)
  calls_eq : calls = steps.map (call nowMs)

theorem wp_compressRangesImpl {env : E} : wp
      (compressRangesImpl records ranges summarizer tags nowMs generation (.chain seed))
      (fun view seam => ∃ steps, Passed records ranges tags nowMs seed view seam.calls steps)
      (fun _ _ => True) ⟨env, []⟩ := by
  unfold compressRangesImpl
  cases hcheck : checkCompression records ranges generation with
  | error e => exact wp_exit.mpr trivial
  | ok _ =>
    have hvalid := (checkCompression_ok hcheck).2
    have hcovers : ∀ entry ∈ ranges.zipIdx, entry.1.covered records ≠ [] := fun entry hentry =>
      covered_ne_nil_of_validateRangesFrom hvalid entry.1 (fst_mem_of_mem_zipIdx hentry)
    rw [wp_bind]
    refine wp_mono (wp_spanLoop hcovers) ?_ fun _ _ h => h
    rintro acc seam ⟨steps, hwalk, rfl, hcalls⟩
    exact wp_pure.mpr ⟨steps, hwalk, hvalid, rfl, rfl, hcalls⟩

section Driver

variable {config : SelectiveCompactionConfig} {env : E} {spanCount : Nat} {view : CompressedView}
  (h : compactSelective records config summarizer tags nowMs env =
    (.compacted spanCount view, seam))

include h

theorem compactSelective_run : ∃ window, selectCompactionWindow records config.keepRecentBytes
      config.protectedIds config.currentGeneration = .ok window ∧
    compressRangesImpl records (contiguousRuns window.head) summarizer tags nowMs
      config.currentGeneration (.chain config.previousSummary) ⟨env, []⟩ = (.ok view, seam) := by
  unfold compactSelective at h
  dsimp only at h
  split at h
  · cases h
  next window hwindow =>
  split at h
  · cases h
  · split at h
    · cases h
    · split at h
      next hpass =>
        cases h
        exact ⟨window, hwindow, hpass⟩
      · cases h

theorem compactSelective_compacted : (records.map (·.id)).Nodup ∧
    ∃ steps, Passed records (headRuns records config) tags nowMs config.previousSummary view
      seam.calls steps := by
  obtain ⟨window, hwindow, hpass⟩ := compactSelective_run h
  obtain ⟨hchecked, hhead, -⟩ := selectCompactionWindow_ok hwindow
  rw [hhead, ← headRuns] at hpass
  exact ⟨checkWindow_ok hchecked, of_wp_ok wp_compressRangesImpl hpass⟩

end Driver

namespace Passed

variable {ranges : List SpanRange} {view : CompressedView} {calls : List SummarizeCall}
  {steps : List SpanStep} {k : Nat} (h : Passed records ranges tags nowMs seed view calls steps)

include h

theorem step_at
    {step : SpanStep} (hstep : steps[k]? = some step) :
    step.spanIndex = k ∧
      ∃ range, ranges[k]? = some range ∧ step.covered = range.covered records := by
  have hat := congrArg (·[k]?) h.walk.ranged
  simp only [getElem?_map, hstep, Option.map_some, getElem?_zipIdx, Nat.zero_add] at hat
  cases hrange : ranges[k]? with
  | none => simp [hrange] at hat
  | some range =>
    simp only [hrange, Option.map_some, Option.some.injEq, Prod.mk.injEq] at hat
    exact ⟨hat.2, range, rfl, hat.1⟩

theorem exists_step
    {range : SpanRange} (hrange : ranges[k]? = some range) :
    ∃ step, steps[k]? = some step ∧ step.covered = range.covered records := by
  have hlength := congrArg List.length h.walk.ranged
  simp only [List.length_map, List.length_zipIdx] at hlength
  obtain ⟨hk, -⟩ := List.getElem?_eq_some_iff.mp hrange
  obtain ⟨step, hstep⟩ : ∃ step, steps[k]? = some step :=
    ⟨_, List.getElem?_eq_getElem (hlength ▸ hk)⟩
  obtain ⟨-, range', hrange', hcovered⟩ := h.step_at hstep
  rw [hrange, Option.some.injEq] at hrange'
  exact ⟨step, hstep, hrange' ▸ hcovered⟩

theorem step_unique
    {step other : SpanStep} (hstep : steps[k]? = some step) (hother : other ∈ steps)
    (hid : spanId other.spanIndex = spanId k) : other = step := by
  obtain ⟨m, hm⟩ := getElem?_of_mem hother
  have hmk : m = k := (h.step_at hm).1 ▸ spanId_inj.mp hid
  rw [hmk, hstep, Option.some.injEq] at hm
  exact hm.symm

theorem mem_records_id_iff
    {step : SpanStep} (hstep : steps[k]? = some step) (record : ContextRecord) :
    record ∈ view.records ∧ record.id = spanId k ↔ record = step.synthetic nowMs := by
  have hlength := congrArg length h.walk.ranged
  simp only [length_map, length_zipIdx] at hlength
  obtain ⟨hindex, -⟩ := h.step_at hstep
  rw [h.records_eq]
  constructor
  · rintro ⟨hmem, hid⟩
    rcases mem_of_mem_splice hmem with hsource | hsynthetic
    · have hfresh := h.walk.fresh step (mem_of_getElem? hstep) record hsource
      exact absurd (hindex ▸ hid) hfresh
    · obtain ⟨other, hother, rfl⟩ := mem_map.mp hsynthetic
      rw [h.step_unique hstep hother hid]
  · rintro rfl
    refine ⟨mem_splice_of_mem_synthetic (by simpa using h.valid) (by simp [hlength]) _
      (mem_map_of_mem (mem_of_getElem? hstep)), ?_⟩
    simp [synthetic, syntheticRecord, hindex]

end Passed

end Pass

/-! ## Views

What holds of every view that a selective pass returns: it has no tombstones, it keeps the tags it
was given, its records are valid and its spans have different ids. -/

variable {E : Type} {records : List ContextRecord} {ranges : List SpanRange}
  {summarizer : Summarizer E} {tags : RetentionTags} {nowMs : Nat}

/-! ## Records -/

theorem validate_syntheticRecord {spanIndex : Nat} {first : ContextRecord}
    {covered : List ContextRecord} {summary : String} (hfirst : first.validate = .ok ())
    (hsummary : ¬summary.utf8ByteSize > maxSummaryBytes) :
    (syntheticRecord nowMs spanIndex first covered summary).validate = .ok () := by
  unfold ContextRecord.validate at hfirst
  split at hfirst
  · cases hfirst
  · rename_i hprovider
    simp [ContextRecord.validate, syntheticRecord, not_not.mp hprovider, not_lt.mp hsummary,
      maxRecordBodyBytes]

theorem wp_compressSpan_valid (hrecords : ∀ record ∈ records, record.validate = .ok ())
    {acc : SpanLoop} (hacc : ∀ record ∈ acc.synthetic, record.validate = .ok ())
    (entry : SpanRange × Nat) (seam : Seam E) :
    wp (compressSpan records summarizer tags nowMs acc entry)
      (fun acc' _ => ∀ record ∈ acc'.synthetic, record.validate = .ok ()) (fun _ _ => True)
      seam := by
  unfold compressSpan
  cases hcovered : entry.1.covered records with
  | nil =>
    dsimp only
    split
    · exact wp_exit.mpr trivial
    · split
      · exact wp_exit.mpr trivial
      · exact wp_pure.mpr hacc
  | cons first rest =>
    have hfirst : first ∈ records := by
      have hmem : first ∈ entry.1.covered records := by
        rw [hcovered]
        exact mem_cons_self
      exact mem_of_mem_drop (mem_of_mem_take hmem)
    dsimp only
    split
    · exact wp_exit.mpr trivial
    · split
      · exact wp_exit.mpr trivial
      · rw [wp_bind]
        refine wp_summarize fun summary env => ?_
        split
        · exact wp_exit.mpr trivial
        · split
          · exact wp_exit.mpr trivial
          · rename_i hsummary
            refine wp_pure.mpr (forall_mem_append.mpr ⟨hacc, forall_mem_singleton.mpr ?_⟩)
            exact validate_syntheticRecord (hrecords first hfirst) hsummary

variable {generation : Option Nat} {view : CompressedView}

theorem wp_compressRangesImpl_view {previous : PreviousMode}
    (seam : Seam E) :
    wp (compressRangesImpl records ranges summarizer tags nowMs generation previous)
      (fun view _ => view.tombstones = [] ∧ view.tags = tags ∧
        ∀ record ∈ view.records, record.validate = .ok ())
      (fun _ _ => True) seam := by
  unfold compressRangesImpl
  cases hcheck : checkCompression records ranges generation with
  | error e => exact wp_exit.mpr trivial
  | ok _ =>
    have hrecords := validateAll_ok (checkCompression_ok hcheck).1
    rw [wp_bind]
    have hloop := wp_each (I := fun _ acc _ =>
        ∀ record ∈ acc.synthetic, record.validate = .ok ())
      (fun entry _ acc seam hacc => @wp_compressSpan_valid E records summarizer tags nowMs hrecords
        acc hacc entry seam)
      ranges.zipIdx ⟨[], [], previous.start⟩ seam nofun
    refine wp_mono hloop (fun done seam' hdone => ?_) fun _ _ h => h
    refine wp_pure.mpr ⟨rfl, rfl, fun record hrecord => ?_⟩
    rcases mem_of_mem_splice hrecord with hsource | hsynthetic
    · exact hrecords record hsource
    · exact hdone record hsynthetic

/-! ## Spans -/

theorem Passed.nodup_spanIds {seed : Option String}
    {calls : List SummarizeCall} {steps : List SpanStep}
    (h : Passed records ranges tags nowMs seed view calls steps) :
    (view.spans.map (·.spanId)).Nodup := by
  have hindices : steps.map (·.spanIndex) = range' 0 ranges.length := by
    have hranged := congrArg (map Prod.snd) h.walk.ranged
    rw [map_map, map_map] at hranged
    exact hranged.trans (zipIdx_map_snd 0 ranges)
  have hids : view.spans.map (·.spanId) = (steps.map (·.spanIndex)).map spanId := by
    rw [h.spans_eq, map_map, map_map]
    rfl
  rw [hids, hindices]
  exact List.Nodup.map (fun m n hmn => spanId_inj.mp hmn) nodup_range'

structure CompactedView (tags : RetentionTags) (view : CompressedView) : Prop where
  tombstones : view.tombstones = []
  tags_eq : view.tags = tags
  valid : ∀ record ∈ view.records, record.validate = .ok ()
  spanIds : (view.spans.map (·.spanId)).Nodup

theorem compactSelective_view {config : SelectiveCompactionConfig} {env : E} {spanCount : Nat}
    {seam : Seam E} (h : compactSelective records config summarizer tags nowMs env =
      (.compacted spanCount view, seam)) : CompactedView tags view := by
  obtain ⟨-, steps, hpassed⟩ := compactSelective_compacted h
  have hspans := hpassed.nodup_spanIds
  obtain ⟨window, -, hpass⟩ := compactSelective_run h
  obtain ⟨htombstones, htags, hvalid⟩ := of_wp_ok (wp_compressRangesImpl_view _) hpass
  exact ⟨htombstones, htags, hvalid, hspans⟩

end BittyAi.Runtime
