/-
BittyAi.Slice.CompactionDeletionTheorems — deletion in the compaction store.
-/
import BittyAi.Slice.CompactionStoreTheorems

namespace BittyAi.Slice

open Lib Exiting BittyAi.Runtime Session CompactionStore CompressedSpan KeyedTable
open List

/-! ## Merged tombstones -/

theorem nodup_tombstones (store : CompactionStore) : store.tombstones.rows.Nodup := by
  simpa using store.tombstones.nodup

variable {ids : List String} {store : CompactionStore}

@[simp] theorem mem_mergeTombstones {id : String} :
    id ∈ (store.mergeTombstones ids).tombstones.rows ↔ id ∈ store.tombstones.rows ∨ id ∈ ids :=
  mem_foldl_insertOrIgnore_id

variable {tombstones : List String}

theorem mem_foldl_addTombstone {id : String} :
    id ∈ ids.foldl addTombstone tombstones ↔ id ∈ tombstones ∨ id ∈ ids := by
  induction ids generalizing tombstones with
  | nil => simp
  | cons first rest ih =>
    rw [foldl_cons, ih]
    by_cases hfirst : first ∈ tombstones
    · simp only [addTombstone, hfirst, if_true, mem_cons]
      constructor
      · rintro (hmem | hmem)
        · exact .inl hmem
        · exact .inr (.inr hmem)
      · rintro (hmem | rfl | hmem)
        · exact .inl hmem
        · exact .inl hfirst
        · exact .inr hmem
    · simp [addTombstone, hfirst, or_assoc]

theorem nodup_foldl_addTombstone (h : tombstones.Nodup) :
    (ids.foldl addTombstone tombstones).Nodup := by
  induction ids generalizing tombstones with
  | nil => exact h
  | cons first rest ih =>
    rw [foldl_cons]
    refine ih ?_
    unfold addTombstone
    split
    next => exact h
    next hnew => exact nodup_append.mpr ⟨h, nodup_singleton _, by grind⟩

theorem perm_mergeTombstones (ids : List String) (store : CompactionStore) :
    (store.mergeTombstones ids).tombstones.rows.Perm
      (ids.foldl addTombstone (loadedTombstones store)) := by
  have hsorted : (loadedTombstones store).Nodup :=
    (perm_insertionSort _ _).nodup_iff.mpr (nodup_tombstones store)
  refine (perm_ext_iff_of_nodup (nodup_tombstones _) (nodup_foldl_addTombstone hsorted)).mpr
    fun id => ?_
  rw [mem_mergeTombstones, mem_foldl_addTombstone, mem_loadedTombstones]

/-! ## The stored image -/

/-- The stored records are an image that `serialize_records` wrote. -/
def ImageWritten (store : CompactionStore) : Prop :=
  ∀ image, store.recordsJson = some image → serializeRecords image.records = .ok image

variable {records : List ContextRecord} {image : RecordsImage}

theorem serializeRecords_records
    (h : serializeRecords records = .ok image) : image.records = records := by
  obtain ⟨texts, -, rfl⟩ := serializeRecords_eq_ok.mp h
  rfl

theorem recordTexts_filter (keep : ContextRecord → Bool)
    {texts : List String} (h : recordTexts records = .ok texts) :
    ∃ kept, recordTexts (records.filter keep) = .ok kept ∧ kept.Sublist texts := by
  induction records generalizing texts with
  | nil => exact ⟨[], rfl, nil_sublist _⟩
  | cons record rest ih =>
    unfold recordTexts at h
    cases hbody : record.body with
    | artifact reference => simp [hbody] at h
    | inline bytes =>
      simp only [hbody, bind_eq_ok, pure_eq_ok] at h
      obtain ⟨restTexts, hrest, rfl⟩ := h
      obtain ⟨kept, hkept, hsub⟩ := ih hrest
      cases hkeep : keep record with
      | false =>
        rw [filter_cons_of_neg (by simp [hkeep])]
        exact ⟨kept, hkept, hsub.cons _⟩
      | true =>
        refine ⟨recordJson record bytes :: kept, ?_, hsub.cons_cons _⟩
        rw [filter_cons_of_pos hkeep, recordTexts]
        simp [hbody, hkept]

theorem stripImage_written (tombstones : List String)
    (hwritten : serializeRecords image.records = .ok image)
    (hvalid : validateAll image.records = .ok ()) :
    ∃ image', stripImage tombstones image = .ok image' ∧
      serializeRecords image'.records = .ok image' ∧
      image'.records = (image.records.filter fun record => record.id ∉ tombstones) ∧
      image'.json.length ≤ image.json.length := by
  have hread := deserializeRecords_eq_ok.mpr ⟨hvalid, rfl⟩
  simp only [stripImage, bind_eq_ok, hread, Except.ok.injEq, exists_eq_left']
  split
  next =>
    obtain ⟨texts, htexts, himage⟩ := serializeRecords_eq_ok.mp hwritten
    obtain ⟨kept, hkept, hsub⟩ := recordTexts_filter (fun record => record.id ∉ tombstones) htexts
    have hrewritten := serializeRecords_eq_ok.mpr ⟨kept, hkept, rfl⟩
    refine ⟨_, hrewritten, hrewritten, rfl, ?_⟩
    rw [← himage]
    exact jsonArray_length_le_of_sublist hsub
  next hsame =>
    refine ⟨image, rfl, hwritten, ?_, Nat.le_refl _⟩
    exact (filter_sublist.eq_of_length (not_not.mp hsame)).symm

theorem stripImage_valid {image' : RecordsImage}
    (h : stripImage tombstones image = .ok image') : validateAll image.records = .ok () := by
  simp only [stripImage, bind_eq_ok] at h
  obtain ⟨records, hread, -⟩ := h
  exact (deserializeRecords_eq_ok.mp hread).1

theorem Tombed.rewritten (hwritten : ImageWritten store) (h : Tombed ids store store')
    (hsome : store'.recordsJson = some image) : serializeRecords image.records = .ok image ∧
      ∀ record ∈ image.records, record.id ∉ store'.tombstones.rows := by
  have hstrip := h.records
  cases hjson : store.recordsJson with
  | none =>
    rw [hjson, stripRecords, Except.ok.injEq] at hstrip
    rw [← hstrip] at hsome
    cases hsome
  | some stored =>
    rw [hjson, stripRecords, map_eq_ok] at hstrip
    obtain ⟨image', himage, hstored⟩ := hstrip
    obtain ⟨stripped, hstripped, hrewritten, hrecords, -⟩ :=
      stripImage_written store'.tombstones.rows (hwritten stored hjson) (stripImage_valid himage)
    rw [himage, Except.ok.injEq] at hstripped
    rw [← hstored, Option.some.injEq] at hsome
    rw [← hsome, hstripped]
    refine ⟨hrewritten, fun record hrecord => ?_⟩
    rw [hrecords] at hrecord
    simpa using of_mem_filter hrecord

theorem CompactionCall.wp_imageWritten (call : CompactionCall) (h : ImageWritten store) :
    wp call.run (fun _ => ImageWritten) (fun _ => ImageWritten) store := by
  refine call.wp_invariant (fun hrecorded stored hsome => ?_)
    (fun htombed stored hsome => (Tombed.rewritten h htombed hsome).1) h
  obtain ⟨image, himage, hstored⟩ := hrecorded.records
  rw [hstored, Option.some.injEq] at hsome
  rw [← hsome, serializeRecords_records himage, himage]

theorem ImageWritten.openInMemory : ImageWritten openInMemory := nofun

theorem ImageWritten.serveAll (calls : List CompactionCall) :
    ImageWritten (serveAll calls CompactionStore.openInMemory) :=
  serveAll_invariant (fun call _ h => call.wp_imageWritten h) calls ImageWritten.openInMemory

/-! ## Loading after a deletion -/

theorem insertionSort_filter (table : KeyedTable SpanRow.spanId) (keep : SpanRow → Bool) :
    (table.rows.filter keep).insertionSort (·.spanId ≤ ·.spanId) =
      (table.rows.insertionSort (·.spanId ≤ ·.spanId)).filter keep := by
  have htotal : Std.Total fun a b : SpanRow => a.spanId ≤ b.spanId :=
    ⟨fun a b => le_total a.spanId b.spanId⟩
  have htrans : IsTrans SpanRow fun a b => a.spanId ≤ b.spanId := ⟨fun _ _ _ => le_trans⟩
  refine List.Perm.eq_of_pairwise (fun a b ha hb hab hba => ?_)
    (pairwise_insertionSort _ _) ((pairwise_insertionSort _ _).filter _) ?_
  · have ha' : a ∈ table.rows := mem_of_mem_filter ((mem_insertionSort _).mp ha)
    have hb' : b ∈ table.rows := (mem_insertionSort _).mp (mem_of_mem_filter hb)
    exact inj_on_of_nodup_map table.nodup ha' hb' (le_antisymm hab hba)
  · exact (perm_insertionSort _ _).trans ((perm_insertionSort _ _).filter keep).symm

variable {row : SpanRow}

theorem loadSpan_hitBy {span : CompressedSpan} (h : loadSpan row = .ok span)
    (tombstones : List String) : row.doomed tombstones = span.hitBy tombstones := by
  simp only [loadSpan, bind_eq_ok, pure_eq_ok] at h
  obtain ⟨-, -, -, -, -, -, -, -, -, -, _, -, rfl⟩ := h
  simp [SpanRow.doomed, hitBy, Bool.or_comm]

theorem loadSpans_filter {rows : List SpanRow} {spans : List CompressedSpan}
    (tombstones : List String) (h : loadSpans rows = .ok spans) :
    loadSpans (rows.filter fun row => !row.doomed tombstones) =
      .ok (spans.filter fun span => !span.hitBy tombstones) := by
  induction rows generalizing spans with
  | nil =>
    cases h
    rfl
  | cons row rest ih =>
    simp only [loadSpans, bind_eq_ok, pure_eq_ok] at h
    obtain ⟨span, hspan, others, hothers, rfl⟩ := h
    have hsame := loadSpan_hitBy hspan tombstones
    cases hhit : span.hitBy tombstones with
    | true => simp [hsame, hhit, ih hothers]
    | false => simp [hsame, hhit, loadSpans, hspan, ih hothers]

theorem loadRecordsInner_strip {json json' : Option RecordsImage}
    (hwritten : ∀ image, json = some image → serializeRecords image.records = .ok image)
    (hload : loadRecordsInner json = .ok records) (h : stripRecords tombstones json = .ok json') :
    loadRecordsInner json' = .ok (records.filter fun record => record.id ∉ tombstones) := by
  cases json with
  | none =>
    cases hload
    cases h
    rfl
  | some image =>
    simp only [loadRecordsInner, bind_eq_ok, pure_eq_ok, refuseIf_eq_ok, exists_const,
      deserializeRecords_eq_ok, not_lt] at hload
    obtain ⟨hshort, _, ⟨hvalid, rfl⟩, hcount, rfl⟩ := hload
    obtain ⟨image', hstrip, -, hrecords, hlength⟩ :=
      stripImage_written tombstones (hwritten image rfl) hvalid
    rw [stripRecords, hstrip] at h
    cases h
    have hkept : ∀ record ∈ image'.records, record.validate = .ok () := by
      intro record hrecord
      rw [hrecords] at hrecord
      exact validateAll_ok hvalid record (mem_of_mem_filter hrecord)
    simp only [loadRecordsInner, bind_eq_ok, pure_eq_ok, refuseIf_eq_ok, exists_const,
      deserializeRecords_eq_ok, not_lt]
    refine ⟨hlength.trans hshort, _, ⟨validateAll_of_valid hkept, rfl⟩, ?_, hrecords⟩
    rw [hrecords]
    exact (length_filter_le _ _).trans hcount

variable {store' : CompactionStore} {view : CompressedView}

theorem loadView_tombed (hbounded : Bounded store) (hwritten : ImageWritten store)
    (hload : loadView store = .ok view) (h : Tombed ids store store') :
    ∃ loaded, loadView store' = .ok loaded ∧
      loaded.spans = (view.spans.filter fun span => !span.hitBy ids) ∧
      loaded.records = (view.records.filter fun record => record.id ∉ ids) ∧
      loaded.tombstones = loadedTombstones store' := by
  have hmem : ∀ id, id ∈ store'.tombstones.rows ↔ id ∈ store.tombstones.rows ∨ id ∈ ids := by
    intro id
    rw [h.tombstones, mem_mergeTombstones]
  obtain ⟨hcount, spans, records, tags, hspans, hrecords, htags, rfl⟩ :=
    (loadView_eq_ok hbounded).mp hload
  have hspans' : loadSpans (store'.spans.rows.insertionSort (·.spanId ≤ ·.spanId)) =
      .ok (spans.filter fun span => !span.hitBy store'.tombstones.rows) := by
    rw [h.spans, filter_rows, insertionSort_filter]
    exact loadSpans_filter _ hspans
  have hcount' : store'.spans.rows.length ≤ maxSpans := by
    rw [h.spans, filter_rows]
    exact (length_filter_le _ _).trans hcount
  refine ⟨_, (loadView_eq_ok (hbounded.merge h.checked h.tombstones h.count)).mpr
    ⟨hcount', _, _, tags, hspans', loadRecordsInner_strip hwritten hrecords h.records,
      h.tags ▸ htags, rfl⟩, ?_, ?_, rfl⟩
  · dsimp only
    rw [filter_filter, filter_filter]
    refine filter_congr fun span _ => ?_
    rw [← Bool.not_or, ← Bool.not_or, Bool.not_inj_iff, Bool.eq_iff_iff]
    simp only [hitBy, Bool.or_eq_true, any_eq_true, contains_iff_mem, mem_loadedTombstones, hmem]
    grind
  · dsimp only
    rw [filter_filter, filter_filter]
    refine filter_congr fun record _ => ?_
    simp only [mem_loadedTombstones, hmem]
    grind

/-! ## Deletion in the store and in the view -/

/-- A load returns what `delete_ids` leaves of a view. -/
def DeletesAlike (ids : List String) (view : CompressedView) (store : CompactionStore) : Prop :=
  ∃ loaded, loadView store = .ok loaded ∧ loaded.spans = (view.deleteIds ids).2.spans ∧
    loaded.records = (view.deleteIds ids).2.records ∧
    loaded.tombstones.Perm (view.deleteIds ids).2.tombstones

def NoOrphanedSummary (ids : List String) (view : CompressedView) : Prop :=
  ∀ span ∈ view.spans, span.hitBy ids = true →
    ∀ record ∈ view.records, record.id = span.spanId → record.id ∈ ids

theorem deleteIds_records_eq_iff :
    (view.records.filter fun record => record.id ∉ ids) = (view.deleteIds ids).2.records ↔
      NoOrphanedSummary ids view := by
  dsimp only [CompressedView.deleteIds]
  constructor
  · intro hsame span hspan hhit record hrecord hid
    by_contra hkept
    have hmem : record ∈ view.records.filter fun record => record.id ∉ ids :=
      mem_filter.mpr ⟨hrecord, decide_eq_true hkept⟩
    rw [hsame] at hmem
    have hfree := of_mem_filter hmem
    simp only [Bool.and_eq_true, Bool.not_eq_true', contains_eq_mem, decide_eq_false_iff_not,
      mem_map, mem_filter, not_exists, not_and] at hfree
    exact hfree.2 span ⟨hspan, hhit⟩ hid.symm
  · intro hnone
    refine filter_congr fun record hrecord => ?_
    by_cases hkept : record.id ∈ ids
    · simp [hkept]
    · simp only [hkept, not_false_eq_true, decide_true, contains_eq_mem, decide_false,
        Bool.not_false, Bool.true_and]
      refine (Bool.not_eq_true' _ |>.mpr (decide_eq_false fun hmem => hkept ?_)).symm
      obtain ⟨span, hspan, hid⟩ := mem_map.mp hmem
      obtain ⟨hmem, hhit⟩ := mem_filter.mp hspan
      exact hnone span hmem hhit record hrecord hid.symm

theorem addTombstones_runs (hbounded : Bounded store) (hwritten : ImageWritten store)
    (hload : loadView store = .ok view) (hids : ∀ id ∈ ids, idOutOfBound id = false)
    (hcap : (view.deleteIds ids).2.tombstones.length ≤ maxStoredTombstones) :
    ∃ store', addTombstones ids store = (.ok (), store') := by
  rcases hrun : addTombstones ids store with ⟨e | _, store'⟩
  · obtain ⟨-, _, records, _, -, hrecords, -, rfl⟩ := (loadView_eq_ok hbounded).mp hload
    obtain ⟨-, hbound | hcount | ⟨e, herror⟩⟩ := of_wp_error (addTombstones_spec ids store) hrun
    · obtain ⟨id, hid, hout⟩ := any_eq_true.mp hbound
      rw [hids id hid] at hout
      cases hout
    · rw [(perm_mergeTombstones ids store).length_eq] at hcount
      exact absurd hcap (not_le.mpr hcount)
    · cases hjson : store.recordsJson with
      | none =>
        rw [hjson] at herror
        cases herror
      | some image =>
        rw [hjson] at hrecords herror
        simp only [loadRecordsInner, bind_eq_ok, deserializeRecords_eq_ok] at hrecords
        obtain ⟨-, -, _, ⟨hvalid, -⟩, -⟩ := hrecords
        obtain ⟨image', hstrip, -⟩ := stripImage_written
          (store.mergeTombstones ids).tombstones.rows (hwritten image hjson) hvalid
        rw [stripRecords, hstrip] at herror
        cases herror
  · exact ⟨store', rfl⟩

theorem loadView_added (hbounded : Bounded store) (hwritten : ImageWritten store)
    (hload : loadView store = .ok view) (h : addTombstones ids store = (.ok (), store')) :
    ∃ loaded, loadView store' = .ok loaded ∧
      loaded.spans = (view.spans.filter fun span => !span.hitBy ids) ∧
      loaded.records = (view.records.filter fun record => record.id ∉ ids) ∧
      loaded.tombstones.Perm (view.deleteIds ids).2.tombstones := by
  rcases of_wp_ok (addTombstones_spec ids store) h with ⟨rfl, rfl⟩ | htombed
  · have hnone : ∀ span : CompressedSpan, span.hitBy [] = false := by simp [hitBy]
    exact ⟨view, hload, by simp [hnone], by simp, List.Perm.refl _⟩
  · obtain ⟨loaded, hloaded, hspans, hrecords, htombs⟩ :=
      loadView_tombed hbounded hwritten hload htombed
    refine ⟨loaded, hloaded, hspans, hrecords, ?_⟩
    obtain ⟨-, _, _, _, -, -, -, rfl⟩ := (loadView_eq_ok hbounded).mp hload
    rw [htombs, loadedTombstones, htombed.tombstones]
    exact (perm_insertionSort _ _).trans (perm_mergeTombstones ids store)

/-- Adding tombstones and loading gives what `delete_ids` leaves of the loaded view, exactly
if no record that is not deleted itself bears the id of a span that loses a source. -/
theorem durable_deletion_iff (calls : List CompactionCall) (ids : List String)
    {view : CompressedView} (hload : loadView (serveAll calls openInMemory) = .ok view)
    (hids : ∀ id ∈ ids, idOutOfBound id = false)
    (hcap : (view.deleteIds ids).2.tombstones.length ≤ maxStoredTombstones) :
    (∃ store', addTombstones ids (serveAll calls openInMemory) = (.ok (), store') ∧
      DeletesAlike ids view store') ↔ NoOrphanedSummary ids view := by
  have hbounded := Bounded.openInMemory.serveAll calls
  have hwritten := ImageWritten.serveAll calls
  obtain ⟨store', hrun⟩ := addTombstones_runs hbounded hwritten hload hids hcap
  obtain ⟨loaded, hloaded, hspans, hrecords, htombs⟩ := loadView_added hbounded hwritten hload hrun
  rw [← deleteIds_records_eq_iff, ← hrecords]
  constructor
  · rintro ⟨store'', hrun', loaded', hloaded', -, hrecords', -⟩
    cases hrun.symm.trans hrun'
    cases hloaded.symm.trans hloaded'
    exact hrecords'
  · intro hsame
    exact ⟨store', hrun, loaded, hloaded, hspans, hsame, htombs⟩

def runsRecorded : List CompactionCall := [.recordView twoRunsView]

theorem loadView_runsRecorded : ∃ view, loadView (serveAll runsRecorded openInMemory) = .ok view ∧
      view.records = twoRunsView.records ∧ view.tombstones = [] ∧
      ∀ span, span ∈ view.spans ↔ span ∈ twoRunsView.spans := by
  obtain ⟨seam, hpass⟩ := compactSelective_twoRunsView
  obtain ⟨_, store', hrecord⟩ := exists_run_ok (m := recordView twoRunsView)
    (s := openInMemory) (by decide +kernel)
  obtain ⟨tags, -, hload⟩ := loadView_recorded (compactSelective_view hpass) Bounded.openInMemory
    (of_wp_ok (recordView_spec _ _) hrecord)
  have hserved : serveAll runsRecorded openInMemory = store' := congrArg Prod.snd hrecord
  have hempty : loadedTombstones openInMemory = [] := rfl
  have hnone : ∀ span : CompressedSpan, span.hitBy [] = false := by simp [hitBy]
  refine ⟨_, hserved ▸ (hload _).mpr ⟨imageFits_twoRunsView, rfl⟩, ?_, rfl, fun span => ?_⟩
  · simp [hempty]
  · simp [hempty, hnone]

theorem durable_deletion_with_summary :
    ∃ view store', loadView (serveAll runsRecorded openInMemory) = .ok view ∧
      addTombstones ["a", "cmp-0000"] (serveAll runsRecorded openInMemory) = (.ok (), store') ∧
      DeletesAlike ["a", "cmp-0000"] view store' := by
  obtain ⟨view, hload, hrecords, htombs, hspans⟩ := loadView_runsRecorded
  have hcap : (view.deleteIds ["a", "cmp-0000"]).2.tombstones.length ≤ maxStoredTombstones := by
    dsimp only [CompressedView.deleteIds]
    rw [htombs]
    decide
  have hnone : NoOrphanedSummary ["a", "cmp-0000"] twoRunsView := by
    unfold NoOrphanedSummary
    decide +kernel
  have hview : NoOrphanedSummary ["a", "cmp-0000"] view := by
    intro span hspan hhit record hrecord
    exact hnone span ((hspans span).mp hspan) hhit record (hrecords ▸ hrecord)
  obtain ⟨store', hrun, halike⟩ :=
    (durable_deletion_iff runsRecorded ["a", "cmp-0000"] hload (by decide) hcap).mpr hview
  exact ⟨view, store', hload, hrun, halike⟩

/-- The source `a` is deleted: the span `cmp-0000` made of it goes, its summary stays as a
record. -/
theorem summary_survives_source : ∃ view, loadView (serveAll runsRecorded openInMemory) = .ok view ∧
      (∀ id ∈ ["a"], idOutOfBound id = false) ∧
      (view.deleteIds ["a"]).2.tombstones.length ≤ maxStoredTombstones ∧
      ¬∃ store', addTombstones ["a"] (serveAll runsRecorded openInMemory) = (.ok (), store') ∧
        DeletesAlike ["a"] view store' := by
  obtain ⟨view, hload, hrecords, htombs, hspans⟩ := loadView_runsRecorded
  have hcap : (view.deleteIds ["a"]).2.tombstones.length ≤ maxStoredTombstones := by
    dsimp only [CompressedView.deleteIds]
    rw [htombs]
    decide
  refine ⟨view, hload, by decide, hcap, ?_⟩
  rintro ⟨store', hrun, loaded, hloaded, -, hsame, -⟩
  obtain ⟨loaded', hloaded', -, hkept, -⟩ := loadView_added
    (Bounded.openInMemory.serveAll runsRecorded) (ImageWritten.serveAll runsRecorded) hload hrun
  cases hloaded.symm.trans hloaded'
  have hnone := deleteIds_records_eq_iff.mp (hkept.symm.trans hsame)
  have hsurvivor : ∃ span ∈ twoRunsView.spans, span.hitBy ["a"] = true ∧
      ∃ record ∈ twoRunsView.records, record.id = span.spanId ∧ record.id ∉ ["a"] := by
    decide +kernel
  obtain ⟨span, hspan, hhit, record, hrecord, hid, hfree⟩ := hsurvivor
  exact hfree (hnone span ((hspans span).mpr hspan) hhit record (hrecords ▸ hrecord) hid)

/-! ## Nothing deleted is at rest -/

/-- None of what the tombstones name stands in the store: no record, no span, no source of one. -/
structure NoneAtRest (store : CompactionStore) : Prop where
  records : ∀ image, store.recordsJson = some image →
    ∀ record ∈ image.records, record.id ∉ store.tombstones.rows
  spans : ∀ row ∈ store.spans.rows, row.doomed store.tombstones.rows = false

def WritesSpan (view : CompressedView) (span : CompressedSpan) : Prop :=
  (view.spans.reverse.find? fun other => other.spanId = span.spanId) = some span

/-- No tombstone of the store names a record that the view writes, and none of the store or
of the view itself names a span that it writes, or a source of one. -/
structure Untouched (view : CompressedView) (store : CompactionStore) : Prop where
  records : ∀ record ∈ view.records, record.id ∉ view.tombstones →
    record.id ∉ store.tombstones.rows
  spans : ∀ span, WritesSpan view span → ∀ id ∈ span.spanId :: span.sourceIds,
    id ∉ store.tombstones.rows ∧ id ∉ view.tombstones

theorem doomed_eq_false :
    row.doomed tombstones = false ↔ ∀ id ∈ row.spanId :: row.sourceIds, id ∉ tombstones := by
  simp [SpanRow.doomed]

theorem mem_replaceSpans : row ∈ (store.replaceSpans view.spans).spans.rows ↔
      ∃ span, WritesSpan view span ∧ toRow span = row := by
  have hfold : (store.replaceSpans view.spans).spans =
      (view.spans.map toRow).foldl upsert ⟨[], nodup_nil⟩ := by
    rw [foldl_map]
    rfl
  have hrow : row ∈ (store.replaceSpans view.spans).spans.rows ↔
      (store.replaceSpans view.spans).spans.find? row.spanId = some row := by
    rw [find?_eq_some]
    exact (and_iff_left rfl).symm
  have hempty : (⟨[], nodup_nil⟩ : KeyedTable SpanRow.spanId).find? row.spanId = none := rfl
  rw [hrow, hfold, find?_foldl_upsert, hempty, Option.or_none, ← map_reverse,
    find?_map, Option.map_eq_some_iff]
  refine exists_congr fun span => and_congr_left fun hspan => ?_
  subst hspan
  rfl

theorem Recorded.noneAtRest_iff
    (h : Recorded view store store') : NoneAtRest store' ↔ Untouched view store := by
  have hmem : ∀ id, id ∈ store'.tombstones.rows ↔
      id ∈ store.tombstones.rows ∨ id ∈ view.tombstones := by
    intro id
    rw [h.tombstones, mem_mergeTombstones]
  obtain ⟨image, himage, hstored⟩ := h.records
  have hrecords := serializeRecords_records himage
  constructor
  · intro hrest
    refine ⟨fun record hrecord hlive hold => ?_, fun span hspan id hid => ?_⟩
    · have hkept : record ∈ image.records := by
        rw [hrecords]
        exact mem_filter.mpr ⟨hrecord, decide_eq_true hlive⟩
      exact hrest.records image hstored record hkept ((hmem _).mpr (.inl hold))
    · have hrow : toRow span ∈ store'.spans.rows := by
        rw [h.spans, mem_replaceSpans]
        exact ⟨span, hspan, rfl⟩
      have hfree := doomed_eq_false.mp (hrest.spans _ hrow) id hid
      rw [hmem, not_or] at hfree
      exact hfree
  · intro hclean
    refine ⟨fun stored hsome record hrecord => ?_, fun row hrow => ?_⟩
    · rw [hstored, Option.some.injEq] at hsome
      rw [← hsome, hrecords] at hrecord
      obtain ⟨hmember, hlive⟩ := mem_filter.mp hrecord
      rw [hmem, not_or]
      exact ⟨hclean.records record hmember (of_decide_eq_true hlive), of_decide_eq_true hlive⟩
    · rw [h.spans, mem_replaceSpans] at hrow
      obtain ⟨span, hspan, rfl⟩ := hrow
      refine doomed_eq_false.mpr fun id hid => ?_
      rw [hmem, not_or]
      exact hclean.spans span hspan id hid

theorem Tombed.noneAtRest
    (hwritten : ImageWritten store) (h : Tombed ids store store') : NoneAtRest store' := by
  refine ⟨fun stored hsome => (Tombed.rewritten hwritten h hsome).2, fun row hrow => ?_⟩
  rw [h.spans, filter_rows] at hrow
  simpa using of_mem_filter hrow

def serveOk : List CompactionCall → CompactionStore → Except DurabilityError CompactionStore
  | [], store => .ok store
  | call :: rest, store =>
    match call.run store with
    | (.ok (), store') => serveOk rest store'
    | (.error e, _) => .error e

theorem serveOk_append {calls more : List CompactionCall} :
    serveOk (calls ++ more) store = .ok store' ↔
      ∃ between, serveOk calls store = .ok between ∧ serveOk more between = .ok store' := by
  induction calls generalizing store with
  | nil => simp [serveOk]
  | cons call rest ih =>
    rcases hrun : call.run store with ⟨_ | _, next⟩
    · simp [serveOk, hrun]
    · simp [serveOk, hrun, ih]

theorem serveOk_singleton {call : CompactionCall} :
    serveOk [call] store = .ok store' ↔ call.run store = (.ok (), store') := by
  rcases hrun : call.run store with ⟨_ | _, next⟩ <;> simp [serveOk, hrun]

theorem serveOk_imageWritten {calls : List CompactionCall}
    (hwritten : ImageWritten store) (h : serveOk calls store = .ok store') :
    ImageWritten store' := by
  induction calls generalizing store with
  | nil =>
    cases h
    exact hwritten
  | cons call rest ih =>
    rcases hrun : call.run store with ⟨_ | _, next⟩
    · simp [serveOk, hrun] at h
    · simp only [serveOk, hrun] at h
      exact ih (of_wp_ok (call.wp_imageWritten hwritten) hrun) h

/-- Along calls that all succeed, nothing deleted is ever at rest exactly if every view was
untouched by the tombstones when it was recorded. -/
theorem deleted_not_at_rest_iff (calls : List CompactionCall) {store : CompactionStore}
    (hserved : serveOk calls openInMemory = .ok store) :
    (∀ done rest reached, calls = done ++ rest → serveOk done openInMemory = .ok reached →
      NoneAtRest reached) ↔
    ∀ done view rest reached, calls = done ++ .recordView view :: rest →
      serveOk done openInMemory = .ok reached → Untouched view reached := by
  constructor
  · intro hrest done view rest reached hcalls hdone
    rw [hcalls, append_cons, serveOk_append] at hserved
    obtain ⟨next, hnext, -⟩ := hserved
    have hview := hrest _ rest next (hcalls.trans (append_cons ..)) hnext
    rw [serveOk_append] at hnext
    obtain ⟨between, hbetween, hrun⟩ := hnext
    cases hdone.symm.trans hbetween
    have hspec := recordView_spec view reached
    exact (of_wp_ok hspec (serveOk_singleton.mp hrun)).noneAtRest_iff.mp hview
  · intro hclean done
    induction done using reverseRecOn with
    | nil =>
      intro rest reached _ hdone
      cases hdone
      exact ⟨nofun, nofun⟩
    | append_singleton done call ih =>
      intro rest reached hcalls hdone
      rw [serveOk_append] at hdone
      obtain ⟨between, hbetween, hrun⟩ := hdone
      have hsplit : calls = done ++ call :: rest := hcalls.trans (append_cons ..).symm
      have hrun := serveOk_singleton.mp hrun
      cases call with
      | recordView view =>
        exact (of_wp_ok (recordView_spec view between) hrun).noneAtRest_iff.mpr
          (hclean done view rest between hsplit hbetween)
      | addTombstones ids =>
        rcases of_wp_ok (addTombstones_spec ids between) hrun with ⟨-, rfl⟩ | htombed
        · exact ih _ _ hsplit hbetween
        · exact htombed.noneAtRest (serveOk_imageWritten ImageWritten.openInMemory hbetween)

theorem not_at_rest_after_deletion :
    ∃ store, serveOk [.recordView twoRunsView, .addTombstones ["a"]] openInMemory = .ok store ∧
      ∀ done rest reached, [.recordView twoRunsView, .addTombstones ["a"]] = done ++ rest →
        serveOk done openInMemory = .ok reached → NoneAtRest reached := by
  obtain ⟨store, hserved⟩ := exists_eq_ok
    (m := serveOk [.recordView twoRunsView, .addTombstones ["a"]] openInMemory)
    (by decide +kernel)
  refine ⟨store, hserved, (deleted_not_at_rest_iff _ hserved).mpr ?_⟩
  intro done view rest reached hcalls hdone
  rcases done with _ | ⟨first, _ | ⟨second, more⟩⟩
  · obtain ⟨seam, hpass⟩ := compactSelective_twoRunsView
    have hnone : twoRunsView.tombstones = [] := (compactSelective_view hpass).tombstones
    cases hdone
    cases hcalls
    refine ⟨fun _ _ _ => not_mem_nil, fun _ _ _ _ => ⟨not_mem_nil, ?_⟩⟩
    rw [hnone]
    exact not_mem_nil
  · cases hcalls
  · simp at hcalls

def staleView : CompressedView := ⟨[plainRecord "a" .normal "a"], [], [], ⟨[]⟩⟩

/-- It is recorded after the deletion, and puts the deleted record back at rest. -/
theorem stale_view_at_rest :
    ∃ store, serveOk [.addTombstones ["a"], .recordView staleView] openInMemory = .ok store ∧
      ¬NoneAtRest store := by
  obtain ⟨store, hserved⟩ := exists_eq_ok
    (m := serveOk [.addTombstones ["a"], .recordView staleView] openInMemory) (by decide +kernel)
  refine ⟨store, hserved, fun hrest => ?_⟩
  have hsplit : serveOk ([.addTombstones ["a"]] ++ [.recordView staleView]) openInMemory =
      .ok store := hserved
  obtain ⟨between, hbetween, hrun⟩ := serveOk_append.mp hsplit
  have hrecorded := of_wp_ok (recordView_spec staleView between) (serveOk_singleton.mp hrun)
  have htombed : "a" ∈ between.tombstones.rows := by
    rcases of_wp_ok (addTombstones_spec ["a"] openInMemory)
      (serveOk_singleton.mp hbetween) with ⟨hnil, -⟩ | htombed
    · cases hnil
    · rw [htombed.tombstones, mem_mergeTombstones]
      exact .inr mem_cons_self
  exact (hrecorded.noneAtRest_iff.mp hrest).records _ mem_cons_self not_mem_nil htombed

end BittyAi.Slice
