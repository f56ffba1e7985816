/-
BittyAi.Slice.CompactionStoreTheorems — when a recorded view is loaded as it was.

Tombstones are never removed, while every pass numbers its spans from the start.
-/
import BittyAi.Runtime.CompressionFlowTheorems
import BittyAi.Session.ContentStoreTheorems
import BittyAi.Slice.CompactionStore

namespace BittyAi.Slice

open Lib Exiting BittyAi.Runtime Session CompactionStore CompressedSpan List

/-! ## Tags -/

theorem retentionFromStr_toStr (cls : RetentionClass) :
    retentionFromStr (retentionToStr cls) = .ok cls := by
  cases cls <;> rfl

variable {ids : List String}

section Tags

variable {tags : RetentionTags} {id other : String} {cls : RetentionClass}

theorem find?_setEntry (entries : List (String × RetentionClass)) :
    ((setEntry id cls entries).find? fun entry => entry.1 == other) =
      if other = id then some (id, cls) else entries.find? fun entry => entry.1 == other := by
  induction entries with
  | nil => by_cases h : other = id <;> simp [setEntry, h, Ne.symm]
  | cons entry rest ih =>
    rw [setEntry]
    split
    next heq => by_cases h : other = id <;> simp [heq, h, Ne.symm]
    next hne =>
      by_cases hentry : entry.1 = other
      · simp [hentry, hentry ▸ hne]
      · simp [hentry, ih]

theorem get_set : (tags.set id cls).get other = if other = id then cls else tags.get other := by
  simp only [RetentionTags.get, RetentionTags.set, find?_setEntry]
  split <;> rfl

theorem setTags_classes (classOf : String → RetentionClass) (tags : RetentionTags) :
    ∃ tags', setTags tags (ids.map fun id => (id, retentionToStr (classOf id))) = .ok tags' ∧
      ∀ id, tags'.get id = if id ∈ ids then classOf id else tags.get id := by
  induction ids generalizing tags with
  | nil => exact ⟨tags, rfl, by simp⟩
  | cons first rest ih =>
    obtain ⟨tags', hset, hget⟩ := ih (tags.set first (classOf first))
    refine ⟨tags', ?_, fun id => ?_⟩
    · simp only [map_cons, setTags, bind_eq_ok, retentionFromStr_toStr, Except.ok.injEq,
        exists_eq_left']
      exact hset
    · rw [hget]
      by_cases hrest : id ∈ rest
      · simp [hrest]
      · by_cases hfirst : id = first <;> simp [get_set, hrest, hfirst]

end Tags

theorem loadTags_serializeTags (view : CompressedView) :
    ∃ tags, loadTagsInner (some (serializeTags view)) = .ok tags ∧
      ∀ id, tags.get id = if id ∈ taggedIds view then view.tags.get id else .normal := by
  obtain ⟨tags, hload, hget⟩ := setTags_classes view.tags.get ⟨[]⟩
  refine ⟨tags, hload, fun id => ?_⟩
  have hempty : (⟨[]⟩ : RetentionTags).get id = .normal := rfl
  rw [hget, hempty]
  simp only [mem_insertionSort, mem_filter, decide_eq_true_eq]
  by_cases htagged : id ∈ taggedIds view
  · by_cases hnormal : view.tags.get id = .normal <;> simp [htagged, hnormal]
  · simp [htagged]

/-! ## Spans -/

theorem sourceIds_size_le (hlength : ids.length ≤ maxContextRecords)
    (hbound : ids.any idOutOfBound = false) :
    (jsonArray (ids.map jsonString)).utf8ByteSize ≤ maxRecordsJsonBytes := by
  have hvalues : ∀ value ∈ ids.map jsonString, value.utf8ByteSize ≤ 770 := by
    intro value hvalue
    obtain ⟨id, hid, rfl⟩ := mem_map.mp hvalue
    have hshort : id.utf8ByteSize ≤ maxTombstoneIdLen := by
      have hin := any_eq_false.mp hbound id hid
      simp only [idOutOfBound, Bool.or_eq_true, decide_eq_true_eq, not_or, not_lt] at hin
      exact hin.2
    have hsize := jsonString_size_le id
    simp only [maxTombstoneIdLen] at hshort
    omega
  have hsize := jsonArray_size_le hvalues
  simp only [length_map, maxContextRecords, maxRecordsJsonBytes] at hsize hlength ⊢
  omega

variable {view : CompressedView} {store' : CompactionStore} {span : CompressedSpan}

theorem loadSpan_toRow (h : checkSpan span = .ok ()) :
    loadSpan (toRow span) = .ok span := by
  simp only [checkSpan, bind_eq_ok, refuseIf_eq_ok, exists_const, not_or, not_lt,
    Bool.not_eq_true] at h
  obtain ⟨⟨hshort, hnamed⟩, hsummary, hsources, hbound⟩ := h
  simp only [loadSpan, bind_eq_ok, pure_eq_ok, refuseIf_eq_ok, exists_const, not_or, not_lt,
    Bool.not_eq_true]
  exact ⟨⟨hnamed, hshort⟩, hsummary, sourceIds_size_le hsources hbound, hsources, hbound,
    span.retention, retentionFromStr_toStr _, rfl⟩

variable {spans : List CompressedSpan}

theorem checkSpans_eq_ok (h : checkSpans spans = .ok ()) :
    ∀ span ∈ spans, checkSpan span = .ok () := by
  induction spans with
  | nil => nofun
  | cons first rest ih =>
    simp only [checkSpans, bind_eq_ok] at h
    obtain ⟨_, hfirst, hrest⟩ := h
    exact forall_mem_cons.mpr ⟨hfirst, ih hrest⟩

theorem loadSpans_toRow (h : ∀ span ∈ spans, checkSpan span = .ok ()) :
    loadSpans (spans.map toRow) = .ok spans := by
  induction spans with
  | nil => rfl
  | cons first rest ih =>
    simp only [map_cons, loadSpans, bind_eq_ok, pure_eq_ok]
    exact ⟨first, loadSpan_toRow (h first mem_cons_self), rest,
      ih fun span hspan => h span (mem_cons_of_mem _ hspan), rfl⟩

/-! ## Records -/

theorem validateAll_of_valid {records : List ContextRecord}
    (h : ∀ record ∈ records, record.validate = .ok ()) : validateAll records = .ok () := by
  induction records with
  | nil => rfl
  | cons record rest ih =>
    rw [validateAll, h record mem_cons_self]
    exact ih fun other hother => h other (mem_cons_of_mem _ hother)

def ImageFits (records : List ContextRecord) : Prop :=
  ∀ texts, recordTexts records = .ok texts → (jsonArray texts).length ≤ maxRecordsJsonBytes

variable {records loaded : List ContextRecord} {image : RecordsImage}

theorem serializeRecords_eq_ok : serializeRecords records = .ok image ↔
    ∃ texts, recordTexts records = .ok texts ∧ ⟨jsonArray texts, records⟩ = image := by
  simp only [serializeRecords, bind_eq_ok, pure_eq_ok]

theorem deserializeRecords_eq_ok : deserializeRecords image = .ok records ↔
    validateAll image.records = .ok () ∧ records = image.records := by
  simp [deserializeRecords, Unique.exists_iff, @eq_comm _ records]

theorem loadRecordsInner_serializeRecords (hvalid : ∀ record ∈ records, record.validate = .ok ())
    (hlength : records.length ≤ maxContextRecords) (himage : serializeRecords records = .ok image) :
    loadRecordsInner (some image) = .ok loaded ↔ ImageFits records ∧ loaded = records := by
  obtain ⟨texts, htexts, rfl⟩ := serializeRecords_eq_ok.mp himage
  have hfits : ImageFits records ↔ (jsonArray texts).length ≤ maxRecordsJsonBytes := by
    simp [ImageFits, htexts]
  have hread : deserializeRecords ⟨jsonArray texts, records⟩ = .ok records :=
    deserializeRecords_eq_ok.mpr ⟨validateAll_of_valid hvalid, rfl⟩
  simp only [loadRecordsInner, bind_eq_ok, pure_eq_ok, refuseIf_eq_ok, exists_const, hread,
    Except.ok.injEq, exists_eq_left', not_lt, hfits]
  constructor
  · rintro ⟨hshort, -, rfl⟩
    exact ⟨hshort, rfl⟩
  · rintro ⟨hshort, rfl⟩
    exact ⟨hshort, hlength, rfl⟩

/-! ## The calls -/

structure Bounded (store : CompactionStore) : Prop where
  count : store.tombstones.rows.length ≤ maxStoredTombstones
  ids : ∀ id ∈ store.tombstones.rows, idOutOfBound id = false

theorem Bounded.openInMemory : Bounded openInMemory where
  count := Nat.zero_le _
  ids := nofun

variable {store : CompactionStore}

theorem Bounded.merge
    (h : Bounded store) (hids : ids.any idOutOfBound = false)
    (hmerged : store'.tombstones = (store.mergeTombstones ids).tombstones)
    (hcount : store'.tombstones.rows.length ≤ maxStoredTombstones) : Bounded store' where
  count := hcount
  ids := by
    intro id hid
    rw [hmerged] at hid
    rcases KeyedTable.mem_foldl_insertOrIgnore_id.mp hid with hold | hnew
    · exact h.ids id hold
    · exact Bool.not_eq_true _ ▸ any_eq_false.mp hids id hnew

structure Recorded (view : CompressedView) (store store' : CompactionStore) : Prop where
  checked : checkView view = .ok ()
  length : (liveRecords view).length ≤ maxContextRecords
  spans : store'.spans = (store.replaceSpans view.spans).spans
  tombstones : store'.tombstones = (store.mergeTombstones view.tombstones).tombstones
  count : store'.tombstones.rows.length ≤ maxStoredTombstones
  records : ∃ image, serializeRecords (liveRecords view) = .ok image ∧
    store'.recordsJson = some image
  tags : store'.retentionTagsJson = some (serializeTags { view with records := liveRecords view })

theorem recordView_spec (view : CompressedView) (store : CompactionStore) :
    wp (recordView view) (fun _ store' => Recorded view store store')
      (fun _ store' => store' = store) store := by
  unfold recordView checkMerged
  simp only [wp_bind, wp_attempt, wp_refuse, wp_transaction,
    wp_modify, wp_read, implies_true, and_true, true_and, not_lt]
  intro _ hchecked hlength _ _ image himage hcount
  exact ⟨hchecked, hlength, rfl, rfl, hcount, ⟨image, himage, rfl⟩, rfl⟩

/-- What `add_tombstones` leaves when it succeeds on some ids. -/
structure Tombed (ids : List String) (store store' : CompactionStore) : Prop where
  checked : ids.any idOutOfBound = false
  tombstones : store'.tombstones = (store.mergeTombstones ids).tombstones
  count : store'.tombstones.rows.length ≤ maxStoredTombstones
  records : stripRecords store'.tombstones.rows store.recordsJson = .ok store'.recordsJson
  spans : store'.spans = store.spans.filter fun row => !row.doomed store'.tombstones.rows
  tags : store'.retentionTagsJson = store.retentionTagsJson

def RefusesTombstones (ids : List String) (store : CompactionStore) : Prop :=
  ids.any idOutOfBound = true ∨
    maxStoredTombstones < (store.mergeTombstones ids).tombstones.rows.length ∨
    ∃ e, stripRecords (store.mergeTombstones ids).tombstones.rows store.recordsJson = .error e

theorem addTombstones_spec (ids : List String) (store : CompactionStore) : wp (addTombstones ids)
      (fun _ store' => ids = [] ∧ store' = store ∨ Tombed ids store store')
      (fun _ store' => store' = store ∧ RefusesTombstones ids store) store := by
  unfold addTombstones checkMerged
  simp only [wp_ite, wp_pure, wp_bind, wp_attempt, wp_refuse, wp_transaction, wp_modify, wp_read,
    and_true, true_and, List.isEmpty_iff]
  refine ⟨fun hnil => .inl hnil, fun _ => ⟨.inl, fun hids => ⟨fun hcount => .inr (.inl hcount),
    fun hcount => ⟨fun image himage => .inr ?_, fun e he => .inr (.inr ⟨e, he⟩)⟩⟩⟩⟩
  exact ⟨Bool.not_eq_true _ ▸ hids, rfl, not_lt.mp hcount, himage, rfl, rfl⟩

inductive CompactionCall where
  | recordView (view : CompressedView)
  | addTombstones (ids : List String)

def CompactionCall.run : CompactionCall → CompactionOp Unit
  | .recordView view => Slice.recordView view
  | .addTombstones ids => Slice.addTombstones ids

def serveAll (calls : List CompactionCall) (store : CompactionStore) : CompactionStore :=
  calls.foldl (fun store call => (call.run store).2) store

theorem Recorded.bounded
    (h : Recorded view store store') (hbounded : Bounded store) : Bounded store' := by
  have hids := h.checked
  simp only [checkView, bind_eq_ok, refuseIf_eq_ok, exists_const, Bool.not_eq_true] at hids
  obtain ⟨-, -, -, -, hids⟩ := hids
  exact hbounded.merge hids h.tombstones h.count

theorem CompactionCall.wp_invariant {I : CompactionStore → Prop} (call : CompactionCall)
    (hrecord : ∀ {view store'}, Recorded view store store' → I store')
    (htomb : ∀ {ids store'}, Tombed ids store store' → I store') (h : I store) :
    wp call.run (fun _ => I) (fun _ => I) store := by
  cases call with
  | recordView view =>
    exact wp_mono (recordView_spec view store) (fun _ _ => hrecord) fun _ _ hsame => hsame ▸ h
  | addTombstones ids =>
    refine wp_mono (addTombstones_spec ids store) (fun _ store' hadded => ?_)
      fun _ _ hsame => hsame.1 ▸ h
    rcases hadded with ⟨-, rfl⟩ | htombed
    · exact h
    · exact htomb htombed

theorem serveAll_invariant {I : CompactionStore → Prop}
    (hstep : ∀ (call : CompactionCall) (store : CompactionStore), I store →
      wp call.run (fun _ => I) (fun _ => I) store)
    (calls : List CompactionCall) (h : I store) :
    I (serveAll calls store) := by
  induction calls generalizing store with
  | nil => exact h
  | cons call rest ih =>
    have hserved : I (call.run store).2 := by
      rcases hrun : call.run store with ⟨_ | _, store'⟩
      · exact of_wp_error (hstep call store h) hrun
      · exact of_wp_ok (hstep call store h) hrun
    exact ih hserved

theorem Bounded.serveAll (calls : List CompactionCall)
    (h : Bounded store) : Bounded (serveAll calls store) :=
  serveAll_invariant (fun call _ h => call.wp_invariant (·.bounded h)
    (fun htombed => h.merge htombed.checked htombed.tombstones htombed.count) h) calls h

/-! ## Loading what was recorded -/

def loadedTombstones (store : CompactionStore) : List String :=
  store.tombstones.rows.insertionSort (· ≤ ·)

@[simp] theorem mem_loadedTombstones {id : String} :
    id ∈ loadedTombstones store ↔ id ∈ store.tombstones.rows := by
  simp [loadedTombstones]

theorem loadView_eq_ok (hbounded : Bounded store) {loaded : CompressedView} :
    loadView store = .ok loaded ↔ store.spans.rows.length ≤ maxSpans ∧
      ∃ spans records tags,
        loadSpans (store.spans.rows.insertionSort (·.spanId ≤ ·.spanId)) = .ok spans ∧
        loadRecordsInner store.recordsJson = .ok records ∧
        loadTagsInner store.retentionTagsJson = .ok tags ∧
        loaded =
          { records := records.filter fun record => record.id ∉ loadedTombstones store
            spans := spans.filter fun span => !span.hitBy (loadedTombstones store)
            tombstones := loadedTombstones store
            tags } := by
  have hids : (loadedTombstones store).any idOutOfBound = false := by
    refine any_eq_false.mpr fun id hid => ?_
    rw [hbounded.ids id (mem_loadedTombstones.mp hid)]
    exact Bool.false_ne_true
  have hcount := hbounded.count
  simp only [loadView, bind_eq_ok, pure_eq_ok, refuseIf_eq_ok, exists_const, not_lt,
    Bool.not_eq_true]
  constructor
  · rintro ⟨hspans, spans, hload, -, -, records, hrecords, tags, htags, rfl⟩
    exact ⟨hspans, spans, records, tags, hload, hrecords, htags, rfl⟩
  · rintro ⟨hspans, spans, records, tags, hload, hrecords, htags, rfl⟩
    exact ⟨hspans, spans, hload, hcount, hids, records, hrecords, tags, htags, rfl⟩

theorem rows_replaceSpans (hnodup : (spans.map (·.spanId)).Nodup) :
    (store.replaceSpans spans).spans.rows = spans.map toRow := by
  have hfold : (store.replaceSpans spans).spans =
      (spans.map toRow).foldl KeyedTable.upsert ⟨[], nodup_nil⟩ := by
    rw [foldl_map]
    rfl
  rw [hfold, KeyedTable.rows_foldl_upsert]
  · rfl
  · rw [nil_append, map_map]
    exact hnodup

/-- A view is loaded as it was recorded: its spans as a set, its records in order and the
class of every id. -/
def ReadsBack (view : CompressedView) (store : CompactionStore) : Prop :=
  ∃ loaded, loadView store = .ok loaded ∧ (∀ span, span ∈ loaded.spans ↔ span ∈ view.spans) ∧
    loaded.records = view.records ∧ ∀ id, loaded.tags.get id = view.tags.get id

structure Untombed (view : CompressedView) (store : CompactionStore) : Prop where
  records : ∀ record ∈ view.records, record.id ∉ store.tombstones.rows
  spans : ∀ span ∈ view.spans, span.spanId ∉ store.tombstones.rows
  sources : ∀ span ∈ view.spans, ∀ source ∈ span.sourceIds, source ∉ store.tombstones.rows

/-- Every id that is not `Normal` is a record or a source of the view. -/
def TagsOwnIds (view : CompressedView) : Prop :=
  ∀ id, view.tags.get id ≠ .normal →
    (∃ record ∈ view.records, record.id = id) ∨ ∃ span ∈ view.spans, id ∈ span.sourceIds

theorem hitBy_eq_false :
    span.hitBy ids = false ↔ span.spanId ∉ ids ∧ ∀ source ∈ span.sourceIds, source ∉ ids := by
  simp [hitBy, and_comm]

theorem loadView_recorded {tags : RetentionTags} (hview : CompactedView tags view)
    (hbounded : Bounded store) (h : Recorded view store store') :
    ∃ loadedTags : RetentionTags,
      (∀ id, loadedTags.get id = if id ∈ taggedIds view then view.tags.get id else .normal) ∧
      ∀ loaded, loadView store' = .ok loaded ↔ ImageFits view.records ∧
        loaded =
          { records := view.records.filter fun record => record.id ∉ loadedTombstones store
            spans := (view.spans.insertionSort (·.spanId ≤ ·.spanId)).filter fun span =>
              !span.hitBy (loadedTombstones store)
            tombstones := loadedTombstones store
            tags := loadedTags } := by
  have hlive : liveRecords view = view.records := by simp [liveRecords, hview.tombstones]
  have htombs : loadedTombstones store' = loadedTombstones store := by
    rw [loadedTombstones, h.tombstones, hview.tombstones]
    rfl
  have hchecked := h.checked
  simp only [checkView, bind_eq_ok, refuseIf_eq_ok, exists_const, not_lt] at hchecked
  obtain ⟨hcount, -, _, hspans, -⟩ := hchecked
  have hrows : store'.spans.rows = view.spans.map toRow := by
    rw [h.spans, rows_replaceSpans hview.spanIds]
  have hload : loadSpans (store'.spans.rows.insertionSort (·.spanId ≤ ·.spanId)) =
      .ok (view.spans.insertionSort (·.spanId ≤ ·.spanId)) := by
    rw [hrows, ← map_insertionSort (r := fun a b : CompressedSpan => a.spanId ≤ b.spanId)]
    · exact loadSpans_toRow fun span hspan =>
        checkSpans_eq_ok hspans span (mem_insertionSort _ |>.mp hspan)
    · exact fun _ _ _ _ => Iff.rfl
  obtain ⟨image, himage, himaged⟩ := h.records
  rw [hlive] at himage
  have hlength := h.length
  rw [hlive] at hlength
  have hread : ∀ loaded, loadRecordsInner (some image) = .ok loaded ↔
      ImageFits view.records ∧ loaded = view.records := fun _ =>
    loadRecordsInner_serializeRecords hview.valid hlength himage
  obtain ⟨loadedTags, htags, hget⟩ := loadTags_serializeTags view
  refine ⟨loadedTags, hget, fun loaded => ?_⟩
  have hstored : store'.retentionTagsJson = some (serializeTags view) := by rw [h.tags, hlive]
  rw [loadView_eq_ok (h.bounded hbounded), hload, himaged, hstored, htags, htombs]
  simp only [hread, Except.ok.injEq]
  constructor
  · rintro ⟨-, spans, records, tags, rfl, ⟨hfits, rfl⟩, rfl, rfl⟩
    exact ⟨hfits, rfl⟩
  · rintro ⟨hfits, rfl⟩
    refine ⟨?_, _, _, _, rfl, ⟨hfits, rfl⟩, rfl, rfl⟩
    rwa [hrows, length_map]

theorem mem_taggedIds {id : String} (h : view.tombstones = []) :
    id ∈ taggedIds view ↔
      (∃ record ∈ view.records, record.id = id) ∨ ∃ span ∈ view.spans, id ∈ span.sourceIds := by
  simp [taggedIds, h]

theorem tags_eq_iff {loadedTags : RetentionTags}
    (htombstones : view.tombstones = [])
    (hget : ∀ id, loadedTags.get id = if id ∈ taggedIds view then view.tags.get id else .normal) :
    (∀ id, loadedTags.get id = view.tags.get id) ↔ TagsOwnIds view := by
  refine forall_congr' fun id => ?_
  rw [hget, ← mem_taggedIds htombstones]
  by_cases hmem : id ∈ taggedIds view
  · simp [hmem]
  · simp [hmem, eq_comm]

section ReadsBack

variable {E : Type} {records : List ContextRecord} {config : SelectiveCompactionConfig}
  {summarizer : Summarizer E} {tags : RetentionTags} {nowMs spanCount : Nat} {env : E}
  {view : CompressedView} {seam : Seam E} {store' : CompactionStore}

/-- A view that a pass returns and `record_view` accepts is loaded as it was, exactly if no
tombstone of the store names one of its ids, the text of its records is short enough to be
loaded, and its tags are about its own ids. -/
theorem compaction_reads_back_iff (calls : List CompactionCall)
    (hpass : compactSelective records config summarizer tags nowMs env =
      (.compacted spanCount view, seam))
    (hrecord : recordView view (serveAll calls openInMemory) = (.ok (), store')) :
    ReadsBack view store' ↔
      Untombed view (serveAll calls openInMemory) ∧ ImageFits view.records ∧ TagsOwnIds view := by
  have hview := compactSelective_view hpass
  have hbounded := Bounded.openInMemory.serveAll calls
  have hrecorded := of_wp_ok (recordView_spec view _) hrecord
  obtain ⟨loadedTags, hget, hload⟩ := loadView_recorded hview hbounded hrecorded
  constructor
  · rintro ⟨loaded, hloaded, hspans, hrecords, htags⟩
    obtain ⟨hfits, rfl⟩ := (hload loaded).mp hloaded
    have hkept : ∀ span ∈ view.spans,
        span.hitBy (loadedTombstones (serveAll calls openInMemory)) = false := by
      intro span hspan
      have hmem := of_mem_filter ((hspans span).mpr hspan)
      simpa using hmem
    refine ⟨⟨fun record hrecord => ?_, fun span hspan => ?_, fun span hspan source hsource => ?_⟩,
      hfits, (tags_eq_iff hview.tombstones hget).mp htags⟩
    · have hmem := filter_eq_self.mp hrecords record hrecord
      simpa using hmem
    · simpa using (hitBy_eq_false.mp (hkept span hspan)).1
    · simpa using (hitBy_eq_false.mp (hkept span hspan)).2 source hsource
  · rintro ⟨hclean, hfits, hown⟩
    refine ⟨_, (hload _).mpr ⟨hfits, rfl⟩, fun span => ?_, ?_,
      (tags_eq_iff hview.tombstones hget).mpr hown⟩
    · simp only [mem_filter, mem_insertionSort, Bool.not_eq_true', hitBy_eq_false,
        mem_loadedTombstones]
      exact and_iff_left_of_imp fun hspan => ⟨hclean.spans span hspan, hclean.sources span hspan⟩
    · refine filter_eq_self.mpr fun record hrecord => ?_
      simpa using hclean.records record hrecord

end ReadsBack

/-! ## A view that a tombstone hides -/

def twoRunsView : CompressedView :=
  match compactSelective (twoRuns (plainRecord "a" .normal "a")) twoRunsConfig constantSummarizer
    ⟨[]⟩ 1 () with
  | (.compacted _ view, _) => view
  | _ => ⟨[], [], [], ⟨[]⟩⟩

theorem compactSelective_twoRunsView :
    ∃ seam, compactSelective (twoRuns (plainRecord "a" .normal "a")) twoRunsConfig
      constantSummarizer ⟨[]⟩ 1 () = (.compacted 2 twoRunsView, seam) := ⟨_, rfl⟩

def spanDeleted : List CompactionCall := [.recordView twoRunsView, .addTombstones ["cmp-0000"]]

theorem imageFits_twoRunsView : ImageFits twoRunsView.records := by
  have hshort : (recordTexts twoRunsView.records).toOption.all
      (fun texts => (jsonArray texts).utf8ByteSize ≤ maxRecordsJsonBytes) = true := by
    decide +kernel
  intro texts htexts
  rw [htexts] at hshort
  exact (length_le_utf8ByteSize _).trans (of_decide_eq_true hshort)

theorem twoRunsView_reads_back :
    ∃ seam store', compactSelective (twoRuns (plainRecord "a" .normal "a")) twoRunsConfig
        constantSummarizer ⟨[]⟩ 1 () = (.compacted 2 twoRunsView, seam) ∧
      recordView twoRunsView (serveAll [] openInMemory) = (.ok (), store') ∧
      ReadsBack twoRunsView store' := by
  obtain ⟨seam, hpass⟩ := compactSelective_twoRunsView
  obtain ⟨_, store', hrecord⟩ := exists_run_ok (m := recordView twoRunsView)
    (s := serveAll [] openInMemory) (by decide +kernel)
  refine ⟨seam, store', hpass, hrecord, (compaction_reads_back_iff [] hpass hrecord).mpr ?_⟩
  have htags : ∀ id, twoRunsView.tags.get id = .normal := by
    have hempty : twoRunsView.tags = ⟨[]⟩ := (compactSelective_view hpass).tags_eq
    intro id
    rw [hempty]
    rfl
  exact ⟨⟨fun _ _ => not_mem_nil, fun _ _ => not_mem_nil,
    fun _ _ _ _ => not_mem_nil⟩, imageFits_twoRunsView, fun id hid => absurd (htags id) hid⟩

/-- A second pass names its first span `cmp-0000` again; it is recorded, and not loaded. -/
theorem renumbered_span_not_loaded :
    ∃ seam store', compactSelective (twoRuns (plainRecord "a" .normal "a")) twoRunsConfig
        constantSummarizer ⟨[]⟩ 1 () = (.compacted 2 twoRunsView, seam) ∧
      recordView twoRunsView (serveAll spanDeleted openInMemory) = (.ok (), store') ∧
      ¬ReadsBack twoRunsView store' := by
  obtain ⟨seam, hpass⟩ := compactSelective_twoRunsView
  obtain ⟨_, store', hrecord⟩ := exists_run_ok (m := recordView twoRunsView)
    (s := serveAll spanDeleted openInMemory) (by decide +kernel)
  have htomb : "cmp-0000" ∈ (serveAll spanDeleted openInMemory).tombstones.rows := by decide +kernel
  have hfirst : ∃ record ∈ twoRunsView.records, record.id = "cmp-0000" := by decide +kernel
  obtain ⟨record, hmem, hid⟩ := hfirst
  obtain ⟨_, -, hload⟩ := loadView_recorded (compactSelective_view hpass)
    (Bounded.openInMemory.serveAll spanDeleted) (of_wp_ok (recordView_spec _ _) hrecord)
  refine ⟨seam, store', hpass, hrecord, ?_⟩
  rintro ⟨loaded, hloaded, -, hrecords, -⟩
  obtain ⟨-, rfl⟩ := (hload loaded).mp hloaded
  have hkept := filter_eq_self.mp hrecords record hmem
  rw [hid] at hkept
  simp only [mem_loadedTombstones, htomb, not_true, decide_false] at hkept
  cases hkept

end BittyAi.Slice
