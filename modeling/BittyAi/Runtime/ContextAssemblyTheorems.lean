/-
BittyAi.Runtime.ContextAssemblyTheorems — what a successful `assemble` reports and what it
does to the artifact store.

`assemble_atomic`: an error leaves the store unchanged, and a success appends exactly the
large bodies of the selected records.
-/
import Mathlib.Data.List.Sigma
import BittyAi.Runtime.ContextTheorems

namespace BittyAi.Runtime

open Lib List

/-! ## Staged, kept and dropped slots -/

/-- `t` is scanned before `s`: higher effective priority, or equal priority and
an earlier dedupe position. -/
def outranks (t s : Staged × Nat) : Prop :=
  (effectivePriority s.1.record).rank < (effectivePriority t.1.record).rank ∨
    (effectivePriority s.1.record).rank = (effectivePriority t.1.record).rank ∧ t.2 < s.2

instance : DecidableRel outranks := fun _ _ => inferInstanceAs (Decidable (_ ∨ _ ∧ _))

theorem outranks_asymm (a b : Staged × Nat) (h : outranks a b) : ¬ outranks b a := by
  unfold outranks at *
  omega

theorem selectionOrder_outranks (staged : List Staged) :
    (selectionOrder staged).Pairwise outranks := by
  have hpos : (selectionOrder staged).Pairwise fun a b => a.2 ≠ b.2 := by
    have hnodup := nodup_zipIdx_map_snd staged
    rw [← ((selectionOrder_perm staged).map Prod.snd).nodup_iff] at hnodup
    exact pairwise_map.mp hnodup
  refine ((selectionOrder_sorted staged).and hpos).imp ?_
  rintro a b ⟨hle, hne⟩
  unfold slotBefore at hle
  unfold outranks
  omega

section Selection

variable (request : ContextRequest) (staged : List Staged)

def keptSlots : List (Staged × Nat) :=
  (fill slotWeight request.effectiveBudgetBytes 0 (selectionOrder staged)).1

def droppedSlots : List (Staged × Nat) :=
  (fill slotWeight request.effectiveBudgetBytes 0 (selectionOrder staged)).2

theorem kept_dropped_perm :
    (keptSlots request staged ++ droppedSlots request staged).Perm staged.zipIdx :=
  (fill_spec _ _ _ _).1.trans (selectionOrder_perm staged)

theorem included_eq : (selectionOf request staged).included =
    (keptSlots request staged).map Prod.snd :=
  (greedy_eq_fill _ _).1

theorem omittedIds_eq : (selectionOf request staged).omittedIds =
    (droppedSlots request staged).map (·.1.record.id) :=
  (greedy_eq_fill _ _).2.1

theorem truncatedBytes_eq : (selectionOf request staged).truncatedBytes =
    weight slotWeight (droppedSlots request staged) :=
  (greedy_eq_fill _ _).2.2

theorem filter_included_perm :
    (staged.zipIdx.filter fun slot => slot.2 ∈ (selectionOf request staged).included).Perm
      (keptSlots request staged) := by
  rw [included_eq]
  exact filter_mem_kept _ (kept_dropped_perm request staged) (nodup_zipIdx_map_snd staged)

theorem kept_weight_le :
    weight slotWeight (keptSlots request staged) ≤ request.effectiveBudgetBytes := by
  have := fill_weight_le slotWeight request.effectiveBudgetBytes (selectionOrder staged) 0
    (Nat.zero_le _)
  rwa [Nat.zero_add] at this

end Selection

theorem ContextRecord.footprint_assembled (record : ContextRecord) :
    record.assembled.footprintBytes = record.footprintBytes := by
  unfold ContextRecord.assembled AssembledRecord.footprintBytes ContextRecord.footprintBytes
  cases record.body <;> rfl

def ContextRecord.origin (record : ContextRecord) : String × String × String × Bool :=
  (record.id, record.provider, record.summary, record.isUntrustedSurface)

def AssembledRecord.origin (record : AssembledRecord) : String × String × String × Bool :=
  (record.id, record.provider, record.summary, record.isUntrustedSurface)

/-! ## The intermediate values of a successful assembly -/

variable {records : List ContextRecord} {store store' : ArtifactStore} {request : ContextRequest}
  {staged : List Staged} {out : List (Staged × Nat)} {added : List ArtifactEntry}
  {ctx : AssembledContext}

namespace Assembly

def selectedSlots (request : ContextRequest) (staged : List Staged) (out : List (Staged × Nat)) :
    List (Staged × Nat) :=
  out.filter fun slot => slot.2 ∈ (selectionOf request staged).included

variable (A : Assembly records store request staged out added ctx store')

include A

theorem staged_slots : List.Forall₂ StagedSlot (dedupe records).slots staged :=
  (stage_ok A.staging).forall₂

theorem staged_ids : (dedupe records).slots.map (·.2.id) = staged.map (·.record.id) :=
  map_eq_map_of_forall₂ A.staged_slots fun _ _ h => by rw [h.record]

theorem staged_ids_perm :
    (staged.map (·.record.id) ++ ctx.prunedIds).Perm (records.map (·.id)) := by
  have h := (dedupe_inv records).ids
  rw [A.staged_ids] at h
  rw [A.report]
  exact h.trans (.of_eq (map_zipIdx_fst ContextRecord.id records 0))

theorem staged_ids_nodup : (staged.map (·.record.id)).Nodup :=
  (nodup_append.mp ((A.staged_ids_perm).nodup_iff.mpr A.checked.distinct)).1

theorem selected_slots : List.Forall₂
      (CommittedSlot request.currentGeneration (selectionOf request staged).included added)
      (staged.zipIdx.filter fun slot => slot.2 ∈ (selectionOf request staged).included)
      (selectedSlots request staged out) :=
  rel_filter (fun _ _ h => by simp [h.position]) A.committed.slots

theorem selected_perm :
    ctx.records.Perm ((selectedSlots request staged out).map (·.1.record.assembled)) := by
  rw [A.report]
  refine ((perm_insertionSort _ _).map _).trans (.of_eq ?_)
  rw [map_map]
  rfl

theorem contextRefs_eq : ctx.contextRefs = ctx.records.map (·.id) := by
  rw [A.report]
  simp only [reportOf, map_map]
  rfl

theorem contextRefs_perm :
    ctx.contextRefs.Perm ((keptSlots request staged).map (·.1.record.id)) := by
  rw [A.contextRefs_eq]
  refine (A.selected_perm.map _).trans ?_
  rw [map_map]
  refine .trans (.of_eq ?_) ((filter_included_perm request staged).map (·.1.record.id))
  exact (map_eq_map_of_forall₂ A.selected_slots fun _ _ h => h.id_eq.symm).symm

theorem omittedIds_eq : ctx.omittedIds = (droppedSlots request staged).map (·.1.record.id) := by
  rw [A.report]
  exact Runtime.omittedIds_eq request staged

theorem ids_perm :
    (ctx.contextRefs ++ ctx.omittedIds ++ ctx.prunedIds).Perm (records.map (·.id)) := by
  refine .trans (.append_right _ ?_) A.staged_ids_perm
  rw [A.omittedIds_eq]
  refine (A.contextRefs_perm.append_right _).trans ?_
  rw [← map_append]
  exact ((kept_dropped_perm request staged).map _).trans
    (.of_eq (map_zipIdx_fst (fun s : Staged => s.record.id) staged 0))

theorem footprints_le : (ctx.records.map (·.footprintBytes)).sum ≤ ctx.budgetBytes := by
  have hbudget : ctx.budgetBytes = request.effectiveBudgetBytes := by rw [A.report]; rfl
  calc (ctx.records.map (·.footprintBytes)).sum
      = ((selectedSlots request staged out).map (·.1.record.footprintBytes)).sum := by
        rw [(A.selected_perm.map _).sum_eq, map_map]
        congr 1
        exact map_congr_left fun s _ => s.1.record.footprint_assembled
    _ ≤ weight slotWeight (staged.zipIdx.filter
          fun slot => slot.2 ∈ (selectionOf request staged).included) :=
        sum_map_le_of_forall₂ A.selected_slots fun _ _ h => h.footprint
    _ = weight slotWeight (keptSlots request staged) :=
        weight_perm slotWeight (filter_included_perm request staged)
    _ ≤ ctx.budgetBytes := hbudget ▸ kept_weight_le request staged

theorem provenance {slot' : Staged × Nat} (hslot : slot' ∈ out) :
    ∃ dslot ∈ (dedupe records).slots, ∃ slot ∈ staged.zipIdx,
      records[dslot.1]? = some dslot.2 ∧ StagedSlot dslot slot.1 ∧
      CommittedSlot request.currentGeneration (selectionOf request staged).included added
        slot slot' := by
  obtain ⟨slot, hmem, hcommitted⟩ := exists_left_of_forall₂ A.committed.slots hslot
  have hstaged : slot.1 ∈ staged := fst_mem_of_mem_zipIdx hmem
  obtain ⟨dslot, hdslot, hstagedSlot⟩ := exists_left_of_forall₂ A.staged_slots hstaged
  have hrecord := ((dedupe_inv records).kept dslot hdslot).1
  exact ⟨dslot, hdslot, slot, hmem, mem_zipIdx_iff_getElem?.mp hrecord, hstagedSlot, hcommitted⟩

theorem selected_origin {s : Slot}
    (hs : s ∈ selectedRecords (selectionOf request staged).included out) :
    ∃ record, records[s.1]? = some record ∧ s.2.origin = record.origin := by
  have hmem := (perm_insertionSort _ _).mem_iff.mp hs
  obtain ⟨slot', hslot', rfl⟩ := mem_map.mp hmem
  obtain ⟨dslot, -, slot, -, hget, hst, hcm⟩ := A.provenance (mem_filter.mp hslot').1
  refine ⟨dslot.2, ?_, ?_⟩
  · rw [hcm.index, hst.index]
    exact hget
  · rw [hcm.record, hst.record]
    rfl

theorem ids_nodup : (ctx.contextRefs ++ ctx.omittedIds ++ ctx.prunedIds).Nodup :=
  A.ids_perm.nodup_iff.mpr A.checked.distinct

theorem selected_sorted :
    (selectedRecords (selectionOf request staged).included out).Pairwise fun a b => a.1 < b.1 := by
  have hle : (selectedRecords (selectionOf request staged).included out).Pairwise
      fun a b => a.1 ≤ b.1 := by
    have htotal : Std.Total fun a b : Slot => a.1 ≤ b.1 := ⟨fun a b => Nat.le_total a.1 b.1⟩
    have htrans : IsTrans Slot fun a b => a.1 ≤ b.1 := ⟨fun _ _ _ => Nat.le_trans⟩
    exact pairwise_insertionSort _ _
  have hids : (selectedRecords (selectionOf request staged).included out).Pairwise
      fun a b => a.2.id ≠ b.2.id := by
    have hnodup := (nodup_append.mp (nodup_append.mp A.ids_nodup).1).1
    rw [A.report] at hnodup
    exact pairwise_map.mp hnodup
  refine (hle.and hids).imp_of_mem ?_
  rintro a b ha hb ⟨hle, hne⟩
  obtain ⟨ra, hra, hoa⟩ := A.selected_origin ha
  obtain ⟨rb, hrb, hob⟩ := A.selected_origin hb
  refine lt_of_le_of_ne hle fun heq => hne ?_
  rw [heq, hrb] at hra
  obtain rfl := Option.some.inj hra
  exact congrArg Prod.fst (hoa.trans hob.symm)

theorem origins_sublist : (ctx.records.map (·.origin)).Sublist (records.map (·.origin)) := by
  have h := sublist_of_sorted_indices (f := ContextRecord.origin) (g := ContextRecord.origin)
    A.selected_sorted fun s hs => A.selected_origin hs
  rw [A.report]
  simp only [reportOf, map_map]
  exact h

theorem staged_slot_ids_nodup : (staged.zipIdx.map fun slot => slot.1.record.id).Nodup := by
  rw [map_zipIdx_fst (fun s : Staged => s.record.id)]
  exact A.staged_ids_nodup

theorem filter_selected_perm : (staged.zipIdx.filter fun t => t.1.record.id ∈ ctx.contextRefs).Perm
      (keptSlots request staged) := by
  have h := filter_mem_kept (fun t : Staged × Nat => t.1.record.id)
    (kept_dropped_perm request staged) A.staged_slot_ids_nodup
  simpa only [A.contextRefs_perm.mem_iff] using h

theorem filter_omitted_perm : (staged.zipIdx.filter fun t => t.1.record.id ∈ ctx.omittedIds).Perm
      (droppedSlots request staged) := by
  have h := filter_mem_kept (fun t : Staged × Nat => t.1.record.id)
    (perm_append_comm.trans (kept_dropped_perm request staged)) A.staged_slot_ids_nodup
  simpa only [A.omittedIds_eq] using h

theorem budget_eq : ctx.budgetBytes = request.effectiveBudgetBytes := by
  rw [A.report]
  rfl

theorem omitted_outranked {id : String} (hid : id ∈ ctx.omittedIds) :
    ∃ slot ∈ staged.zipIdx, slot.1.record.id = id ∧
      ctx.budgetBytes < weight slotWeight (staged.zipIdx.filter fun t =>
        t.1.record.id ∈ ctx.contextRefs ∧ outranks t slot) + slotWeight slot := by
  rw [A.omittedIds_eq] at hid
  obtain ⟨slot, hslot, rfl⟩ := mem_map.mp hid
  have hover := fill_dropped_sorted slotWeight request.effectiveBudgetBytes outranks_asymm
    (selectionOrder_outranks staged) hslot
  have hsplit : (staged.zipIdx.filter fun t => t.1.record.id ∈ ctx.contextRefs ∧ outranks t slot) =
      (staged.zipIdx.filter fun t => t.1.record.id ∈ ctx.contextRefs).filter (outranks · slot) := by
    rw [filter_filter]
    refine filter_congr fun t _ => ?_
    simp [Bool.and_comm]
  refine ⟨slot, (kept_dropped_perm request staged).subset (mem_append_right _ hslot), rfl, ?_⟩
  rw [hsplit, weight_perm slotWeight (A.filter_selected_perm.filter _), A.budget_eq]
  rw [Nat.zero_add] at hover
  exact hover

theorem truncated_eq : ctx.truncatedBytes =
      weight slotWeight (staged.zipIdx.filter fun t => t.1.record.id ∈ ctx.omittedIds) := by
  rw [weight_perm slotWeight A.filter_omitted_perm, A.report]
  exact truncatedBytes_eq request staged

end Assembly

/-! ## Exact partition within budget -/

structure PartitionsWithinBudget (records : List ContextRecord) (request : ContextRequest)
    (staged : List Staged) (ctx : AssembledContext) : Prop where
  partition : (ctx.contextRefs ++ ctx.omittedIds ++ ctx.prunedIds).Perm (records.map (·.id)) ∧
    (records.map (·.id)).Nodup
  refs : ctx.contextRefs = ctx.records.map (·.id)
  callerOrder : (ctx.records.map (·.origin)).Sublist (records.map (·.origin))
  budget : ctx.budgetBytes = request.effectiveBudgetBytes
  fits : (ctx.records.map (·.footprintBytes)).sum ≤ ctx.budgetBytes
  omitted : ∀ id ∈ ctx.omittedIds, ∃ slot ∈ staged.zipIdx, slot.1.record.id = id ∧
    ctx.budgetBytes < ((staged.zipIdx.filter fun t =>
      t.1.record.id ∈ ctx.contextRefs ∧ outranks t slot).map (·.1.record.footprintBytes)).sum +
        slot.1.record.footprintBytes
  truncated : ctx.truncatedBytes = ((staged.zipIdx.filter fun t =>
    t.1.record.id ∈ ctx.omittedIds).map (·.1.record.footprintBytes)).sum

/-- A successful assembly is an exact partition of its input within budget. -/
theorem assemble_partitions_within_budget
    (h : assemble records store request = (.ok ctx, store')) :
    ∃ staged, stage store.nextId (dedupe records).slots = .ok staged ∧
      PartitionsWithinBudget records request staged ctx := by
  obtain ⟨staged, out, added, A⟩ := assemble_ok h
  refine ⟨staged, A.staging, ?_⟩
  exact
    { partition := ⟨A.ids_perm, A.checked.distinct⟩
      refs := A.contextRefs_eq
      callerOrder := A.origins_sublist
      budget := A.budget_eq
      fits := A.footprints_le
      omitted := fun _ hid => A.omitted_outranked hid
      truncated := A.truncated_eq }

def plainRecord (id : String) (priority : ContextPriority) (summary : String) : ContextRecord where
  id := id
  provider := "workspace"
  owner := ⟨"agent-turn", by decide⟩
  generation := 1
  collectedAtMs := 0
  priority := priority
  summary := summary
  body := .inline []
  supersedes := none
  isUntrustedSurface := false

def byteRequest (budget : Nat) : ContextRequest := ⟨none, some budget, 1⟩

def splitRecords : List ContextRecord :=
  [plainRecord "a" .normal "12345", plainRecord "b" .high "1234", plainRecord "c" .low "12345"]

theorem assemble_partitions_splitRecords :
    ∃ ctx store', assemble splitRecords ArtifactStore.new (byteRequest 6) = (.ok ctx, store') ∧
      ctx.contextRefs = ["b"] ∧ ctx.omittedIds = ["a"] ∧ ctx.prunedIds = ["c"] ∧
      ∃ staged, stage ArtifactStore.new.nextId (dedupe splitRecords).slots = .ok staged ∧
        PartitionsWithinBudget splitRecords (byteRequest 6) staged ctx :=
  ⟨_, _, rfl, rfl, rfl, rfl, assemble_partitions_within_budget rfl⟩

/-! ## Atomicity on the artifact store -/

namespace Assembly

variable (A : Assembly records store request staged out added ctx store')

include A

theorem included_iff {slot : Staged × Nat} (hslot : slot ∈ staged.zipIdx) :
    slot.2 ∈ (selectionOf request staged).included ↔ slot.1.record.id ∈ ctx.contextRefs := by
  have hpos := (filter_included_perm request staged).mem_iff (a := slot)
  have hid := A.filter_selected_perm.mem_iff (a := slot)
  simp only [mem_filter, hslot, true_and, decide_eq_true_eq] at hpos hid
  exact hpos.trans hid.symm

theorem added_bodies : added.map (·.bytes) =
      ((dedupe records).slots.filter fun s => s.2.id ∈ ctx.contextRefs).filterMap
        (·.2.largeBody) := by
  have hmarked : staged.zipIdx.map (fun slot => if slot.2 ∈ (selectionOf request staged).included
        then slot.1.pending else none) =
      staged.zipIdx.map (fun slot => if slot.1.record.id ∈ ctx.contextRefs
        then slot.1.pending else none) :=
    map_congr_left fun slot hslot => by simp only [A.included_iff hslot]
  have hstaged : (dedupe records).slots.map
      (fun s => if s.2.id ∈ ctx.contextRefs then s.2.largeBody else none) =
      staged.map (fun s => if s.record.id ∈ ctx.contextRefs then s.pending else none) :=
    map_eq_map_of_forall₂ A.staged_slots fun d s h => by rw [h.pending, h.record]
  have hzip := map_zipIdx_fst
    (fun s : Staged => if s.record.id ∈ ctx.contextRefs then s.pending else none) staged 0
  have hmap := (hmarked.trans hzip).trans hstaged.symm
  have hfilter := congrArg (filterMap id) hmap
  rw [filterMap_map, filterMap_map] at hfilter
  rw [A.committed.bytes, filterMap_filter]
  simpa [includedPending, Function.comp_def] using hfilter

/-- The selected form of an input record: its large body is a reference that
resolves to the original bytes, any other body is delivered as it was. -/
theorem selected_content {record : ContextRecord} (hmem : record ∈ records)
    (hsel : record.id ∈ ctx.contextRefs) :
    (∀ bytes, record.largeBody = some bytes → ∃ a ∈ ctx.records, a.origin = record.origin ∧
      ∃ reference, a.content = .reference reference ∧
        store'.resolve reference request.currentGeneration = .ok bytes) ∧
    (record.largeBody = none → record.assembled ∈ ctx.records) := by
  rw [A.contextRefs_eq] at hsel
  obtain ⟨a, ha, haid⟩ := mem_map.mp hsel
  obtain ⟨slot', hslot', rfl⟩ := mem_map.mp (A.selected_perm.mem_iff.mp ha)
  obtain ⟨hout, hin⟩ := mem_filter.mp hslot'
  obtain ⟨dslot, -, slot, -, hget, hstaged, hcommitted⟩ := A.provenance hout
  have hid : dslot.2.id = record.id := by
    have hids : slot'.1.record.id = dslot.2.id := by rw [hcommitted.id_eq, hstaged.record]
    exact hids.symm.trans haid
  obtain rfl : dslot.2 = record :=
    inj_on_of_nodup_map A.checked.distinct (mem_of_getElem? hget) hmem hid
  rw [hcommitted.position, decide_eq_true_eq] at hin
  constructor
  · intro bytes hbytes
    obtain ⟨name, hbody, hadded⟩ := hcommitted.moved bytes hin (hstaged.pending.trans hbytes)
    refine ⟨_, ha, ?_, ⟨name⟩, ?_, ?_⟩
    · show slot'.1.record.origin = dslot.2.origin
      rw [hcommitted.record, hstaged.record]
      rfl
    · simp only [ContextRecord.assembled, hbody]
    · exact A.committed.extended.resolve_of_mem hadded
  · intro hnone
    have hstay := hcommitted.stays (.inr (hstaged.pending.trans hnone))
    rw [hstay, hstaged.small hnone] at ha
    exact ha

end Assembly

structure CommitsSelected (records : List ContextRecord) (store : ArtifactStore)
    (request : ContextRequest) (ctx : AssembledContext) (added : List ArtifactEntry)
    (store' : ArtifactStore) : Prop where
  /-- The store is the old one with `added` appended under consecutive fresh names. -/
  extended : store.Extended added store'
  bodies : added.map (·.bytes) =
    ((dedupe records).slots.filter fun s => s.2.id ∈ ctx.contextRefs).filterMap (·.2.largeBody)
  pinned : ∀ e ∈ added, e.generation = request.currentGeneration
  counted : ctx.externalized = added.length
  resolves : ∀ record ∈ records, record.id ∈ ctx.contextRefs →
    ∀ bytes, record.largeBody = some bytes → ∃ a ∈ ctx.records, a.origin = record.origin ∧
      ∃ reference, a.content = .reference reference ∧
        store'.resolve reference request.currentGeneration = .ok bytes
  inPlace : ∀ record ∈ records, record.id ∈ ctx.contextRefs → record.largeBody = none →
    record.assembled ∈ ctx.records
  earlier : ∀ reference : ArtifactRef, (∀ k, store.nextId < k → reference.text ≠ artifactName k) →
    ∀ generation, store'.resolve reference generation = store.resolve reference generation
  countCap : store'.len ≤ maxArtifacts
  byteCap : store'.totalBytes ≤ maxArtifactStoreBytes

theorem assemble_atomic (records : List ContextRecord) (store : ArtifactStore)
    (request : ContextRequest) :
    match assemble records store request with
    | (.error _, store') => store' = store
    | (.ok ctx, store') => ∃ added, CommitsSelected records store request ctx added store' := by
  rcases assemble_cases records store request with
    ⟨e, he⟩ | ⟨staged, out, added, ctx, store', hrun, A⟩
  · rw [he]
  · rw [hrun]
    refine ⟨added, ?_⟩
    refine
      { extended := A.committed.extended
        bodies := A.added_bodies
        pinned := A.committed.pinned
        counted := by rw [A.report]; rfl
        resolves := fun record hmem hsel => (A.selected_content hmem hsel).1
        inPlace := fun record hmem hsel => (A.selected_content hmem hsel).2
        earlier := ?_
        countCap := store'.wf.countCap
        byteCap := store'.wf.byteCap }
    intro reference hold generation
    refine A.committed.extended.resolve_of_not_mem ?_ generation
    rw [A.committed.extended.names]
    intro hmem
    obtain ⟨k, hk, hname⟩ := mem_map.mp hmem
    exact hold k (by have := mem_range'_1.mp hk; omega) hname.symm

/-! ## When pruning is lossless

A pruned record is accounted for when a chain of trusted supersede links and content
duplicates leads from it to a record that assembly kept. The filter drops every record a
trusted link names without asking whether the linking record survives, so links that run in
a circle prune all of its members. -/

/-! ## Chains of justification -/

/-- One step of a justification: to a trusted record that supersedes `r`, or to
another record of equal content. -/
def StandsIn (records : List ContextRecord) (r s : ContextRecord) : Prop :=
  s ∈ records ∧
    (s.isUntrustedSurface = false ∧ s.supersedes = some r.id ∨ s ≠ r ∧ s.contentKey = r.contentKey)

def Lossless (records : List ContextRecord) (ctx : AssembledContext) : Prop :=
  ∀ r ∈ records, r.id ∈ ctx.prunedIds →
    ∃ s ∈ records, Relation.ReflTransGen (StandsIn records) r s ∧
      (s.id ∈ ctx.contextRefs ∨ s.id ∈ ctx.omittedIds)

/-- A set of input records that supersede links close upon: every member is
superseded, and whatever could stand in for a member is a member. -/
structure SupersedeTrap (records : List ContextRecord) (members : ContextRecord → Prop) :
    Prop where
  inhabited : ∃ r ∈ records, members r
  superseded : ∀ r ∈ records, members r → r.id ∈ supersededIds records
  closed : ∀ r ∈ records, ∀ s, members r → StandsIn records r s → members s

/-! ## Survivors -/

namespace Assembly

variable (A : Assembly records store request staged out added ctx store')

include A

theorem survivors_perm :
    (ctx.contextRefs ++ ctx.omittedIds).Perm ((dedupe records).slots.map (·.2.id)) := by
  have hsplit := A.ids_perm.trans A.staged_ids_perm.symm
  rw [A.staged_ids]
  exact (perm_append_right_iff _).mp hsplit

theorem survivor_iff (id : String) :
    (id ∈ ctx.contextRefs ∨ id ∈ ctx.omittedIds) ↔ ∃ s ∈ (dedupe records).slots, s.2.id = id := by
  have h := A.survivors_perm.mem_iff (a := id)
  simpa using h

theorem survivor_not_superseded {id : String}
    (hid : id ∈ ctx.contextRefs ∨ id ∈ ctx.omittedIds) : id ∉ supersededIds records := by
  obtain ⟨s, hs, rfl⟩ := (A.survivor_iff id).mp hid
  exact ((dedupe_inv records).kept s hs).2

theorem survivor_of_not_superseded {r : ContextRecord}
    (hr : r ∈ records) (hfree : r.id ∉ supersededIds records) :
    ∃ s ∈ records, Relation.ReflTransGen (StandsIn records) r s ∧
      (s.id ∈ ctx.contextRefs ∨ s.id ∈ ctx.omittedIds) := by
  obtain ⟨i, hi⟩ := getElem?_of_mem hr
  have hentry : (r, i) ∈ records.zipIdx := mem_zipIdx_iff_getElem?.mpr hi
  have hkey := (dedupe_inv records).covers (r, i) hentry hfree
  obtain ⟨s, hs, hsame⟩ := mem_map.mp hkey
  have hsmem : s.2 ∈ records := fst_mem_of_mem_zipIdx ((dedupe_inv records).kept s hs).1
  have hsurvives := (A.survivor_iff s.2.id).mpr ⟨s, hs, rfl⟩
  refine ⟨s.2, hsmem, ?_, hsurvives⟩
  by_cases heq : s.2 = r
  · exact heq ▸ .refl
  · exact .single ⟨hsmem, .inr ⟨heq, hsame⟩⟩

theorem pruned_of_superseded {r : ContextRecord} (hr : r ∈ records)
    (hsup : r.id ∈ supersededIds records) : r.id ∈ ctx.prunedIds := by
  have hmem := A.ids_perm.mem_iff.mpr (mem_map_of_mem (f := ContextRecord.id) hr)
  rcases mem_append.mp hmem with hkept | hpruned
  · exact absurd hsup (A.survivor_not_superseded (mem_append.mp hkept))
  · exact hpruned

end Assembly

/-! ## The exact condition -/

theorem SupersedeTrap.reaches {members : ContextRecord → Prop}
    (htrap : SupersedeTrap records members) {r s : ContextRecord} (hr : r ∈ records)
    (hmember : members r) (hchain : Relation.ReflTransGen (StandsIn records) r s) :
    s ∈ records ∧ members s := by
  induction hchain with
  | refl => exact ⟨hr, hmember⟩
  | tail _ hstep ih => exact ⟨hstep.1, htrap.closed _ ih.1 _ ih.2 hstep⟩

/-- Pruning is lossless exactly when no supersede links close upon themselves. -/
theorem assemble_lossless_iff (h : assemble records store request = (.ok ctx, store')) :
    Lossless records ctx ↔ ¬ ∃ members, SupersedeTrap records members := by
  obtain ⟨staged, out, added, A⟩ := assemble_ok h
  constructor
  · rintro hlossless ⟨members, htrap⟩
    obtain ⟨r, hr, hmember⟩ := htrap.inhabited
    have hpruned := A.pruned_of_superseded hr (htrap.superseded r hr hmember)
    obtain ⟨s, -, hchain, hsurvives⟩ := hlossless r hr hpruned
    obtain ⟨hs, hsmember⟩ := htrap.reaches hr hmember hchain
    exact A.survivor_not_superseded hsurvives (htrap.superseded s hs hsmember)
  · intro hfree r hr _
    by_contra hlost
    -- Everything reachable from a lost record is superseded, hence a trap.
    refine hfree ⟨Relation.ReflTransGen (StandsIn records) r, ⟨r, hr, .refl⟩, ?_, ?_⟩
    · intro x hx hchain
      by_contra hnot
      obtain ⟨s, hs, hrest, hsurvives⟩ := A.survivor_of_not_superseded hx hnot
      exact hlost ⟨s, hs, hchain.trans hrest, hsurvives⟩
    · intro x _ y hchain hstep
      exact hchain.tail hstep

def replacedRecords : List ContextRecord :=
  [plainRecord "a" .normal "one", { plainRecord "b" .normal "two" with supersedes := some "a" }]

theorem assemble_lossless_replacedRecords :
    ∃ ctx store', assemble replacedRecords ArtifactStore.new (byteRequest 64) = (.ok ctx, store') ∧
      ctx.prunedIds = ["a"] ∧ Lossless replacedRecords ctx := by
  have hrun : ∃ ctx store',
      assemble replacedRecords ArtifactStore.new (byteRequest 64) = (.ok ctx, store') ∧
        ctx.prunedIds = ["a"] := ⟨_, _, rfl, rfl⟩
  obtain ⟨ctx, store', hrun, hpruned⟩ := hrun
  refine ⟨ctx, store', hrun, hpruned, (assemble_lossless_iff hrun).mpr ?_⟩
  rintro ⟨members, htrap⟩
  have hb : ¬ members { plainRecord "b" .normal "two" with supersedes := some "a" } := fun h =>
    absurd (htrap.superseded _ (by decide) h) (by decide)
  have ha : ¬ members (plainRecord "a" .normal "one") := fun h =>
    hb (htrap.closed _ (by decide) _ h ⟨by decide, .inl ⟨rfl, rfl⟩⟩)
  obtain ⟨r, hr, hmember⟩ := htrap.inhabited
  simp only [replacedRecords, mem_cons, not_mem_nil, or_false] at hr
  rcases hr with rfl | rfl
  · exact ha hmember
  · exact hb hmember

def circularRecords : List ContextRecord :=
  [{ plainRecord "a" .normal "one" with supersedes := some "b" },
    { plainRecord "b" .normal "two" with supersedes := some "a" }]

/-- Records that supersede each other are both dropped, and nothing replaces them. -/
theorem circular_supersede_loses :
    ∃ ctx store', assemble circularRecords ArtifactStore.new (byteRequest 64) = (.ok ctx, store') ∧
      ctx.records = [] ∧ ctx.omittedIds = [] ∧ ctx.prunedIds = ["a", "b"] ∧
      ¬ Lossless circularRecords ctx := by
  refine ⟨_, _, rfl, rfl, rfl, rfl, fun hlossless => ?_⟩
  obtain ⟨s, -, -, hsurvives⟩ := hlossless _ mem_cons_self (by decide)
  rcases hsurvives with h | h
  · exact not_mem_nil h
  · exact not_mem_nil h

end BittyAi.Runtime
