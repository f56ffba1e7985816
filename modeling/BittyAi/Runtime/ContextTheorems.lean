/-
BittyAi.Runtime.ContextTheorems — one specification per stage of `assemble`.
-/
import BittyAi.Lib.GreedyFill
import BittyAi.Lib.Scan
import BittyAi.Runtime.ArtifactStoreTheorems
import BittyAi.Runtime.Context

namespace BittyAi.Runtime

open Lib List

/-! ## Record checks -/

variable {record : ContextRecord}
variable {bytes : List UInt8} {slot' : Staged × Nat} {out : List (Staged × Nat)}
  (records : List ContextRecord) (rest : List (Staged × Nat))

theorem ContextRecord.validate_ok (h : record.validate = .ok ()) :
    record.provider ∈ knownProviders ∧ record.summary.utf8ByteSize ≤ maxSummaryBytes ∧
      ∀ bytes, record.body = .inline bytes → bytes.length ≤ maxRecordBodyBytes := by
  unfold ContextRecord.validate at h
  split at h
  next => cases h
  next hprovider =>
    split at h
    next => cases h
    next hsummary =>
      refine ⟨not_not.mp hprovider, by omega, ?_⟩
      intro bytes hbody
      simp only [hbody] at h
      split at h
      next => cases h
      next hlen => omega

theorem validateAll_ok : ∀ {records : List ContextRecord}, validateAll records = .ok () →
    ∀ record ∈ records, record.validate = .ok ()
  | [], _ => by simp
  | first :: rest, h => by
      unfold validateAll at h
      split at h
      next => cases h
      next hfirst => exact forall_mem_cons.mpr ⟨hfirst, validateAll_ok h⟩

theorem rejectDuplicateIds_ok : ∀ {records : List ContextRecord} {seen : List String},
    rejectDuplicateIds seen records = .ok () →
    (records.map (·.id)).Nodup ∧ ∀ record ∈ records, record.id ∉ seen
  | [], _, _ => by simp
  | first :: rest, seen, h => by
      unfold rejectDuplicateIds at h
      split at h
      next => cases h
      next hfresh =>
        obtain ⟨hnodup, hseen⟩ := rejectDuplicateIds_ok h
        rw [map_cons, nodup_cons]
        refine ⟨⟨fun hmem => ?_, hnodup⟩, ?_⟩
        · obtain ⟨record, hrecord, hid⟩ := mem_map.mp hmem
          exact hseen record hrecord (hid ▸ mem_cons_self)
        · exact forall_mem_cons.mpr
            ⟨hfresh, fun record hmem h => hseen record hmem (mem_cons_of_mem _ h)⟩

theorem rejectStale_ok {current : Nat} : ∀ {records : List ContextRecord},
    rejectStale current records = .ok () → ∀ record ∈ records, record.generation = current
  | [], _ => by simp
  | first :: rest, h => by
      unfold rejectStale at h
      split at h
      next => cases h
      next hfirst => exact forall_mem_cons.mpr ⟨not_not.mp hfirst, rejectStale_ok h⟩

structure Checked (records : List ContextRecord) (current : Nat) : Prop where
  count : records.length ≤ maxContextRecords
  valid : ∀ record ∈ records, record.validate = .ok ()
  distinct : (records.map (·.id)).Nodup
  fresh : ∀ record ∈ records, record.generation = current

theorem checkRecords_ok {records : List ContextRecord} {current : Nat}
    (h : checkRecords records current = .ok ()) : Checked records current := by
  unfold checkRecords at h
  split at h
  next => cases h
  next hcount =>
    split at h
    next => cases h
    next hvalid =>
      split at h
      next => cases h
      next hdistinct =>
        exact ⟨by omega, validateAll_ok hvalid, (rejectDuplicateIds_ok hdistinct).1,
          rejectStale_ok h⟩

/-! ## Dedupe -/

def ContextRecord.contentKey (record : ContextRecord) : String × StableId × String × RecordBody :=
  (record.provider, record.owner, record.summary, record.body)

theorem sameContent_iff {a b : ContextRecord} :
    a.sameContent b = true ↔ a.contentKey = b.contentKey := by
  simp [ContextRecord.sameContent, ContextRecord.contentKey, and_assoc]

theorem mem_offer {index : Nat} {s : Slot} :
    ∀ {slots : List Slot}, s ∈ (offer index record slots).1 → s ∈ slots ∨ s = (index, record)
  | [], h => .inr (mem_singleton.mp h)
  | slot :: rest, h => by
      unfold offer at h
      split at h
      next =>
        split at h
        next =>
          rcases mem_cons.mp h with rfl | h
          · exact .inr rfl
          · exact .inl (mem_cons_of_mem _ h)
        next => exact .inl h
      next =>
        rcases mem_cons.mp h with rfl | h
        · exact .inl mem_cons_self
        · exact (mem_offer h).imp_left (mem_cons_of_mem _)

theorem offer_perm (index : Nat) (record : ContextRecord) : ∀ slots : List Slot,
    ((offer index record slots).1.map (·.2.id) ++ (offer index record slots).2.toList).Perm
      (slots.map (·.2.id) ++ [record.id])
  | [] => by simp [offer]
  | slot :: rest => by
      unfold offer
      split
      next =>
        split
        next =>
          simp only [map_cons, Option.toList_some, cons_append]
          exact ((perm_append_singleton _ _).cons _).trans
            ((List.Perm.swap _ _ _).trans ((perm_append_singleton _ _).symm.cons _))
        next => simp
      next => simpa using (offer_perm index record rest).cons slot.2.id

theorem keys_offer (index : Nat) (record : ContextRecord) : ∀ slots : List Slot,
    (offer index record slots).1.map (·.2.contentKey) =
      if record.contentKey ∈ slots.map (·.2.contentKey) then slots.map (·.2.contentKey)
      else slots.map (·.2.contentKey) ++ [record.contentKey]
  | [] => by simp [offer]
  | slot :: rest => by
      unfold offer
      split
      next hsame =>
        rw [sameContent_iff] at hsame
        split <;> simp [hsame]
      next hdiff =>
        rw [sameContent_iff] at hdiff
        have hne : record.contentKey ≠ slot.2.contentKey := fun h => hdiff h.symm
        rw [map_cons, keys_offer index record rest]
        by_cases hmem : record.contentKey ∈ rest.map (·.2.contentKey)
        · simp [hmem]
        · simp [hmem, hne]

/-- What the dedupe loop has established after `seen`. -/
structure DedupeInv (superseded : List String) (seen : List (ContextRecord × Nat))
    (acc : Deduped) : Prop where
  ids : (acc.slots.map (·.2.id) ++ acc.prunedIds).Perm (seen.map (·.1.id))
  kept : ∀ s ∈ acc.slots, (s.2, s.1) ∈ seen ∧ s.2.id ∉ superseded
  covers : ∀ e ∈ seen, e.1.id ∉ superseded → e.1.contentKey ∈ acc.slots.map (·.2.contentKey)

theorem DedupeInv.step {superseded : List String} {seen : List (ContextRecord × Nat)}
    {acc : Deduped} (h : DedupeInv superseded seen acc) (entry : ContextRecord × Nat) :
    DedupeInv superseded (seen ++ [entry]) (dedupeStep superseded acc entry) := by
  unfold dedupeStep
  split
  next hsup =>
    refine ⟨?_, ?_, ?_⟩
    · rw [← append_assoc, map_append, map_singleton]
      exact h.ids.append_right _
    · intro s hs
      exact ⟨mem_append_left _ (h.kept s hs).1, (h.kept s hs).2⟩
    · exact forall_mem_append.mpr ⟨h.covers, forall_mem_singleton.mpr (absurd hsup)⟩
  next hfree =>
    refine ⟨?_, ?_, ?_⟩
    · have hoffer := offer_perm entry.2 entry.1 acc.slots
      rw [map_append, map_singleton]
      calc (offer entry.2 entry.1 acc.slots).1.map (·.2.id) ++
              (acc.prunedIds ++ (offer entry.2 entry.1 acc.slots).2.toList)
        _ |>.Perm ((offer entry.2 entry.1 acc.slots).1.map (·.2.id) ++
              ((offer entry.2 entry.1 acc.slots).2.toList ++ acc.prunedIds)) :=
            perm_append_comm.append_left _
        _ |>.Perm (acc.slots.map (·.2.id) ++ [entry.1.id] ++ acc.prunedIds) := by
            rw [← append_assoc]
            exact hoffer.append_right _
        _ |>.Perm (acc.slots.map (·.2.id) ++ acc.prunedIds ++ [entry.1.id]) := by
            rw [append_assoc, append_assoc]
            exact perm_append_comm.append_left _
        _ |>.Perm (seen.map (·.1.id) ++ [entry.1.id]) := h.ids.append_right _
    · intro s hs
      rcases mem_offer hs with hs | rfl
      · exact ⟨mem_append_left _ (h.kept s hs).1, (h.kept s hs).2⟩
      · exact ⟨mem_append_right _ (mem_singleton.mpr rfl), hfree⟩
    · intro e he hfree'
      simp only [keys_offer]
      rcases mem_append.mp he with he | he
      · have := h.covers e he hfree'
        split
        · exact this
        · exact mem_append_left _ this
      · obtain rfl := mem_singleton.mp he
        split
        · assumption
        · simp

def dedupeRun (superseded : List String) (records : List ContextRecord) : Deduped :=
  records.zipIdx.foldl (dedupeStep superseded) ⟨[], []⟩

theorem dedupeRun_inv (superseded : List String) (records : List ContextRecord) :
    DedupeInv superseded records.zipIdx (dedupeRun superseded records) :=
  foldl_induction records.zipIdx ⟨by simp, by simp, by simp⟩
    fun _ entry _ _ _ h => h.step entry

theorem dedupe_inv : DedupeInv (supersededIds records) records.zipIdx (dedupe records) :=
  dedupeRun_inv (supersededIds records) records

/-! ## Staging -/

/-- Staging as a relation: large bodies take the names after `lastId` in slot
order, everything else is copied. -/
inductive StagedFrom : Nat → List Slot → List Staged → Prop
  | nil (lastId : Nat) : StagedFrom lastId [] []
  | large {lastId index : Nat} {record : ContextRecord} {bytes : List UInt8}
      {slots : List Slot} {staged : List Staged}
      (hbody : record.largeBody = some bytes) (hlen : bytes.length ≤ maxArtifactBytes)
      (rest : StagedFrom (lastId + 1) slots staged) :
      StagedFrom lastId ((index, record) :: slots)
        (⟨index, { record with body := .artifact ⟨artifactName (lastId + 1)⟩ }, some bytes⟩ ::
          staged)
  | small {lastId index : Nat} {record : ContextRecord} {slots : List Slot}
      {staged : List Staged} (hbody : record.largeBody = none)
      (rest : StagedFrom lastId slots staged) :
      StagedFrom lastId ((index, record) :: slots) (⟨index, record, none⟩ :: staged)

theorem stage_ok : ∀ {slots : List Slot} {lastId : Nat} {staged : List Staged},
    stage lastId slots = .ok staged → StagedFrom lastId slots staged
  | [], lastId, staged, h => by
      cases h
      exact .nil lastId
  | (index, record) :: rest, lastId, staged, h => by
      unfold stage at h
      split at h
      next bytes hbody =>
        split at h
        next => cases h
        next hlen =>
          cases hrest : stage (lastId + 1) rest with
          | error e => simp [hrest, Except.map] at h
          | ok tail =>
            simp only [hrest, Except.map, Except.ok.injEq] at h
            exact h ▸ .large hbody (by omega) (stage_ok hrest)
      next hbody =>
        cases hrest : stage lastId rest with
        | error e => simp [hrest, Except.map] at h
        | ok tail =>
          simp only [hrest, Except.map, Except.ok.injEq] at h
          exact h ▸ .small hbody (stage_ok hrest)

structure StagedSlot (slot : Slot) (staged : Staged) : Prop where
  index : staged.index = slot.1
  record : staged.record = { slot.2 with body := staged.record.body }
  pending : staged.pending = slot.2.largeBody
  small : slot.2.largeBody = none → staged.record = slot.2

variable {lastId : Nat} {slots : List Slot} {staged : List Staged}

theorem StagedFrom.forall₂
    (h : StagedFrom lastId slots staged) : List.Forall₂ StagedSlot slots staged := by
  induction h with
  | nil => exact .nil
  | large hbody _ _ ih => exact .cons ⟨rfl, rfl, hbody.symm, by simp [hbody]⟩ ih
  | small hbody _ ih => exact .cons ⟨rfl, rfl, hbody.symm, fun _ => rfl⟩ ih

/-! ## Greedy inclusion -/

theorem slotBefore_total (a b : Staged × Nat) : slotBefore a b ∨ slotBefore b a := by
  unfold slotBefore
  omega

theorem slotBefore_trans {a b c : Staged × Nat} (hab : slotBefore a b) (hbc : slotBefore b c) :
    slotBefore a c := by
  unfold slotBefore at *
  omega

instance : Std.Total slotBefore := ⟨slotBefore_total⟩

instance : IsTrans (Staged × Nat) slotBefore := ⟨fun _ _ _ => slotBefore_trans⟩

theorem selectionOrder_perm (staged : List Staged) : (selectionOrder staged).Perm staged.zipIdx :=
  perm_insertionSort _ _

theorem selectionOrder_sorted (staged : List Staged) :
    (selectionOrder staged).Pairwise slotBefore :=
  pairwise_insertionSort _ _

def slotWeight (slot : Staged × Nat) : Nat := slot.1.record.footprintBytes

variable {slot : Staged × Nat}

theorem greedyStep_fits {budget : Nat} {acc : Selection}
    (hfit : acc.used + slotWeight slot ≤ budget) :
    greedyStep budget acc slot =
      { acc with included := acc.included ++ [slot.2], used := acc.used + slotWeight slot } := by
  unfold slotWeight at hfit ⊢
  rw [greedyStep, if_pos hfit]

theorem greedyStep_over {budget : Nat} {acc : Selection}
    (hover : ¬ acc.used + slotWeight slot ≤ budget) :
    ∃ providers, greedyStep budget acc slot =
      { acc with
        omittedIds := acc.omittedIds ++ [slot.1.record.id]
        truncatedBytes := acc.truncatedBytes + slotWeight slot
        truncatedProviders := providers } := by
  unfold slotWeight at hover ⊢
  exact ⟨_, by rw [greedyStep, if_neg hover]⟩

theorem foldl_greedyStep (budget : Nat) : ∀ (order : List (Staged × Nat)) (acc : Selection),
    (order.foldl (greedyStep budget) acc).included =
        acc.included ++ (fill slotWeight budget acc.used order).1.map (·.2) ∧
      (order.foldl (greedyStep budget) acc).omittedIds =
        acc.omittedIds ++ (fill slotWeight budget acc.used order).2.map (·.1.record.id) ∧
      (order.foldl (greedyStep budget) acc).truncatedBytes =
        acc.truncatedBytes + weight slotWeight (fill slotWeight budget acc.used order).2
  | [], acc => by simp
  | slot :: rest, acc => by
      rw [foldl_cons]
      by_cases hfit : acc.used + slotWeight slot ≤ budget
      · rw [greedyStep_fits hfit, fill_cons_fits slotWeight budget rest hfit]
        obtain ⟨hinc, homit, htrunc⟩ := foldl_greedyStep budget rest
          { acc with included := acc.included ++ [slot.2], used := acc.used + slotWeight slot }
        exact ⟨by simpa using hinc, homit, htrunc⟩
      · obtain ⟨providers, hstep⟩ := greedyStep_over hfit
        rw [hstep, fill_cons_over slotWeight budget rest hfit]
        obtain ⟨hinc, homit, htrunc⟩ := foldl_greedyStep budget rest
          { acc with
            omittedIds := acc.omittedIds ++ [slot.1.record.id]
            truncatedBytes := acc.truncatedBytes + slotWeight slot
            truncatedProviders := providers }
        exact ⟨hinc, by simpa using homit, by rw [htrunc, weight_cons, Nat.add_assoc]⟩

theorem greedy_eq_fill (budget : Nat) (order : List (Staged × Nat)) :
    (greedy budget order).included = (fill slotWeight budget 0 order).1.map (·.2) ∧
      (greedy budget order).omittedIds = (fill slotWeight budget 0 order).2.map (·.1.record.id) ∧
      (greedy budget order).truncatedBytes =
        weight slotWeight (fill slotWeight budget 0 order).2 := by
  simpa [greedy] using foldl_greedyStep budget order ⟨[], 0, [], 0, []⟩

/-! ## Commit -/

structure CommittedSlot (generation : Nat) (included : List Nat) (added : List ArtifactEntry)
    (slot slot' : Staged × Nat) : Prop where
  position : slot'.2 = slot.2
  index : slot'.1.index = slot.1.index
  record : slot'.1.record = { slot.1.record with body := slot'.1.record.body }
  footprint : slot'.1.record.footprintBytes ≤ slot.1.record.footprintBytes
  moved : ∀ bytes, slot.2 ∈ included → slot.1.pending = some bytes →
    ∃ name, slot'.1.record.body = .artifact ⟨name⟩ ∧ ⟨name, bytes, generation⟩ ∈ added
  stays : slot.2 ∉ included ∨ slot.1.pending = none → slot' = slot

variable {generation : Nat} {included : List Nat} {added : List ArtifactEntry}

theorem CommittedSlot.id_eq (h : CommittedSlot generation included added slot slot') :
    slot'.1.record.id = slot.1.record.id := by
  rw [h.record]

theorem CommittedSlot.mono {added' : List ArtifactEntry}
    (h : CommittedSlot generation included added slot slot') (hsub : added ⊆ added') :
    CommittedSlot generation included added' slot slot' where
  __ := h
  moved bytes hin hpending := by
    obtain ⟨name, hbody, hmem⟩ := h.moved bytes hin hpending
    exact ⟨name, hbody, hsub hmem⟩

theorem CommittedSlot.refl (h : slot.2 ∉ included ∨ slot.1.pending = none) :
    CommittedSlot generation included added slot slot where
  position := rfl
  index := rfl
  record := rfl
  footprint := le_rfl
  moved bytes hin hpending := by simp [hin, hpending] at h
  stays _ := rfl

theorem footprint_rename_le (record : ContextRecord) {m n : Nat} (h : m ≤ n) :
    ({ record with body := .artifact ⟨artifactName m⟩ } : ContextRecord).footprintBytes ≤
      ({ record with body := .artifact ⟨artifactName n⟩ } : ContextRecord).footprintBytes := by
  have := decimalSize_mono h
  simp only [ContextRecord.footprintBytes, RecordBody.byteLen, utf8ByteSize_artifactName]
  omega

/-- The entry of a body that was stored, under the reference its slot came out with. -/
def committedEntry (generation : Nat) (included : List Nat) (pair : (Staged × Nat) × Staged × Nat) :
    Option ArtifactEntry :=
  match pair.2.1.record.body with
  | .artifact reference =>
    (if pair.1.2 ∈ included then pair.1.1.pending else none).map (⟨reference.text, ·, generation⟩)
  | .inline _ => none

/-- What the commit loop delivers: the slots with their committed bodies and the
entries it appended to the store. -/
structure CommitResult (generation : Nat) (included : List Nat) (slots : List (Staged × Nat))
    (store : ArtifactStore) (out : List (Staged × Nat)) (added : List ArtifactEntry)
    (store' : ArtifactStore) : Prop where
  run : commit generation included slots store = (.ok (out, added.length), store')
  extended : store.Extended added store'
  entries : added = (slots.zip out).filterMap (committedEntry generation included)
  bytes : added.map (·.bytes) = includedPending included slots
  pinned : ∀ e ∈ added, e.generation = generation
  slots : List.Forall₂ (CommittedSlot generation included added) slots out

theorem includedPending_skip (hskip : slot.2 ∉ included ∨ slot.1.pending = none) :
    includedPending included (slot :: rest) = includedPending included rest := by
  rcases hskip with hskip | hskip <;> simp [includedPending, hskip]

theorem includedPending_move (hin : slot.2 ∈ included) (hpending : slot.1.pending = some bytes) :
    includedPending included (slot :: rest) = bytes :: includedPending included rest := by
  simp [includedPending, hin, hpending]

variable {store store' : ArtifactStore}

theorem commit_skip {rest : List (Staged × Nat)} (hskip : slot.2 ∉ included ∨ slot.1.pending = none)
    (h : CommitResult generation included rest store out added store') :
    CommitResult generation included (slot :: rest) store (slot :: out) added store' := by
  have hnone : (if slot.2 ∈ included then slot.1.pending else none) = none := by
    rcases hskip with hskip | hskip <;> simp [hskip]
  refine ⟨?_, h.extended, ?_, ?_, h.pinned, .cons (.refl hskip) h.slots⟩
  · rw [commit]
    simp only [hnone, h.run]
  · rw [zip_cons_cons, filterMap_cons_none, ← h.entries]
    simp only [committedEntry, hnone]
    split <;> rfl
  · rw [h.bytes, includedPending_skip rest hskip]

theorem commit_move {rest : List (Staged × Nat)} {pushed : ArtifactStore} (hin : slot.2 ∈ included)
    (hpending : slot.1.pending = some bytes)
    (hrecord : slot.1.record = { record with body := .artifact ⟨artifactName (lastId + 1)⟩ })
    (hle : store.nextId ≤ lastId)
    (hstore : store.store bytes generation = (.ok ⟨artifactName (store.nextId + 1)⟩, pushed))
    (hpush : store.Pushed bytes generation pushed)
    (h : CommitResult generation included rest pushed out added store') :
    CommitResult generation included (slot :: rest) store
      (({ slot.1 with
          record := { slot.1.record with body := .artifact ⟨artifactName (store.nextId + 1)⟩ }
          pending := none }, slot.2) :: out)
      (⟨artifactName (store.nextId + 1), bytes, generation⟩ :: added) store' := by
  have hsome : (if slot.2 ∈ included then slot.1.pending else none) = some bytes := by
    simp [hin, hpending]
  refine ⟨?_, .push hpush h.extended, ?_, ?_, ?_, .cons ?_ (h.slots.imp fun _ _ hs =>
    hs.mono (subset_cons_self _ _))⟩
  · rw [commit]
    simp only [hsome, hstore, h.run, length_cons]
  · rw [zip_cons_cons, filterMap_cons, ← h.entries]
    simp only [committedEntry, hsome, Option.map_some]
  · rw [map_cons, h.bytes, includedPending_move rest hin hpending]
  · exact forall_mem_cons.mpr ⟨rfl, h.pinned⟩
  · refine ⟨rfl, rfl, rfl, ?_, ?_, ?_⟩
    · rw [hrecord]
      exact footprint_rename_le record (Nat.succ_le_succ hle)
    · intro bytes' _ hpending'
      obtain rfl := Option.some.inj (hpending.symm.trans hpending')
      exact ⟨_, rfl, mem_cons_self⟩
    · intro hstays
      simp [hin, hpending] at hstays

theorem commit_spec (generation : Nat) (included : List Nat)
    (hstaged : StagedFrom lastId slots staged) :
    ∀ (k : Nat) (store : ArtifactStore), store.nextId ≤ lastId →
      store.len + (includedPending included (staged.zipIdx k)).length ≤ maxArtifacts →
      store.totalBytes + ((includedPending included (staged.zipIdx k)).map length).sum ≤
        maxArtifactStoreBytes →
      ∃ out added store',
        CommitResult generation included (staged.zipIdx k) store out added store' := by
  induction hstaged with
  | nil lastId =>
    intro k store _ _ _
    exact ⟨[], [], store, rfl, .refl store, rfl, rfl, by simp, .nil⟩
  | @small lastId index record slots staged hbody rest ih =>
    intro k store hle hcount htotal
    rw [zipIdx_cons, includedPending_skip _ (.inr rfl)] at hcount htotal
    obtain ⟨out, added, store', h⟩ := ih (k + 1) store hle hcount htotal
    exact ⟨_, added, store', commit_skip (.inr rfl) h⟩
  | @large lastId index record bytes slots staged hbody hlen rest ih =>
    intro k store hle hcount htotal
    rw [zipIdx_cons] at hcount htotal ⊢
    by_cases hin : k ∈ included
    · rw [includedPending_move _ hin rfl] at hcount htotal
      simp only [length_cons, map_cons, sum_cons] at hcount htotal
      obtain ⟨pushed, hstore, hpush⟩ := store.store_of_room generation
        ⟨hlen, by rw [ArtifactStore.len] at hcount; omega, by omega⟩
      obtain ⟨out, added, store', h⟩ := ih (k + 1) pushed (by rw [hpush.nextId]; omega)
        (by rw [ArtifactStore.len, hpush.entries]; simp [ArtifactStore.len] at hcount ⊢; omega)
        (by rw [hpush.totalBytes]; omega)
      exact ⟨_, _, store', commit_move hin rfl rfl hle hstore hpush h⟩
    · rw [includedPending_skip _ (.inl hin)] at hcount htotal
      obtain ⟨out, added, store', h⟩ := ih (k + 1) store (by omega) hcount htotal
      exact ⟨_, added, store', commit_skip (.inl hin) h⟩

/-! ## Assembly -/

def selectionOf (request : ContextRequest) (staged : List Staged) : Selection :=
  greedy request.effectiveBudgetBytes (selectionOrder staged)

def reportOf (request : ContextRequest) (prunedIds : List String) (staged : List Staged)
    (out : List (Staged × Nat)) (count : Nat) : AssembledContext :=
  let selection := selectionOf request staged
  let selected := selectedRecords selection.included out
  { records := selected.map fun slot => slot.2.assembled
    contextRefs := selected.map fun slot => slot.2.id
    omittedIds := selection.omittedIds
    prunedIds := prunedIds
    externalized := count
    truncatedBytes := selection.truncatedBytes
    truncatedTokensEstimate := estimateTokens selection.truncatedBytes
    truncatedProviders := selection.truncatedProviders
    budgetBytes := request.effectiveBudgetBytes }

structure Assembly (records : List ContextRecord) (store : ArtifactStore)
    (request : ContextRequest) (staged : List Staged) (out : List (Staged × Nat))
    (added : List ArtifactEntry) (ctx : AssembledContext) (store' : ArtifactStore) : Prop where
  checked : Checked records request.currentGeneration
  staging : stage store.nextId (dedupe records).slots = .ok staged
  committed : CommitResult request.currentGeneration (selectionOf request staged).included
    staged.zipIdx store out added store'
  report : ctx = reportOf request (dedupe records).prunedIds staged out added.length

theorem assembleStaged_cases
    (hstaged : StagedFrom store.nextId slots staged) (request : ContextRequest)
    (prunedIds : List String) :
    (∃ e, assembleStaged store request prunedIds staged = (.error e, store)) ∨
    (∃ out added store',
      assembleStaged store request prunedIds staged =
        (.ok (reportOf request prunedIds staged out added.length), store') ∧
      CommitResult request.currentGeneration (selectionOf request staged).included
        staged.zipIdx store out added store') := by
  unfold assembleStaged
  simp only
  split
  next => exact .inl ⟨_, rfl⟩
  next =>
    split
    next => exact .inl ⟨_, rfl⟩
    next hcount =>
      split
      next => exact .inl ⟨_, rfl⟩
      next htotal =>
        obtain ⟨out, added, store', h⟩ := commit_spec request.currentGeneration
          (selectionOf request staged).included hstaged 0 store le_rfl
          (Nat.not_lt.mp hcount) (Nat.not_lt.mp htotal)
        refine .inr ⟨out, added, store', ?_, h⟩
        have hrun := h.run
        rw [selectionOf] at hrun
        simp only [hrun]
        rfl

theorem assemble_cases (store : ArtifactStore) (request : ContextRequest) :
    (∃ e, assemble records store request = (.error e, store)) ∨
    (∃ staged out added ctx store', assemble records store request = (.ok ctx, store') ∧
      Assembly records store request staged out added ctx store') := by
  unfold assemble
  split
  next => exact .inl ⟨_, rfl⟩
  next hchecked =>
    split
    next => exact .inl ⟨_, rfl⟩
    next staged hstage =>
      have hstaged := stage_ok hstage
      rcases assembleStaged_cases hstaged request (dedupe records).prunedIds with
        ⟨e, he⟩ | ⟨out, added, store', hrun, hcommit⟩
      · exact .inl ⟨e, he⟩
      · exact .inr ⟨staged, out, added, _, store', hrun,
          ⟨checkRecords_ok hchecked, hstage, hcommit, rfl⟩⟩

theorem assemble_ok {records : List ContextRecord}
    {request : ContextRequest} {ctx : AssembledContext}
    (h : assemble records store request = (.ok ctx, store')) :
    ∃ staged out added, Assembly records store request staged out added ctx store' := by
  rcases assemble_cases records store request with ⟨e, he⟩ | ⟨staged, out, added, ctx', s, hrun, ha⟩
  · rw [he] at h
    cases h
  · rw [hrun] at h
    cases h
    exact ⟨staged, out, added, ha⟩

end BittyAi.Runtime
