/-
BittyAi.Runtime.ContextInfluenceTheorems — what untrusted records can do to the selection of
trusted high-priority records.

A two-run property: two record lists with the same trusted records, assembled against one
store and one request. Untrusted records reach the privileged selection (trusted, `High` or
`Critical`) along two paths only:

* slot order — an untrusted copy that stands first opens the dedupe slot, and
  the trusted record that reclaims it inherits the earlier position;
* reference width — untrusted large bodies take part in the numbering of the
  predicted references, and a longer number is a larger footprint.
-/
import BittyAi.Lib.SortedList
import BittyAi.Runtime.ContextAssemblyTheorems

namespace BittyAi.Runtime

open Lib ArtifactStore List Assembly

/-! ## Trusted records -/

def trustedRecords (records : List ContextRecord) : List ContextRecord :=
  records.filter fun r => !r.isUntrustedSurface

/-- Trusted records of priority `High` or `Critical`. -/
def Privileged (r : ContextRecord) : Prop :=
  r.isUntrustedSurface = false ∧ ContextPriority.high.rank ≤ r.priority.rank

instance (r : ContextRecord) : Decidable (Privileged r) := inferInstanceAs (Decidable (_ ∧ _))

theorem supersededIds_trustedRecords (records : List ContextRecord) :
    supersededIds (trustedRecords records) = supersededIds records := by
  simp [supersededIds, trustedRecords, filter_filter]

theorem privileged_iff_rank (r : ContextRecord) :
    Privileged r ↔ ContextPriority.high.rank ≤ (effectivePriority r).rank := by
  unfold Privileged effectivePriority
  cases r.isUntrustedSurface <;> cases r.priority <;> simp [ContextPriority.rank]

/-! ## Offers, seen through a content filter -/

variable {record : ContextRecord}

section Offer

variable (keep : ContextRecord → Bool)
  (hkeep : ∀ a b : ContextRecord, a.contentKey = b.contentKey → keep a = keep b)

include hkeep in
theorem offer_filter (index : Nat) (slots : List Slot) :
    (offer index record slots).1.filter (fun s => keep s.2) =
      if keep record then (offer index record (slots.filter fun s => keep s.2)).1
      else slots.filter fun s => keep s.2 := by
  induction slots with
  | nil => cases hpos : keep record <;> simp [offer, hpos]
  | cons slot rest ih =>
    by_cases hsame : slot.2.sameContent record = true
    · have hslot := hkeep _ _ (sameContent_iff.mp hsame)
      by_cases hnew : keepNew slot.2 record = true <;>
        cases hpos : keep record <;> simp [offer, hsame, hnew, hpos, hslot]
    · cases hslot : keep slot.2 <;> cases hpos : keep record <;>
        simp_all [offer]

end Offer

theorem offer_map_snd (index index' : Nat) (record : ContextRecord) :
    ∀ {slots slots' : List Slot}, slots.map Prod.snd = slots'.map Prod.snd →
      (offer index record slots).1.map Prod.snd = (offer index' record slots').1.map Prod.snd
  | [], [], _ => rfl
  | [], _ :: _, h => by simp at h
  | _ :: _, [], h => by simp at h
  | slot :: rest, slot' :: rest', h => by
      simp only [map_cons, cons.injEq] at h
      obtain ⟨hslot, hrest⟩ := h
      have ih := offer_map_snd index index' record hrest
      unfold offer
      rw [hslot]
      split
      next => split <;> simp [hslot, hrest]
      next => simp [hslot, ih]

theorem offer_declined (index : Nat) :
    ∀ {slots : List Slot}, record.contentKey ∈ slots.map (·.2.contentKey) →
      (∀ s ∈ slots, s.2.contentKey = record.contentKey → keepNew s.2 record = false) →
      (offer index record slots).1 = slots
  | [], h, _ => by simp at h
  | slot :: rest, h, hdecline => by
      unfold offer
      by_cases hsame : slot.2.sameContent record = true
      · have hstay := hdecline slot mem_cons_self (sameContent_iff.mp hsame)
        simp [hsame, hstay]
      · have hkey : record.contentKey ∈ rest.map (·.2.contentKey) := by
          rcases mem_cons.mp h with heq | hmem
          · exact absurd (sameContent_iff.mpr heq.symm) hsame
          · exact hmem
        have ih := offer_declined index hkey fun s hs => hdecline s (mem_cons_of_mem _ hs)
        simp [hsame, ih]

/-! ## The slots of a list and of its trusted part -/

theorem dedupeRun_concat (superseded : List String) (records : List ContextRecord)
    (record : ContextRecord) :
    dedupeRun superseded (records ++ [record]) =
      dedupeStep superseded (dedupeRun superseded records) (record, records.length) := by
  simp [dedupeRun, zipIdx_append]

theorem trustedRecords_concat (records : List ContextRecord) (record : ContextRecord) :
    trustedRecords (records ++ [record]) =
      if record.isUntrustedSurface then trustedRecords records
      else trustedRecords records ++ [record] := by
  cases h : record.isUntrustedSurface <;> simp [trustedRecords, h]

/-- Among the records of interest, every untrusted one comes after a trusted record of its
content; superseded records do not count. -/
def AnchoredIn (keep : ContextRecord → Bool) (superseded : List String)
    (records : List ContextRecord) : Prop :=
  ∀ before u after, records = before ++ u :: after → keep u = true →
    u.isUntrustedSurface = true → u.id ∉ superseded →
    ∃ t ∈ before, t.isUntrustedSurface = false ∧ t.id ∉ superseded ∧
      t.contentKey = u.contentKey

def heldRecords (keep : ContextRecord → Bool) (acc : Deduped) : List ContextRecord :=
  (acc.slots.filter fun s => keep s.2).map Prod.snd

variable {acc : Deduped} {r : ContextRecord}

section Held

variable (keep : ContextRecord → Bool)
  (hkeep : ∀ a b : ContextRecord, a.contentKey = b.contentKey → keep a = keep b)

variable (superseded : List String)

include hkeep in
theorem heldRecords_step_congr (record : ContextRecord)
    (index index' : Nat) {acc' : Deduped} (h : heldRecords keep acc = heldRecords keep acc') :
    heldRecords keep (dedupeStep superseded acc (record, index)) =
      heldRecords keep (dedupeStep superseded acc' (record, index')) := by
  unfold heldRecords at *
  by_cases hsup : record.id ∈ superseded
  · simpa [dedupeStep, hsup] using h
  · simp only [dedupeStep, hsup, if_false]
    cases hpos : keep record with
    | true =>
      simp only [offer_filter keep hkeep, hpos, if_true]
      exact offer_map_snd index index' record h
    | false => simpa [offer_filter keep hkeep, hpos] using h

theorem mem_heldRecords_step {superseded : List String} {index : Nat}
    (h : r ∈ heldRecords keep (dedupeStep superseded acc (record, index))) :
    r ∈ heldRecords keep acc ∨ r = record := by
  obtain ⟨s, hs, rfl⟩ := mem_map.mp h
  obtain ⟨hslot, hpos⟩ := mem_filter.mp hs
  have hback : s ∈ acc.slots ∨ s = (index, record) := by
    unfold dedupeStep at hslot
    split at hslot
    next => exact .inl hslot
    next => exact mem_offer hslot
  rcases hback with hold | rfl
  · exact .inl (mem_map.mpr ⟨s, mem_filter.mpr ⟨hold, hpos⟩, rfl⟩)
  · exact .inr rfl

include hkeep in
theorem heldRecords_step_untrusted
    (index : Nat) (hun : record.isUntrustedSurface = true)
    (htrust : ∀ r ∈ heldRecords keep acc, r.isUntrustedSurface = false)
    (hheld : keep record = true → record.id ∉ superseded →
      record.contentKey ∈ acc.slots.map (·.2.contentKey)) :
    heldRecords keep (dedupeStep superseded acc (record, index)) = heldRecords keep acc := by
  by_cases hsup : record.id ∈ superseded
  · simp [dedupeStep, hsup, heldRecords]
  · cases hpos : keep record with
    | false => simp [dedupeStep, hsup, heldRecords, offer_filter keep hkeep, hpos]
    | true =>
      have hdeclined : (offer index record acc.slots).1 = acc.slots := by
        refine offer_declined index (hheld hpos hsup) fun s hs hsame => ?_
        have hskeep : keep s.2 = true := (hkeep _ _ hsame).trans hpos
        have hstrust : s.2.isUntrustedSurface = false :=
          htrust s.2 (mem_map.mpr ⟨s, mem_filter.mpr ⟨hs, hskeep⟩, rfl⟩)
        simp [keepNew, hstrust, hun]
      simp only [dedupeStep, hsup, if_false, heldRecords, hdeclined]

include hkeep in
/-- The slots of interest of a scanned prefix hold trusted records, the same
ones that the trusted part of the prefix puts there. -/
theorem heldRecords_anchored (records : List ContextRecord)
    (hanchored : AnchoredIn keep superseded records) :
    ∀ seen rest, records = seen ++ rest →
      heldRecords keep (dedupeRun superseded seen) =
          heldRecords keep (dedupeRun superseded (trustedRecords seen)) ∧
        ∀ r ∈ heldRecords keep (dedupeRun superseded seen), r.isUntrustedSurface = false := by
  intro seen
  induction seen using reverseRecOn with
  | nil => intro _ _; simp [trustedRecords, dedupeRun, heldRecords]
  | append_singleton seen x ih =>
    intro rest hrecords
    rw [append_assoc, singleton_append] at hrecords
    obtain ⟨hheld, htrust⟩ := ih (x :: rest) hrecords
    rw [dedupeRun_concat, trustedRecords_concat]
    cases hun : x.isUntrustedSurface with
    | false =>
      simp only [Bool.false_eq_true, if_false, dedupeRun_concat]
      refine ⟨heldRecords_step_congr keep hkeep superseded x _ _ hheld, fun r hr => ?_⟩
      rcases mem_heldRecords_step keep hr with hr | rfl
      · exact htrust r hr
      · exact hun
    | true =>
      have hstep := heldRecords_step_untrusted keep hkeep superseded seen.length hun htrust
        fun hpos hsup => by
          obtain ⟨t, ht, -, htsup, hsame⟩ := hanchored seen x rest hrecords hpos hun hsup
          obtain ⟨i, hi⟩ := getElem?_of_mem ht
          have hcovers := (dedupeRun_inv superseded seen).covers (t, i)
            (mem_zipIdx_iff_getElem?.mpr hi) htsup
          exact hsame ▸ hcovers
      simp only [if_true]
      rw [hstep]
      exact ⟨hheld, htrust⟩

include hkeep in
theorem dedupe_anchored (records : List ContextRecord)
    (hanchored : AnchoredIn keep (supersededIds records) records) :
    heldRecords keep (dedupe records) = heldRecords keep (dedupe (trustedRecords records)) := by
  have h := (heldRecords_anchored keep hkeep (supersededIds records) records hanchored records []
    (append_nil _).symm).1
  rw [← supersededIds_trustedRecords] at h
  rw [dedupe, dedupe, ← supersededIds_trustedRecords records]
  exact h

end Held

/-! ## Staged footprints -/

def ContextRecord.isLarge (record : ContextRecord) : Bool := record.largeBody.isSome

theorem isLarge_congr (a b : ContextRecord) (h : a.contentKey = b.contentKey) :
    a.isLarge = b.isLarge := by
  have hbody : a.body = b.body := congrArg (fun key => key.2.2.2) h
  simp only [ContextRecord.isLarge, ContextRecord.largeBody, hbody]

/-- The values of a list in the order in which they are first seen. -/
def firstSeen {κ : Type} [DecidableEq κ] (keys : List κ) : List κ := keys.reverse.dedup.reverse

theorem firstSeen_concat {κ : Type} [DecidableEq κ] (keys : List κ) (key : κ) :
    firstSeen (keys ++ [key]) =
      if key ∈ firstSeen keys then firstSeen keys else firstSeen keys ++ [key] := by
  by_cases h : key ∈ keys
  · simp [firstSeen, h, dedup_cons_of_mem]
  · simp [firstSeen, h, dedup_cons_of_notMem]

/-- The number in the reference of a large body: the large contents are numbered on from the
store's counter, in the order in which they are first seen; superseded records do not count. -/
def artifactNumber (store : ArtifactStore) (records : List ContextRecord) (r : ContextRecord) :
    Nat :=
  store.nextId + 1 + (firstSeen ((records.filter fun x =>
    x.isLarge && x.id ∉ supersededIds records).map (·.contentKey))).idxOf r.contentKey

/-- The contents of the slots of interest come in the order in which they are first seen. -/
theorem keys_dedupeRun (keep : ContextRecord → Bool)
    (hkeep : ∀ a b : ContextRecord, a.contentKey = b.contentKey → keep a = keep b)
    (superseded : List String) (records : List ContextRecord) :
    ((dedupeRun superseded records).slots.filter fun s => keep s.2).map (·.2.contentKey) =
      firstSeen ((records.filter fun r => keep r && r.id ∉ superseded).map (·.contentKey)) := by
  induction records using reverseRecOn with
  | nil => rfl
  | append_singleton seen x ih =>
    rw [dedupeRun_concat, filter_append, map_append]
    by_cases hsup : x.id ∈ superseded
    · simpa [dedupeStep, hsup] using ih
    · simp only [dedupeStep, hsup, if_false, offer_filter keep hkeep]
      cases hpos : keep x with
      | false => simpa [hpos] using ih
      | true =>
        have hlast : [x].filter (fun r => keep r && r.id ∉ superseded) = [x] := by
          simp [hpos, hsup]
        rw [if_pos rfl, keys_offer, ih, hlast, map_singleton, firstSeen_concat]
        split <;> simp [*]

theorem keys_dedupe_nodup (records : List ContextRecord) :
    ((dedupe records).slots.map (·.2.contentKey)).Nodup := by
  have hkeys := keys_dedupeRun (fun _ => true) (fun _ _ _ => rfl) (supersededIds records) records
  rw [filter_true] at hkeys
  exact (congrArg Nodup hkeys).mpr (nodup_reverse.mpr (nodup_dedup _))

/-- The staged form of a record whose reference, if it takes one, has this number. -/
def stagedRecord (number : ContextRecord → Nat) (record : ContextRecord) : ContextRecord :=
  if record.isLarge then { record with body := .artifact ⟨artifactName (number record)⟩ }
  else record

def slotNumber (lastId : Nat) (slots : List Slot) (r : ContextRecord) : Nat :=
  lastId + 1 + ((slots.filter (·.2.isLarge)).map (·.2.contentKey)).idxOf r.contentKey

theorem slotNumber_dedupe (store : ArtifactStore) (records : List ContextRecord) :
    slotNumber store.nextId (dedupe records).slots = artifactNumber store records := by
  funext r
  have hkeys := keys_dedupeRun _ isLarge_congr (supersededIds records) records
  rw [artifactNumber, ← hkeys]
  rfl

theorem StagedFrom.records_eq {lastId : Nat} {slots : List Slot} {staged : List Staged}
    (h : StagedFrom lastId slots staged) (hnodup : (slots.map (·.2.contentKey)).Nodup) :
    staged.map (·.record) =
      (slots.map Prod.snd).map (stagedRecord (slotNumber lastId slots)) := by
  induction h with
  | nil => rfl
  | @large lastId index record bytes slots staged hbody _ _ ih =>
    rw [map_cons, nodup_cons] at hnodup
    have hlarge : record.isLarge = true := by simp [ContextRecord.isLarge, hbody]
    rw [map_cons, map_cons, map_cons, ih hnodup.2]
    congr 1
    · simp [stagedRecord, slotNumber, hlarge]
    · refine map_congr_left fun r hr => ?_
      obtain ⟨slot, hslot, rfl⟩ := mem_map.mp hr
      have hne : record.contentKey ≠ slot.2.contentKey :=
        fun h => hnodup.1 (h ▸ mem_map_of_mem (f := fun s : Slot => s.2.contentKey) hslot)
      have hshift : slotNumber lastId ((index, record) :: slots) slot.2 =
          slotNumber (lastId + 1) slots slot.2 := by
        simp only [slotNumber, filter_cons, hlarge, if_true, map_cons, idxOf_cons,
          beq_false_of_ne hne, cond_false]
        omega
      rw [stagedRecord, stagedRecord, hshift]
  | @small lastId index record slots staged hbody _ ih =>
    rw [map_cons, nodup_cons] at hnodup
    have hsmall : ¬ record.isLarge = true := by simp [ContextRecord.isLarge, hbody]
    rw [map_cons, map_cons, map_cons, ih hnodup.2]
    congr 1
    · simp [stagedRecord, hsmall]
    · have hsame : slotNumber lastId ((index, record) :: slots) = slotNumber lastId slots := by
        funext r
        simp [slotNumber, hsmall]
      rw [hsame]

theorem stagedRecord_id (number : ContextRecord → Nat) (r : ContextRecord) :
    (stagedRecord number r).id = r.id := by
  unfold stagedRecord
  split <;> rfl

theorem effectivePriority_stagedRecord (number : ContextRecord → Nat) (r : ContextRecord) :
    effectivePriority (stagedRecord number r) = effectivePriority r := by
  unfold stagedRecord
  split <;> rfl

/-! ## The privileged front of the priority order -/

def slotRank (slot : Staged × Nat) : Nat := (effectivePriority slot.1.record).rank

theorem rank_lt_four (p : ContextPriority) : p.rank < 4 := by cases p <;> decide

theorem selectionOrder_eq_buckets (staged : List Staged) :
    selectionOrder staged = buckets slotRank 4 staged.zipIdx := by
  refine eq_buckets_of_pairwise slotRank outranks_asymm (fun a b h => .inl h)
    (fun s _ => rank_lt_four _) ?_ (selectionOrder_outranks staged) (selectionOrder_perm staged)
  have hrange : (staged.zipIdx.map Prod.snd).Pairwise (· < ·) := by
    rw [zipIdx_map_snd]
    exact pairwise_lt_range'
  exact (pairwise_map.mp hrange).imp fun h heq => .inr ⟨heq.symm, h⟩

def charges (number : ContextRecord → Nat) (records : List ContextRecord) : List (String × Nat) :=
  records.map fun r => (r.id, (stagedRecord number r).footprintBytes)

/-- The records whose effective priority is at least `High`, as the greedy order
visits them. -/
def privilegedOrder (records : List ContextRecord) : List ContextRecord :=
  records.filter (fun r => (effectivePriority r).rank = 3) ++
    records.filter (fun r => (effectivePriority r).rank = 2)

theorem rank_charges {lastId : Nat} {slots : List Slot} {staged : List Staged}
    (h : StagedFrom lastId slots staged) (hnodup : (slots.map (·.2.contentKey)).Nodup) (n : Nat) :
    (staged.zipIdx.filter (slotRank · = n)).map (fun s => (s.1.record.id, slotWeight s)) =
      charges (slotNumber lastId slots)
        ((slots.map Prod.snd).filter fun r => (effectivePriority r).rank = n) := by
  have hrecords : staged.zipIdx.map (fun s => s.1.record) =
      (slots.map Prod.snd).map (stagedRecord (slotNumber lastId slots)) := by
    rw [map_zipIdx_fst (fun s : Staged => s.record), h.records_eq hnodup]
  have hslots : (staged.zipIdx.filter (slotRank · = n)).map
      (fun s => (s.1.record.id, slotWeight s)) =
      ((staged.zipIdx.map fun s => s.1.record).filter
        fun r => (effectivePriority r).rank = n).map fun r => (r.id, r.footprintBytes) := by
    rw [filter_map, map_map]
    rfl
  rw [hslots, hrecords, filter_map, map_map, charges]
  simp only [Function.comp_def, effectivePriority_stagedRecord, stagedRecord_id]

namespace Assembly

variable {records : List ContextRecord} {store store' : ArtifactStore} {request : ContextRequest}
  {staged : List Staged} {out : List (Staged × Nat)} {added : List ArtifactEntry}
  {ctx : AssembledContext}

def slotRecords (records : List ContextRecord) : List ContextRecord :=
  (dedupe records).slots.map Prod.snd

theorem slotRecords_subset (hr : r ∈ slotRecords records) :
    r ∈ records ∧ r.id ∉ supersededIds records := by
  obtain ⟨s, hs, rfl⟩ := mem_map.mp hr
  have h := (dedupe_inv records).kept s hs
  exact ⟨fst_mem_of_mem_zipIdx h.1, h.2⟩

def privilegedKept (budget : Nat) (store : ArtifactStore) (records : List ContextRecord) :
    List String :=
  (fill Prod.snd budget 0 (charges (artifactNumber store records)
    (privilegedOrder (slotRecords records)))).1.map Prod.fst

/-- A privileged record is selected exactly when the scan of the privileged
slots alone keeps it: nothing of lower rank is visited before. -/
theorem selected_privileged_iff (A : Assembly records store request staged out added ctx store')
    (hr : r ∈ records) (hprivileged : Privileged r) :
    r.id ∈ ctx.contextRefs ↔
      r.id ∈ privilegedKept request.effectiveBudgetBytes store records := by
  have hstaged := stage_ok A.staging
  let front := staged.zipIdx.filter (slotRank · = 3) ++ staged.zipIdx.filter (slotRank · = 2)
  have horder : selectionOrder staged = front ++ buckets slotRank 2 staged.zipIdx := by
    rw [selectionOrder_eq_buckets, buckets, buckets, ← append_assoc]
  have hcharges : front.map (fun s => (s.1.record.id, slotWeight s)) =
      charges (artifactNumber store records) (privilegedOrder (slotRecords records)) := by
    rw [map_append, rank_charges hstaged (keys_dedupe_nodup records),
      rank_charges hstaged (keys_dedupe_nodup records), slotNumber_dedupe, privilegedOrder, charges,
      charges, charges, map_append]
    rfl
  have hkept : (fill slotWeight request.effectiveBudgetBytes 0 front).1.map (·.1.record.id) =
      privilegedKept request.effectiveBudgetBytes store records := by
    rw [privilegedKept, ← hcharges, fill_map, map_map]
    rfl
  rw [A.contextRefs_perm.mem_iff, keptSlots, horder, fill_append, map_append, hkept,
    mem_append, or_iff_left]
  -- What the scan keeps after the front has a lower rank, so it is not `r`.
  intro hmem
  obtain ⟨slot, hslot, hid⟩ := mem_map.mp hmem
  obtain ⟨hzip, hrank⟩ := (mem_buckets slotRank).mp ((fill_spec _ _ _ _).2.subset hslot)
  obtain ⟨dslot, hdslot, hst⟩ := exists_left_of_forall₂ A.staged_slots (fst_mem_of_mem_zipIdx hzip)
  have hdrecord := ((dedupe_inv records).kept dslot hdslot).1
  have hsame : dslot.2 = r := by
    refine inj_on_of_nodup_map A.checked.distinct (fst_mem_of_mem_zipIdx hdrecord) hr ?_
    have : slot.1.record.id = dslot.2.id := by rw [hst.record]
    exact this.symm.trans hid
  have hsrank : slotRank slot = (effectivePriority r).rank := by
    rw [slotRank, hst.record, ← hsame]
    rfl
  have := (privileged_iff_rank r).mp hprivileged
  rw [← hsrank] at this
  exact absurd this (Nat.not_le.mpr hrank)

end Assembly

/-! ## The two paths of influence, closed -/

/-- Every untrusted copy of a privileged record comes after a trusted copy; superseded records do
not count. -/
def CopiesAnchored (records : List ContextRecord) : Prop :=
  ∀ before u after, records = before ++ u :: after →
    u.isUntrustedSurface = true → u.id ∉ supersededIds records →
    (∃ t ∈ records, Privileged t ∧ t.id ∉ supersededIds records ∧
      t.contentKey = u.contentKey) →
    ∃ t ∈ before, t.isUntrustedSurface = false ∧ t.id ∉ supersededIds records ∧
      t.contentKey = u.contentKey

/-- The references of privileged large bodies have numbers of the same length for both lists. -/
def ReferencesSteady (store : ArtifactStore) (records₁ records₂ : List ContextRecord) : Prop :=
  ∀ r ∈ records₁, Privileged r → r.isLarge = true → r.id ∉ supersededIds records₁ →
    decimalSize (artifactNumber store records₁ r) = decimalSize (artifactNumber store records₂ r)

def privilegedContent (records : List ContextRecord) (r : ContextRecord) : Bool :=
  records.any fun t => decide (Privileged t ∧ t.id ∉ supersededIds records ∧
    t.contentKey = r.contentKey)

variable {records : List ContextRecord} {store : ArtifactStore}

theorem privilegedContent_iff :
    privilegedContent records r = true ↔ ∃ t ∈ records, Privileged t ∧
      t.id ∉ supersededIds records ∧ t.contentKey = r.contentKey := by
  simp [privilegedContent]

theorem privilegedContent_congr (records : List ContextRecord) (a b : ContextRecord)
    (h : a.contentKey = b.contentKey) :
    privilegedContent records a = privilegedContent records b := by
  simp only [privilegedContent, h]

theorem mem_trustedRecords :
    r ∈ trustedRecords records ↔ r ∈ records ∧ r.isUntrustedSurface = false := by
  simp [trustedRecords]

theorem privilegedContent_trustedRecords (records : List ContextRecord) (r : ContextRecord) :
    privilegedContent (trustedRecords records) r = privilegedContent records r := by
  rw [Bool.eq_iff_iff, privilegedContent_iff, privilegedContent_iff, supersededIds_trustedRecords]
  constructor
  · rintro ⟨t, ht, hrest⟩
    exact ⟨t, (mem_trustedRecords.mp ht).1, hrest⟩
  · rintro ⟨t, ht, hpriv, hrest⟩
    exact ⟨t, mem_trustedRecords.mpr ⟨ht, hpriv.1⟩, hpriv, hrest⟩

theorem heldRecords_eq_filter (keep : ContextRecord → Bool) (records : List ContextRecord) :
    heldRecords keep (dedupe records) = (slotRecords records).filter keep := by
  rw [slotRecords, filter_map]
  rfl

theorem privilegedOrder_anchored
    (hanchored : CopiesAnchored records) :
    privilegedOrder (slotRecords records) =
      privilegedOrder (heldRecords (privilegedContent (trustedRecords records))
        (dedupe (trustedRecords records))) := by
  have hheld : heldRecords (privilegedContent records) (dedupe records) =
      heldRecords (privilegedContent records) (dedupe (trustedRecords records)) := by
    refine dedupe_anchored _ (privilegedContent_congr records) records ?_
    intro before u after hsplit hkeep hun hsup
    exact hanchored before u after hsplit hun hsup (privilegedContent_iff.mp hkeep)
  have hfront : ∀ n, 2 ≤ n →
      (slotRecords records).filter (fun r => (effectivePriority r).rank = n) =
      (heldRecords (privilegedContent records) (dedupe records)).filter
        (fun r => (effectivePriority r).rank = n) := by
    intro n hn
    rw [heldRecords_eq_filter, filter_filter]
    refine filter_congr fun r hr => ?_
    obtain ⟨hmem, hsup⟩ := slotRecords_subset hr
    by_cases hrank : (effectivePriority r).rank = n
    · have hpriv : Privileged r := (privileged_iff_rank r).mpr (by rw [hrank]; exact hn)
      have hcontent := privilegedContent_iff.mpr ⟨r, hmem, hpriv, hsup, rfl⟩
      simp [hrank, hcontent]
    · simp [hrank]
  have hsame : privilegedContent (trustedRecords records) = privilegedContent records :=
    funext (privilegedContent_trustedRecords records)
  rw [hsame, ← hheld, privilegedOrder, privilegedOrder, hfront 3 (by omega), hfront 2 (by omega)]

theorem mem_privilegedOrder
    (hr : r ∈ privilegedOrder records) : r ∈ records ∧ Privileged r := by
  rcases mem_append.mp hr with h | h <;> obtain ⟨hmem, hrank⟩ := mem_filter.mp h <;>
    exact ⟨hmem, (privileged_iff_rank r).mpr (by
      rw [decide_eq_true_eq] at hrank
      rw [hrank]
      decide)⟩

theorem charges_agree {records₁ records₂ : List ContextRecord}
    (horder : privilegedOrder (slotRecords records₁) = privilegedOrder (slotRecords records₂))
    (hsteady : ReferencesSteady store records₁ records₂) :
    charges (artifactNumber store records₁) (privilegedOrder (slotRecords records₁)) =
      charges (artifactNumber store records₂) (privilegedOrder (slotRecords records₂)) := by
  rw [← horder]
  refine map_congr_left fun r hr => ?_
  obtain ⟨hmem, hpriv⟩ := mem_privilegedOrder hr
  obtain ⟨hrecord, hsup⟩ := slotRecords_subset hmem
  unfold stagedRecord
  split
  next hlarge =>
    simp only [ContextRecord.footprintBytes, RecordBody.byteLen, utf8ByteSize_artifactName,
      hsteady r hrecord hpriv hlarge hsup]
  next => rfl

/-- With slot order out of reach and the references of privileged bodies of the same length,
untrusted records do not change which privileged records are selected. -/
theorem assemble_privileged_agree {records₁ records₂ : List ContextRecord}
    {store store₁ store₂ : ArtifactStore} {request : ContextRequest}
    {ctx₁ ctx₂ : AssembledContext}
    (h₁ : assemble records₁ store request = (.ok ctx₁, store₁))
    (h₂ : assemble records₂ store request = (.ok ctx₂, store₂))
    (htrusted : trustedRecords records₁ = trustedRecords records₂)
    (hanchored₁ : CopiesAnchored records₁) (hanchored₂ : CopiesAnchored records₂)
    (hsteady : ReferencesSteady store records₁ records₂) :
    ∀ r ∈ records₁, Privileged r → (r.id ∈ ctx₁.contextRefs ↔ r.id ∈ ctx₂.contextRefs) := by
  intro r hr hpriv
  obtain ⟨staged₁, out₁, added₁, A₁⟩ := assemble_ok h₁
  obtain ⟨staged₂, out₂, added₂, A₂⟩ := assemble_ok h₂
  have hr₂ : r ∈ records₂ := by
    have hmem := mem_trustedRecords.mpr ⟨hr, hpriv.1⟩
    rw [htrusted] at hmem
    exact (mem_trustedRecords.mp hmem).1
  have horder : privilegedOrder (slotRecords records₁) =
      privilegedOrder (slotRecords records₂) := by
    rw [privilegedOrder_anchored hanchored₁, privilegedOrder_anchored hanchored₂, htrusted]
  rw [A₁.selected_privileged_iff hr hpriv, A₂.selected_privileged_iff hr₂ hpriv,
    privilegedKept, privilegedKept, charges_agree horder hsteady]

/-- A `High` record whose body is stored by reference. -/
def largeRecord (id : String) (byte : UInt8) : ContextRecord :=
  { plainRecord id .high "s" with body := .inline (replicate 4097 byte) }

def untrusted (r : ContextRecord) : ContextRecord := { r with isUntrustedSurface := true }

def copiedRecords : List ContextRecord :=
  [largeRecord "t" 1, untrusted (largeRecord "u" 1), untrusted (largeRecord "v" 2)]

set_option maxRecDepth 20000 in
/-- The reference of `t` has the first number in both runs: the copy `u` shares it, and `v` takes
the second. -/
theorem assemble_privileged_agree_copy_last : ∃ ctx₁ ctx₂ store₁ store₂,
      assemble [largeRecord "t" 1] new (byteRequest 13) = (.ok ctx₁, store₁) ∧
      assemble copiedRecords new (byteRequest 13) = (.ok ctx₂, store₂) ∧
      (∀ r ∈ [largeRecord "t" 1], Privileged r →
        (r.id ∈ ctx₁.contextRefs ↔ r.id ∈ ctx₂.contextRefs)) ∧
      ctx₂.contextRefs = ["t"] := by
  have hrun₁ : ∃ ctx store',
      assemble [largeRecord "t" 1] new (byteRequest 13) = (.ok ctx, store') := ⟨_, _, rfl⟩
  have hrun₂ : ∃ ctx store', assemble copiedRecords new (byteRequest 13) = (.ok ctx, store') ∧
      ctx.contextRefs = ["t"] := ⟨_, _, rfl, rfl⟩
  obtain ⟨ctx₁, store₁, hrun₁⟩ := hrun₁
  obtain ⟨ctx₂, store₂, hrun₂, hselected⟩ := hrun₂
  refine ⟨ctx₁, ctx₂, store₁, store₂, hrun₁, hrun₂,
    assemble_privileged_agree hrun₁ hrun₂ rfl ?_ ?_ ?_, hselected⟩
  · intro before u after hsplit hun
    have hu : u ∈ [largeRecord "t" 1] := by rw [hsplit]; simp
    cases mem_singleton.mp hu
    cases hun
  · intro before u after hsplit hun
    match before, hsplit with
    | [], hsplit => cases hsplit; cases hun
    | [_], hsplit =>
      cases hsplit
      exact fun _ _ => ⟨largeRecord "t" 1, by simp, rfl, by decide, rfl⟩
    | [_, _], hsplit =>
      cases hsplit
      rintro - ⟨t, ht, hpriv, -, hkey⟩
      rcases mem_cons.mp ht with rfl | ht
      · exact absurd hkey (by decide)
      · rcases mem_pair.mp ht with rfl | rfl <;> cases hpriv.1
    | _ :: _ :: _ :: _, hsplit => simp [copiedRecords] at hsplit
  · intro r hr _ _ _
    cases mem_singleton.mp hr
    rfl

/-- Two trusted `High` records of which a five-byte budget fits one. -/
def rivalRecords : List ContextRecord :=
  [plainRecord "t1" .high "aaaa", plainRecord "t2" .high "bbbb"]

def untrustedCopy : ContextRecord := untrusted (plainRecord "u" .low "bbbb")

/-- A copy in front of its original moves the original to the front slot: the
budget that selected the first rival now selects the second. -/
theorem untrusted_copy_displaces_privileged : ∃ ctx₁ ctx₂ store₁ store₂,
      assemble rivalRecords new (byteRequest 5) = (.ok ctx₁, store₁) ∧
      assemble (untrustedCopy :: rivalRecords) new (byteRequest 5) =
        (.ok ctx₂, store₂) ∧
      trustedRecords rivalRecords = trustedRecords (untrustedCopy :: rivalRecords) ∧
      (∀ r ∈ rivalRecords, Privileged r) ∧
      ctx₁.contextRefs = ["t1"] ∧ ctx₂.contextRefs = ["t2"] :=
  ⟨_, _, _, _, rfl, rfl, by decide, by decide, rfl, rfl⟩

end BittyAi.Runtime
