/-
BittyAi.Runtime.ArtifactHistoryTheorems — what an artifact store holds after any calls on it.

The log of a run has every accepted `store` and every `invalidate`. The store holds exactly the
entries that were stored and not invalidated since, and the log never has a reference twice.
-/
import BittyAi.Runtime.ContextAssemblyTheorems

namespace BittyAi.Runtime.ArtifactStore

open Lib List

inductive StoreOp where
  | store (bytes : List UInt8) (generation : Nat)
  | invalidate (reference : ArtifactRef)
  | assemble (records : List ContextRecord) (request : ContextRequest)

/-- What a caller has seen: an accepted `store`, alone or of a commit, and each `invalidate`. -/
inductive StoreEvent where
  | stored (entry : ArtifactEntry)
  | invalidated (reference : String)

/-- A reference that `assemble` answers where the caller's record has its bytes inline. -/
def returnedEntry (records : List ContextRecord) (generation : Nat) (answer : AssembledRecord) :
    Option ArtifactEntry :=
  match answer.content, (records.find? (·.id = answer.id)).map ContextRecord.body with
  | .reference target, some (.inline bytes) => some ⟨target.text, bytes, generation⟩
  | _, _ => none

def serve (state : ArtifactStore × List StoreEvent) : StoreOp → ArtifactStore × List StoreEvent
  | .store bytes generation =>
    match state.1.store bytes generation with
    | (.ok reference, s) => (s, .stored ⟨reference.text, bytes, generation⟩ :: state.2)
    | (.error _, s) => (s, state.2)
  | .invalidate reference =>
    ((state.1.invalidate reference).2, .invalidated reference.text :: state.2)
  | .assemble records request =>
    match Runtime.assemble records state.1 request with
    | (.ok ctx, s) =>
      (s, (ctx.records.filterMap (returnedEntry records request.currentGeneration)).map .stored ++
        state.2)
    | (.error _, s) => (s, state.2)

def history (ops : List StoreOp) : ArtifactStore × List StoreEvent := ops.foldl serve (.new, [])

def LiveIn (entry : ArtifactEntry) : List StoreEvent → Prop
  | [] => False
  | .stored other :: log => other = entry ∨ LiveIn entry log
  | .invalidated reference :: log => reference ≠ entry.reference ∧ LiveIn entry log

def StoreEvent.reference? : StoreEvent → Option String
  | .stored entry => some entry.reference
  | .invalidated _ => none

structure Tracks (s : ArtifactStore) (log : List StoreEvent) : Prop where
  live : ∀ entry, entry ∈ s.entries ↔ LiveIn entry log
  minted : (log.filterMap StoreEvent.reference?).Perm ((range' 1 s.nextId).map artifactName)
  buried : ∀ reference ∈ s.deleted, .invalidated reference ∈ log

variable {s s' : ArtifactStore} {log : List StoreEvent} {added : List ArtifactEntry}

theorem liveIn_stored (entry : ArtifactEntry) (added : List ArtifactEntry) :
    LiveIn entry (added.map .stored ++ log) ↔ entry ∈ added ∨ LiveIn entry log := by
  induction added with
  | nil => simp
  | cons other added ih => simp [LiveIn, ih, or_assoc, eq_comm]

theorem Tracks.extended {logged : List ArtifactEntry} (h : Tracks s log)
    (hext : Extended s added s') (hlogged : logged.Perm added) :
    Tracks s' (logged.map .stored ++ log) where
  live entry := by
    rw [hext.entries, mem_append, h.live, liveIn_stored, hlogged.mem_iff, or_comm]
  minted := by
    have hnames : (logged.map StoreEvent.stored).filterMap StoreEvent.reference? =
        logged.map (·.reference) := by
      simp [filterMap_map, StoreEvent.reference?, Function.comp_def]
    rw [filterMap_append, hnames, hext.nextId, ← range'_append_1, map_append,
      Nat.add_comm 1 s.nextId, ← hext.names]
    exact ((hlogged.map _).append h.minted).trans perm_append_comm
  buried reference hmem := mem_append_right _ (h.buried reference (hext.deleted ▸ hmem))

theorem Tracks.invalidate (h : Tracks s log) (reference : ArtifactRef) :
    Tracks (s.invalidate reference).2 (.invalidated reference.text :: log) := by
  unfold ArtifactStore.invalidate
  split
  next entry hfind =>
    obtain ⟨before, after, heq, herase, href⟩ := find_split hfind
    refine ⟨fun other => ?_, h.minted, fun name hname => ?_⟩
    · have hdistinct := s.wf.distinct
      rw [heq, map_append, map_cons, nodup_middle, nodup_cons, ← map_append, href] at hdistinct
      have hlive := h.live other
      rw [heq] at hlive
      change other ∈ s.entries.eraseP _ ↔ _
      rw [LiveIn, ← hlive, herase]
      constructor
      · intro hmem
        refine ⟨fun hname => hdistinct.1 (hname ▸ mem_map_of_mem hmem), ?_⟩
        simp only [mem_append, mem_cons] at hmem ⊢
        tauto
      · rintro ⟨hne, hmem⟩
        simp only [mem_append, mem_cons] at hmem ⊢
        rcases hmem with hmem | rfl | hmem
        · exact .inl hmem
        · exact absurd href.symm hne
        · exact .inr hmem
    · unfold ArtifactStore.buried at hname
      split at hname
      · rcases mem_append.mp hname with hname | hname
        · exact mem_cons_of_mem _ (h.buried name hname)
        · rw [mem_singleton.mp hname]
          exact mem_cons_self
      · exact mem_cons_of_mem _ (h.buried name hname)
  next hfind =>
    refine ⟨fun entry => ?_, h.minted, fun name hname => mem_cons_of_mem _ (h.buried name hname)⟩
    rw [LiveIn, ← h.live]
    refine ⟨fun hmem => ⟨fun hname => ?_, hmem⟩, fun hmem => hmem.2⟩
    exact find?_eq_none.mp hfind entry hmem (by simp [hname])

variable {records : List ContextRecord} {request : ContextRequest} {staged : List Staged}
  {out : List (Staged × Nat)} {ctx : AssembledContext}

theorem returned_of_committed (A : Assembly records s request staged out added ctx s')
    {pair : (Staged × Nat) × Staged × Nat} (hpair : pair ∈ staged.zipIdx.zip out) :
    committedEntry request.currentGeneration (selectionOf request staged).included pair =
      if pair.2.2 ∈ (selectionOf request staged).included then
        returnedEntry records request.currentGeneration pair.2.1.record.assembled
      else none := by
  obtain ⟨slot, slot'⟩ := pair
  have hcommitted := (forall₂_iff_zip.mp A.committed.slots).2 hpair
  have hslot : slot.1 ∈ staged := fst_mem_of_mem_zipIdx (of_mem_zip hpair).1
  obtain ⟨dslot, hdslot, hstaged⟩ := exists_left_of_forall₂ A.staged_slots hslot
  have hrecord : dslot.2 ∈ records :=
    fst_mem_of_mem_zipIdx ((dedupe_inv records).kept dslot hdslot).1
  have hid : dslot.2.id = slot'.1.record.id := by rw [hcommitted.id_eq, hstaged.record]
  have hfind : records.find? (·.id = slot'.1.record.assembled.id) = some dslot.2 :=
    (find?_key_eq_some A.checked.distinct).mpr ⟨hrecord, hid⟩
  simp only [committedEntry, returnedEntry, hfind, hcommitted.position, Option.map_some]
  by_cases hin : slot.2 ∈ (selectionOf request staged).included
  · simp only [hin, if_true, hstaged.pending]
    cases hlarge : dslot.2.largeBody with
    | none =>
      rw [hcommitted.stays (.inr (hstaged.pending.trans hlarge)), hstaged.small hlarge]
      cases hbody : dslot.2.body <;> simp [ContextRecord.assembled, hbody]
    | some bytes =>
      obtain ⟨name, hbody, -⟩ := hcommitted.moved bytes hin (hstaged.pending.trans hlarge)
      simp only [ContextRecord.largeBody] at hlarge
      split at hlarge <;> simp_all [ContextRecord.assembled]
  · simp only [hin, if_false]
    split <;> rfl

/-- The references that `assemble` answers are those of the entries it stored. -/
theorem returned_perm (A : Assembly records s request staged out added ctx s') :
    (ctx.records.filterMap (returnedEntry records request.currentGeneration)).Perm added := by
  refine (A.selected_perm.filterMap _).trans (.of_eq ?_)
  have hlength := (forall₂_iff_zip.mp A.committed.slots).1
  rw [A.committed.entries, filterMap_congr fun pair hpair => returned_of_committed A hpair,
    Assembly.selectedSlots, filterMap_map, filterMap_filter]
  nth_rewrite 1 [← map_snd_zip hlength.ge]
  rw [filterMap_map]
  simp

theorem Tracks.serve {state : ArtifactStore × List StoreEvent} (h : Tracks state.1 state.2)
    (op : StoreOp) : Tracks (serve state op).1 (serve state op).2 := by
  cases op with
  | store bytes generation =>
    rw [ArtifactStore.serve]
    obtain ⟨e, hstore, -⟩ | ⟨s', hstore, hpush, -⟩ := store_cases state.1 bytes generation
    · rw [hstore]
      exact h
    · rw [hstore]
      exact h.extended (.push hpush (.refl s')) (.refl [_])
  | invalidate reference => exact h.invalidate reference
  | assemble records request =>
    obtain ⟨e, hrun⟩ | ⟨staged, out, added, ctx, s', hrun, hassembly⟩ :=
      assemble_cases records state.1 request
    · simpa [ArtifactStore.serve, hrun] using h
    · simpa only [ArtifactStore.serve, hrun] using
        h.extended hassembly.committed.extended (returned_perm hassembly)

theorem tracks_history (ops : List StoreOp) : Tracks (history ops).1 (history ops).2 := by
  have hrun : ∀ state : ArtifactStore × List StoreEvent, Tracks state.1 state.2 →
      Tracks (ops.foldl serve state).1 (ops.foldl serve state).2 := by
    induction ops with
    | nil => exact fun _ h => h
    | cons op ops ih => exact fun state h => ih _ (h.serve op)
  exact hrun _ ⟨by simp [new, LiveIn], .refl _, by simp [new]⟩

theorem resolve_iff {reference : ArtifactRef} {generation : Nat} {bytes : List UInt8} :
    s.resolve reference generation = .ok bytes ↔
      ⟨reference.text, bytes, generation⟩ ∈ s.entries := by
  have hfound : ⟨reference.text, bytes, generation⟩ ∈ s.entries ↔
      s.find reference = some ⟨reference.text, bytes, generation⟩ := by simp [find_iff]
  rw [hfound, resolve]
  cases hfind : s.find reference with
  | none =>
    dsimp only
    split <;> simp
  | some entry =>
    obtain ⟨name, bytes', generation'⟩ := entry
    obtain ⟨-, rfl⟩ := find_iff.mp hfind
    by_cases hgeneration : generation' = generation <;> simp [hgeneration]

theorem absenceReason_cases (s : ArtifactStore) (reference : ArtifactRef) (generation : Nat) :
    (s.absenceReason reference generation = .available ↔
        ∃ entry, s.find reference = some entry ∧ entry.generation = generation) ∧
      (s.absenceReason reference generation = .expired ↔
        ∃ entry, s.find reference = some entry ∧ entry.generation ≠ generation) ∧
      (s.absenceReason reference generation = .deleted → reference.text ∈ s.deleted) := by
  unfold absenceReason
  cases s.find reference with
  | some entry => by_cases hgeneration : entry.generation = generation <;> simp [hgeneration]
  | none =>
    dsimp only
    split
    next hdeleted => simpa [isDeleted] using hdeleted
    next => split <;> [split; skip] <;> simp

/-- Over any calls on a new store. -/
theorem artifact_store_history (ops : List StoreOp) :
    ((history ops).1.totalBytes = ((history ops).1.entries.map (·.bytes.length)).sum ∧
      (history ops).1.len ≤ maxArtifacts ∧ (history ops).1.totalBytes ≤ maxArtifactStoreBytes) ∧
    ((history ops).2.filterMap StoreEvent.reference?).Nodup ∧
    ∀ (reference : ArtifactRef) (generation : Nat),
      (∀ bytes, (history ops).1.resolve reference generation = .ok bytes ↔
        LiveIn ⟨reference.text, bytes, generation⟩ (history ops).2) ∧
      ((history ops).1.absenceReason reference generation = .available ↔
        ∃ bytes, (history ops).1.resolve reference generation = .ok bytes) ∧
      ((history ops).1.absenceReason reference generation = .expired ↔
        ∃ entry, LiveIn entry (history ops).2 ∧ entry.reference = reference.text ∧
          entry.generation ≠ generation) ∧
      ((history ops).1.absenceReason reference generation = .deleted →
        .invalidated reference.text ∈ (history ops).2) := by
  have h := tracks_history ops
  generalize history ops = state at h ⊢
  obtain ⟨s, log⟩ := state
  refine ⟨⟨s.wf.total, s.wf.countCap, s.wf.byteCap⟩, ?_, fun reference generation => ?_⟩
  · rw [h.minted.nodup_iff]
    exact (nodup_range' ..).map fun m n hname => artifactName_inj.mp hname
  obtain ⟨havailable, hexpired, hdeleted⟩ := s.absenceReason_cases reference generation
  refine ⟨fun bytes => by rw [resolve_iff, h.live], ?_, ?_, fun hreason =>
    h.buried _ (hdeleted hreason)⟩
  · rw [havailable]
    simp only [find_iff, resolve_iff]
    constructor
    · rintro ⟨⟨name, bytes, pin⟩, ⟨hmem, rfl⟩, rfl⟩
      exact ⟨bytes, hmem⟩
    · rintro ⟨bytes, hmem⟩
      exact ⟨_, ⟨hmem, rfl⟩, rfl⟩
  · simp only [hexpired, find_iff, h.live, and_assoc]

end BittyAi.Runtime.ArtifactStore
