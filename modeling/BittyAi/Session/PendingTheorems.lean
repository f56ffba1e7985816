/-
BittyAi.Session.PendingTheorems — what the pending log keeps.
-/
import BittyAi.Session.ContentStoreTheorems
import BittyAi.Session.Pending

namespace BittyAi.Session

open Lib Exiting PendingEntry PendingStore KeyedTable List

/-! ## Rows and entries -/

def PendingStatus.asStr : PendingStatus → String
  | .open => "open"
  | .resolved => "resolved"

@[simp] theorem PendingStatus.parse_asStr (status : PendingStatus) :
    PendingStatus.parse status.asStr = some status := by
  cases status <;> decide

@[simp] theorem PendingDisposition.parse_asStr (disposition : PendingDisposition) :
    PendingDisposition.parse disposition.asStr = some disposition := by
  cases disposition <;> decide

def PendingEntry.toRow (entry : PendingEntry) : PendingRow where
  callId := entry.callId
  sessionId := entry.sessionId.text
  taskId := entry.taskId
  tool := entry.tool
  argsDigest := entry.argsDigest.toHex
  status := entry.status.asStr
  disposition := entry.disposition.map PendingDisposition.asStr
  generation := entry.generation.toInt64
  epoch := entry.epoch.toInt64
  begunAtMs := entry.begunAtMs.toInt64
  resolvedAtMs := entry.resolvedAtMs.map UInt64.toInt64

@[simp] theorem PendingEntry.toRow_callId (entry : PendingEntry) :
    entry.toRow.callId = entry.callId := rfl

@[simp] theorem PendingEntry.resolvedRow_callId (entry : PendingEntry) :
    entry.resolvedRow.callId = entry.callId := rfl

@[simp] theorem WheelSessionId.text_inj {a b : WheelSessionId} : a.text = b.text ↔ a = b := by
  cases a
  cases b
  simp

structure PendingEntry.Storable (entry : PendingEntry) : Prop where
  callId : validCallId entry.callId = true
  tool : validTool entry.tool = true
  taskId : validTaskId entry.taskId = true
  generation : beyondI64 entry.generation = false
  epoch : beyondI64 entry.epoch = false
  begunAtMs : beyondI64 entry.begunAtMs = false
  resolvedAtMs : ∀ moment ∈ entry.resolvedAtMs, beyondI64 moment = false
  fits : statusFits entry.status entry.disposition
    (entry.resolvedAtMs.map UInt64.toInt64) = true

variable {entry : PendingEntry}

theorem intoEntry_toRow (h : entry.Storable) : entry.toRow.intoEntry = .ok entry := by
  have hdigest : (ContentHash.fromHex entry.argsDigest.toHex).toOption = some entry.argsDigest := by
    rw [ContentHash.fromHex_eq_ok.mpr rfl]
    rfl
  have hdisposition : parseOptional PendingDisposition.parse
      (entry.disposition.map PendingDisposition.asStr) = .ok entry.disposition := by
    cases entry.disposition <;> simp [parseOptional, orCorrupt]
  have hresolved : ¬((entry.resolvedAtMs.map UInt64.toInt64).any fun moment => moment < 0) := by
    cases hmoment : entry.resolvedAtMs with
    | none => simp
    | some moment => simpa using not_toInt64_neg (h.resolvedAtMs moment hmoment)
  have hmoments : (entry.resolvedAtMs.map UInt64.toInt64).map Int64.toUInt64 =
      entry.resolvedAtMs := by
    cases entry.resolvedAtMs <;> simp
  simp only [PendingRow.intoEntry, bind_eq_ok, pure_eq_ok]
  refine ⟨(), refuseIf_eq_ok.mpr ?_, entry.sessionId,
    congrArg orCorrupt (dif_pos entry.sessionId.valid), (), refuseIf_eq_ok.mpr ?_,
    entry.argsDigest, congrArg orCorrupt hdigest, entry.status,
    congrArg orCorrupt (PendingStatus.parse_asStr _), entry.disposition, hdisposition, (),
    refuseIf_eq_ok.mpr ?_, (), refuseIf_eq_ok.mpr ?_, (), refuseIf_eq_ok.mpr hresolved, ?_⟩
  · simp [toRow, h.callId]
  · simp [toRow, h.tool, h.taskId]
  · simp [toRow, h.fits]
  · simp [toRow, not_toInt64_neg h.generation, not_toInt64_neg h.epoch, not_toInt64_neg h.begunAtMs]
  · simp only [toRow, hmoments, UInt64.toUInt64_toInt64]

theorem stored_resolvedRow (h : entry.Storable)
    (hstatus : entry.status = .resolved) : entry.resolvedRow.stored = entry.toRow := by
  have hfits := h.fits
  rw [hstatus] at hfits
  cases hdisposition : entry.disposition with
  | none => simp [statusFits, hdisposition] at hfits
  | some disposition =>
    cases hmoment : entry.resolvedAtMs with
    | none => simp [statusFits, hdisposition, hmoment] at hfits
    | some moment =>
      simp [ResolvedRow.stored, resolvedRow, toRow, hstatus,
        hdisposition, hmoment, PendingStatus.asStr]

theorem toRow_entry (req : PendingBegin) : req.entry.toRow = req.row := rfl

/-! ## The log -/

structure PendingLog where
  inFlight : List PendingEntry
  recent : List PendingEntry
  inFlight_open : ∀ entry ∈ inFlight, entry.Storable ∧ entry.status = .open
  recent_resolved : ∀ entry ∈ recent, entry.Storable ∧ entry.status = .resolved
  nodup : ((inFlight ++ recent).map (·.callId)).Nodup
  openBound : ∀ sessionId,
    (inFlight.countP fun entry => entry.sessionId = sessionId) ≤ maxOpenPendingPerSession
  recentBound : recent.length ≤ maxResolvedRecent

variable {callId : String} {entries : List PendingEntry} {cache : KeyedTable ResolvedRow.callId}
  {req : PendingResolve}

namespace PendingLog

variable {log : PendingLog} {store : ContentStore}

def empty : PendingLog where
  inFlight := []
  recent := []
  inFlight_open := by simp
  recent_resolved := by simp
  nodup := nodup_nil
  openBound := by simp
  recentBound := by simp

structure Held (log : PendingLog) (store : ContentStore) : Prop where
  live : store.pendingEffects.rows = log.inFlight.map toRow
  cached : store.pendingResolvedRecent.rows = log.recent.map resolvedRow

theorem held_empty : empty.Held ContentStore.openInMemory := ⟨rfl, rfl⟩

def Knows (log : PendingLog) (callId : String) : Prop :=
  ∃ entry ∈ log.inFlight ++ log.recent, entry.callId = callId

theorem knows_iff : log.Knows callId ↔ (∃ entry ∈ log.inFlight, entry.callId = callId) ∨
      ∃ entry ∈ log.recent, entry.callId = callId := by
  simp [Knows, or_and_right, exists_or]

theorem inFlight_nodup : (log.inFlight.map (·.callId)).Nodup := by
  have h := log.nodup
  rw [map_append] at h
  exact h.of_append_left

theorem recent_nodup : (log.recent.map (·.callId)).Nodup := by
  have h := log.nodup
  rw [map_append] at h
  exact h.of_append_right

theorem callId_ne {cached : PendingEntry} (h : entry ∈ log.inFlight)
    (hcached : cached ∈ log.recent) : entry.callId ≠ cached.callId := by
  have hnodup := log.nodup
  rw [map_append, nodup_append] at hnodup
  exact hnodup.2.2 _ (mem_map_of_mem h) _ (mem_map_of_mem hcached)

theorem eq_of_callId {other : PendingEntry} (h : entry ∈ log.inFlight)
    (hother : other ∈ log.inFlight) (hid : entry.callId = other.callId) : entry = other :=
  inj_on_of_nodup_map inFlight_nodup h hother hid

section Held

variable (held : log.Held store)
include held

theorem readEntry_of_mem (h : entry ∈ log.inFlight) :
    readEntry entry.callId store = .ok (some entry) := by
  have hfind : store.pendingEffects.find? entry.callId = some entry.toRow := by
    rw [find?_eq_some, held.live]
    exact ⟨mem_map_of_mem h, rfl⟩
  rw [readEntry, hfind, intoEntry?, intoEntry_toRow (log.inFlight_open entry h).1]
  rfl

theorem readEntry_of_not_mem (h : ∀ entry ∈ log.inFlight, entry.callId ≠ callId) :
    readEntry callId store = .ok none := by
  have hfind : store.pendingEffects.find? callId = none := by
    rw [KeyedTable.find?_eq_none, held.live]
    simpa using h
  rw [readEntry, hfind, intoEntry?]

theorem readCached_of_mem (h : entry ∈ log.recent) :
    readCached entry.callId store = .ok (some entry) := by
  obtain ⟨hstorable, hstatus⟩ := log.recent_resolved entry h
  have hfind : store.pendingResolvedRecent.find? entry.callId = some entry.resolvedRow := by
    rw [find?_eq_some, held.cached]
    exact ⟨mem_map_of_mem h, rfl⟩
  rw [readCached, hfind, Option.map_some, stored_resolvedRow hstorable hstatus, intoEntry?,
    intoEntry_toRow hstorable]
  rfl

theorem readCached_of_not_mem (h : ∀ entry ∈ log.recent, entry.callId ≠ callId) :
    readCached callId store = .ok none := by
  have hfind : store.pendingResolvedRecent.find? callId = none := by
    rw [KeyedTable.find?_eq_none, held.cached]
    simpa using h
  rw [readCached, hfind, Option.map_none, intoEntry?]

theorem openCount_eq (sessionId : WheelSessionId) :
    openCount sessionId store = log.inFlight.countP fun entry => entry.sessionId = sessionId := by
  rw [openCount, held.live, countP_map]
  refine countP_congr fun entry hentry => ?_
  have hstatus := (log.inFlight_open entry hentry).2
  simp [toRow, hstatus, PendingStatus.asStr]

theorem contains_live : store.pendingEffects.contains callId = true ↔
      ∃ entry ∈ log.inFlight, entry.callId = callId := by
  simp [held.live]

theorem contains_cached : store.pendingResolvedRecent.contains callId = true ↔
      ∃ entry ∈ log.recent, entry.callId = callId := by
  simp [held.cached]

end Held

/-! ## Opening a call -/

/-- What `begin` checks before it opens a transaction. -/
def Sound (req : PendingBegin) : Prop :=
  validCallId req.callId = true ∧ validTool req.tool = true ∧ validTaskId req.taskId = true ∧
    beyondI64 req.generation = false ∧ beyondI64 req.epoch = false ∧ beyondI64 req.nowMs = false

theorem storable_entry {req : PendingBegin} (h : Sound req) : req.entry.Storable := by
  obtain ⟨hcall, htool, htask, hgeneration, hepoch, hnow⟩ := h
  exact ⟨hcall, htool, htask, hgeneration, hepoch, hnow, by simp [PendingBegin.entry], rfl⟩

def opened (log : PendingLog) (req : PendingBegin) (hsound : Sound req)
    (hnew : ¬log.Knows req.callId)
    (hroom : (log.inFlight.countP fun entry => entry.sessionId = req.sessionId) <
      maxOpenPendingPerSession) : PendingLog where
  inFlight := log.inFlight ++ [req.entry]
  recent := log.recent
  inFlight_open := forall_mem_append.mpr
    ⟨log.inFlight_open, forall_mem_singleton.mpr ⟨storable_entry hsound, rfl⟩⟩
  recent_resolved := log.recent_resolved
  nodup := by
    have hperm : ((log.inFlight ++ [req.entry]) ++ log.recent).Perm
        (req.entry :: (log.inFlight ++ log.recent)) := by
      rw [append_assoc]
      exact perm_middle
    rw [(hperm.map _).nodup_iff, map_cons, nodup_cons]
    refine ⟨fun hmem => hnew ?_, log.nodup⟩
    obtain ⟨entry, hentry, hid⟩ := mem_map.mp hmem
    exact ⟨entry, hentry, hid⟩
  openBound := by
    intro sessionId
    rw [countP_append]
    by_cases hsession : req.sessionId = sessionId
    · subst hsession
      simpa [PendingBegin.entry] using hroom
    · simpa [PendingBegin.entry, hsession] using log.openBound sessionId
  recentBound := log.recentBound

theorem begin_spec (held : log.Held store) (req : PendingBegin) : wp (begin req)
      (fun entry store' => entry = req.entry ∧ Sound req ∧ ¬log.Knows req.callId ∧
        store' = { store with pendingEffects := store'.pendingEffects } ∧
        ∃ log' : PendingLog, log'.Held store' ∧ log'.inFlight = log.inFlight ++ [req.entry] ∧
          log'.recent = log.recent)
      (fun error store' => store' = store ∧ (error = .alreadyExists → log.Knows req.callId) ∧
        (Sound req → openCount req.sessionId store < maxOpenPendingPerSession →
          error = .alreadyExists))
      store := by
  unfold begin insertPending
  simp only [wp_bind, wp_refuse, wp_transaction, wp_read]
  refine ⟨fun hshape => ⟨trivial, by simp, ?_⟩, fun hshape => ⟨fun hrange => ⟨trivial, by simp, ?_⟩,
    fun hrange => ⟨fun hroom => ⟨trivial, by simp, ?_⟩, fun hroom => ⟨fun htaken => ?_,
      fun hnew => ?_⟩⟩⟩⟩
  · rintro ⟨hcall, htool, htask, -⟩
    simp [hcall, htool, htask] at hshape
  · rintro ⟨-, -, -, hgeneration, hepoch, hnow⟩
    simp [hgeneration, hepoch, hnow] at hrange
  · exact fun _ hless => absurd hless (Nat.not_lt.mpr hroom)
  · have hknown := htaken.imp (contains_live held).mp (contains_cached held).mp
    exact ⟨trivial, fun _ => knows_iff.mpr hknown, fun _ _ => trivial⟩
  · have hsound : Sound req := by simp_all [Sound]
    have hunknown : ¬log.Knows req.callId := fun hknown =>
      hnew ((knows_iff.mp hknown).imp (contains_live held).mpr (contains_cached held).mpr)
    have hfree : store.pendingEffects.contains req.row.callId = false :=
      Bool.eq_false_iff.mpr fun htaken => hnew (.inl htaken)
    obtain ⟨live, hinsert, hrows⟩ := insert?_of_not_contains hfree
    rw [hinsert]
    rw [openCount_eq held, not_le] at hroom
    simp only [wp_modify, wp_pure]
    refine ⟨trivial, hsound, hunknown, trivial, opened log req hsound hunknown hroom,
      ⟨?_, held.cached⟩, rfl, rfl⟩
    simp [hrows, held.live, opened, toRow_entry]

theorem begin_admitted (held : log.Held store) (req : PendingBegin) (hsound : Sound req)
    (hnew : ¬log.Knows req.callId)
    (hroom : openCount req.sessionId store < maxOpenPendingPerSession) :
    ∃ (store' : ContentStore) (log' : PendingLog),
      begin req store = (.ok req.entry, store') ∧ log'.Held store' ∧
        log'.inFlight = log.inFlight ++ [req.entry] ∧ log'.recent = log.recent := by
  rcases hbegin : begin req store with ⟨error | entry, store'⟩
  · obtain ⟨-, hexists, herror⟩ := of_wp_error (begin_spec held req) hbegin
    exact absurd (hexists (herror hsound hroom)) hnew
  · obtain ⟨rfl, -, -, -, log', held', hlog⟩ := of_wp_ok (begin_spec held req) hbegin
    exact ⟨store', log', rfl, held', hlog⟩

/-! ## Closing a call -/

def keptRecent (entries : List PendingEntry) : List PendingEntry :=
  entries.filter fun entry =>
    (entries.countP fun other => resolvedAge entry.resolvedRow < resolvedAge other.resolvedRow) <
      maxResolvedRecent

theorem mem_keptRecent : entry ∈ keptRecent entries ↔ entry ∈ entries ∧
      (entries.countP fun other => resolvedAge entry.resolvedRow < resolvedAge other.resolvedRow) <
        maxResolvedRecent := by
  simp [keptRecent]

theorem resolvedAge_nodup (cache : KeyedTable ResolvedRow.callId) :
    (cache.rows.map resolvedAge).Nodup := by
  have hids : cache.rows.map ResolvedRow.callId =
      (cache.rows.map resolvedAge).map fun age => (ofLex age).2 := by
    simp [resolvedAge, Function.comp_def]
  exact List.Nodup.of_map _ (hids ▸ cache.nodup)

theorem mem_evictOldest {row : ResolvedRow} :
    row ∈ (evictOldest cache).rows ↔ row ∈ newest resolvedAge maxResolvedRecent cache.rows := by
  have hsub : newest resolvedAge maxResolvedRecent cache.rows ⊆ cache.rows := fun other hother =>
    ((mem_newest (resolvedAge_nodup cache)).mp hother).1
  simp only [evictOldest, filter_rows, mem_filter, decide_eq_true_eq, mem_map]
  constructor
  · rintro ⟨hrow, other, hother, hid⟩
    rwa [← inj_on_of_nodup_map cache.nodup (hsub hother) hrow hid]
  · exact fun hrow => ⟨hsub hrow, row, hrow, rfl⟩

theorem evictOldest_rows (h : cache.rows = entries.map resolvedRow) :
    (evictOldest cache).rows = (keptRecent entries).map resolvedRow := by
  have hfilter : (evictOldest cache).rows = cache.rows.filter fun row =>
      (cache.rows.countP fun other => resolvedAge row < resolvedAge other) < maxResolvedRecent := by
    refine filter_congr fun row hrow => ?_
    have hiff := (@mem_evictOldest cache row).trans (mem_newest (resolvedAge_nodup cache))
    simpa [evictOldest, hrow] using hiff
  rw [hfilter, h, filter_map, keptRecent]
  simp [Function.comp_def, countP_map]

theorem length_keptRecent (h : cache.rows = entries.map resolvedRow) :
    (keptRecent entries).length ≤ maxResolvedRecent := by
  have hsub : (evictOldest cache).rows ⊆ newest resolvedAge maxResolvedRecent cache.rows :=
    fun row hrow => mem_evictOldest.mp hrow
  have hnodup : (evictOldest cache).rows.Nodup := (evictOldest cache).nodup.of_map
  have hlength := (hnodup.subperm hsub).length_le
  rw [evictOldest_rows h, length_map] at hlength
  exact hlength.trans length_newest_le

theorem storable_close (h : entry.Storable)
    (hnow : beyondI64 req.nowMs = false) : (entry.close req).Storable :=
  ⟨h.callId, h.tool, h.taskId, h.generation, h.epoch, h.begunAtMs,
    by simpa [close] using hnow, rfl⟩

theorem nodup_move (hentry : entry ∈ log.inFlight) :
    (((log.inFlight.filter fun other => other.callId ≠ entry.callId) ++
      (log.recent ++ [entry.close req])).map (·.callId)).Nodup := by
  have hperm : ((log.inFlight.filter fun other => other.callId ≠ entry.callId) ++
      (log.recent ++ [entry.close req])).Perm
      (entry.close req :: ((log.inFlight.filter fun other => other.callId ≠ entry.callId) ++
        log.recent)) := by
    rw [← append_assoc]
    exact perm_append_singleton _ _
  rw [(hperm.map _).nodup_iff, map_cons, nodup_cons]
  constructor
  · intro hmem
    obtain ⟨other, hother, hid⟩ := mem_map.mp hmem
    rcases mem_append.mp hother with hother | hother
    · simp only [mem_filter, decide_eq_true_eq] at hother
      exact hother.2 hid
    · exact callId_ne hentry hother hid.symm
  · exact log.nodup.sublist ((filter_sublist.append_right _).map _)

def closed (log : PendingLog) {entry : PendingEntry} (hentry : entry ∈ log.inFlight)
    {req : PendingResolve} (hnow : beyondI64 req.nowMs = false)
    (hbound : (keptRecent (log.recent ++ [entry.close req])).length ≤ maxResolvedRecent) :
    PendingLog where
  inFlight := log.inFlight.filter fun other => other.callId ≠ entry.callId
  recent := keptRecent (log.recent ++ [entry.close req])
  inFlight_open := fun other hother => log.inFlight_open other (mem_of_mem_filter hother)
  recent_resolved := by
    intro other hother
    rcases mem_append.mp (mem_keptRecent.mp hother).1 with hother | hother
    · exact log.recent_resolved other hother
    · rw [mem_singleton.mp hother]
      exact ⟨storable_close (log.inFlight_open entry hentry).1 hnow, rfl⟩
  nodup := (nodup_move hentry).sublist ((filter_sublist.append_left _).map _)
  openBound := fun sessionId => (filter_sublist.countP_le).trans (log.openBound sessionId)
  recentBound := hbound

/-- What admits a resolution: an open row behind both fences, or a resolved one with
the same disposition. -/
def Admits (log : PendingLog) (req : PendingResolve) : Prop :=
  validCallId req.callId = true ∧ beyondI64 req.nowMs = false ∧
    ((∃ entry ∈ log.inFlight, entry.callId = req.callId ∧ entry.epoch ≤ req.claimEpoch ∧
      entry.generation = req.expectedGeneration) ∨
    ∃ entry ∈ log.recent, entry.callId = req.callId ∧
      entry.disposition.getD .abandoned = req.disposition)

structure Closes (log : PendingLog) (req : PendingResolve) (entry : PendingEntry)
    (log' : PendingLog) : Prop where
  now : beyondI64 req.nowMs = false
  epoch : entry.epoch ≤ req.claimEpoch
  generation : entry.generation = req.expectedGeneration
  inFlight : log'.inFlight = log.inFlight.filter fun other => other.callId ≠ req.callId
  recent : log'.recent = keptRecent (log.recent ++ [entry.close req])

theorem deleteOpen_rows (held : log.Held store) (hcall : entry.callId = callId) :
    (store.pendingEffects.filter fun row => ¬(row.callId = callId ∧ row.status = "open")).rows =
      (log.inFlight.filter fun other => other.callId ≠ entry.callId).map toRow := by
  rw [filter_rows, held.live, filter_map, hcall]
  refine congrArg _ (filter_congr fun other hother => ?_)
  have hopen := (log.inFlight_open other hother).2
  simp [toRow, hopen, PendingStatus.asStr]

theorem resolveLive_spec (held : log.Held store)
    (hentry : entry ∈ log.inFlight) (hcall : entry.callId = req.callId)
    (hnow : beyondI64 req.nowMs = false) :
    wp (resolveLive req entry)
      (fun answer store' => answer = entry.close req ∧
        store' = { store with
          pendingEffects := store'.pendingEffects
          pendingResolvedRecent := store'.pendingResolvedRecent } ∧
        ∃ log' : PendingLog, log'.Held store' ∧ log.Closes req entry log')
      (fun error _ => error ≠ .corrupt ∧
        ¬(entry.epoch ≤ req.claimEpoch ∧ entry.generation = req.expectedGeneration)) store := by
  have hopen : entry.status = .open := (log.inFlight_open entry hentry).2
  unfold resolveLive deleteOpen insertResolvedCache
  simp only [hopen, reduceCtorEq, if_false, wp_bind, wp_refuse, wp_modify, wp_read]
  refine ⟨fun hepoch => ⟨by simp, fun hfences => absurd hfences.1 (by simpa using hepoch)⟩,
    fun hepoch => ⟨fun hgeneration => ⟨by simp, fun hfences => hgeneration hfences.2.symm⟩,
      fun hgeneration => ?_⟩⟩
  have hfree :
      store.pendingResolvedRecent.contains (entry.close req).resolvedRow.callId = false := by
    refine Bool.eq_false_iff.mpr fun htaken => ?_
    obtain ⟨cached, hcached, hid⟩ := (contains_cached held).mp htaken
    exact callId_ne hentry hcached hid.symm
  obtain ⟨cache, hinsert, hrows⟩ := insert?_of_not_contains hfree
  have hcache : cache.rows = (log.recent ++ [entry.close req]).map resolvedRow := by
    rw [hrows, held.cached, map_append]
    rfl
  rw [hinsert]
  simp only [wp_modify, wp_pure]
  refine ⟨trivial, trivial, closed log hentry hnow (length_keptRecent hcache), ⟨?_, ?_⟩,
    ⟨hnow, by simpa using hepoch, (not_not.mp hgeneration).symm, ?_, rfl⟩⟩
  · exact deleteOpen_rows held hcall
  · exact evictOldest_rows hcache
  · simp [closed, hcall]

theorem resolve_cached (held : log.Held store) {cached : PendingEntry}
    (hnow : beyondI64 req.nowMs = false) (hcached : cached ∈ log.recent)
    (hcall : cached.callId = req.callId) :
    resolve req store =
      (if cached.disposition.getD .abandoned = req.disposition then .ok cached
        else .error (.mismatch (cached.disposition.getD .abandoned) req.disposition), store) := by
  have hid : validCallId req.callId = true := hcall ▸ (log.recent_resolved cached hcached).1.callId
  have hread : readEntry req.callId store = .ok none :=
    readEntry_of_not_mem held fun entry hentry => hcall ▸ callId_ne hentry hcached
  have hfind : readCached req.callId store = .ok (some cached) :=
    hcall ▸ readCached_of_mem held hcached
  rw [← wp_eq_run, resolve]
  simp only [wp_bind, wp_refuse, wp_transaction, hid, hnow,
    wp_attempt_ok hread, wp_attempt_ok hfind, answerStored, wp_ite,
    wp_pure, wp_exit]
  simp +contextual

theorem resolve_unknown (held : log.Held store)
    (hid : validCallId req.callId = true) (hnow : beyondI64 req.nowMs = false)
    (hunknown : ¬log.Knows req.callId) :
    resolve req store = (.error .notFound, store) := by
  rw [knows_iff, not_or] at hunknown
  have hread : readEntry req.callId store = .ok none :=
    readEntry_of_not_mem held (by simpa using hunknown.1)
  have hfind : readCached req.callId store = .ok none :=
    readCached_of_not_mem held (by simpa using hunknown.2)
  rw [← wp_eq_run, resolve]
  simp only [wp_bind, wp_refuse, wp_transaction, hid, hnow,
    wp_attempt_ok hread, wp_attempt_ok hfind, wp_exit]
  simp

theorem resolve_spec (held : log.Held store) (req : PendingResolve) : wp (resolve req)
      (fun answer store' =>
        (∃ entry ∈ log.inFlight, entry.callId = req.callId ∧ answer = entry.close req ∧
          store' = { store with
            pendingEffects := store'.pendingEffects
            pendingResolvedRecent := store'.pendingResolvedRecent } ∧
          ∃ log' : PendingLog, log'.Held store' ∧ log.Closes req entry log') ∨
        (answer ∈ log.recent ∧ answer.callId = req.callId ∧
          answer.disposition.getD .abandoned = req.disposition ∧ store' = store))
      (fun error store' => store' = store ∧ error ≠ .corrupt ∧ ¬log.Admits req) store := by
  unfold resolve
  simp only [wp_bind, wp_refuse, wp_transaction]
  refine ⟨fun hid => ⟨trivial, by simp, fun hadmits => ?_⟩, fun hid =>
    ⟨fun hnow => ⟨trivial, by simp, fun hadmits => ?_⟩, fun hnow => ?_⟩⟩
  · simp [hadmits.1] at hid
  · simp [hadmits.2.1] at hnow
  by_cases hlive : ∃ entry ∈ log.inFlight, entry.callId = req.callId
  · obtain ⟨entry, hentry, hcall⟩ := hlive
    have hread := readEntry_of_mem held hentry
    rw [hcall] at hread
    rw [wp_attempt_ok hread]
    refine wp_mono (resolveLive_spec held hentry hcall (by simpa using hnow)) ?_ ?_
    · intro answer store' hclosed
      exact .inl ⟨entry, hentry, hcall, hclosed⟩
    · intro error _ hrefused
      refine ⟨trivial, hrefused.1, fun hadmits => ?_⟩
      rcases hadmits.2.2 with ⟨other, hother, hid, hfences⟩ | ⟨cached, hcached, hid, -⟩
      · rw [eq_of_callId hother hentry (hid.trans hcall.symm)] at hfences
        exact hrefused.2 hfences
      · exact callId_ne hentry hcached (hcall.trans hid.symm)
  · have hread := readEntry_of_not_mem held (by simpa using hlive)
    rw [wp_attempt_ok hread]
    by_cases hrecent : ∃ cached ∈ log.recent, cached.callId = req.callId
    · obtain ⟨cached, hcached, hcall⟩ := hrecent
      have hfind := readCached_of_mem held hcached
      rw [hcall] at hfind
      simp only [wp_bind, wp_attempt_ok hfind, answerStored, wp_ite, wp_pure, wp_exit]
      refine ⟨fun hsame => .inr ⟨hcached, hcall, hsame, trivial⟩, fun hother =>
        ⟨trivial, by simp, fun hadmits => ?_⟩⟩
      rcases hadmits.2.2 with ⟨entry, hentry, hid, -⟩ | ⟨other, hmem, hid, hsame⟩
      · exact hlive ⟨entry, hentry, hid⟩
      · rw [inj_on_of_nodup_map recent_nodup hmem hcached (hid.trans hcall.symm)] at hsame
        exact hother hsame
    · have hfind := readCached_of_not_mem held (by simpa using hrecent)
      simp only [wp_bind, wp_attempt_ok hfind, wp_exit]
      refine ⟨trivial, by simp, fun hadmits => ?_⟩
      rcases hadmits.2.2 with ⟨entry, hentry, hid, -⟩ | ⟨cached, hcached, hid, -⟩
      · exact hlive ⟨entry, hentry, hid⟩
      · exact hrecent ⟨cached, hcached, hid⟩

theorem resolve_admitted (held : log.Held store) (req : PendingResolve)
    (hentry : entry ∈ log.inFlight) (hcall : entry.callId = req.callId)
    (hnow : beyondI64 req.nowMs = false) (hepoch : entry.epoch ≤ req.claimEpoch)
    (hgeneration : entry.generation = req.expectedGeneration) :
    ∃ (store' : ContentStore) (log' : PendingLog),
      resolve req store = (.ok (entry.close req), store') ∧ log'.Held store' ∧
        log.Closes req entry log' := by
  have hid : validCallId req.callId = true := hcall ▸ (log.inFlight_open entry hentry).1.callId
  rcases hresolve : resolve req store with ⟨error | answer, store'⟩
  · exact absurd ⟨hid, hnow, .inl ⟨entry, hentry, hcall, hepoch, hgeneration⟩⟩
      (of_wp_error (resolve_spec held req) hresolve).2.2
  · rcases of_wp_ok (resolve_spec held req) hresolve with
      ⟨other, hother, hid, rfl, -, log', held', hcloses⟩ | ⟨hrecent, hid, -, -⟩
    · rw [eq_of_callId hother hentry (hid.trans hcall.symm)] at hcloses ⊢
      exact ⟨store', log', rfl, held', hcloses⟩
    · exact absurd (hcall.trans hid.symm) (callId_ne hentry hrecent)

end PendingLog

end BittyAi.Session
