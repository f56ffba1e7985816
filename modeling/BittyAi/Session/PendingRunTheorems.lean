/-
BittyAi.Session.PendingRunTheorems — what holds of the pending log after any calls.

A run is a list of `begin` and `resolve` calls on a new store, accepted or refused. The live
table holds exactly the outstanding calls (`serveAll_held`, `mem_inFlightAfter`), and the
bounds, the reads and the fences follow from that.
-/
import BittyAi.Session.PendingTheorems

namespace BittyAi.Session

open Lib PendingLog PendingEntry List

variable {events : List PendingEvent} {entries : List PendingEntry} {req : PendingBegin}
  {entry : PendingEntry}

/-! ## Runs -/

inductive PendingCall where
  | begin (req : PendingBegin)
  | resolve (req : PendingResolve)

def PendingCall.serve : PendingCall → PendingOp PendingEntry
  | .begin req => PendingStore.begin req
  | .resolve req => PendingStore.resolve req

structure PendingEvent where
  call : PendingCall
  answer : Except PendingError PendingEntry

def serveAll : List PendingCall → ContentStore → List PendingEvent × ContentStore
  | [], store => ([], store)
  | call :: calls, store =>
    let served := call.serve store
    let rest := serveAll calls served.2
    (⟨call, served.1⟩ :: rest.1, rest.2)

def PendingEvent.Closes (event : PendingEvent) (callId : String) : Prop :=
  ∃ req entry, event = ⟨.resolve req, .ok entry⟩ ∧ req.callId = callId

def Outstanding (events : List PendingEvent) (req : PendingBegin) : Prop :=
  ∃ before entry after, events = before ++ ⟨.begin req, .ok entry⟩ :: after ∧
    ∀ event ∈ after, ¬event.Closes req.callId

/-! ## The calls in flight -/

def flightStep (inFlight : List PendingEntry) : PendingEvent → List PendingEntry
  | ⟨.begin req, .ok _⟩ => inFlight ++ [req.entry]
  | ⟨.resolve req, .ok _⟩ => inFlight.filter fun entry => entry.callId ≠ req.callId
  | ⟨_, .error _⟩ => inFlight

def inFlightAfter (events : List PendingEvent) : List PendingEntry := events.foldl flightStep []

theorem not_outstanding_nil : ¬Outstanding [] req := by
  rintro ⟨before, entry, after, h, -⟩
  simp at h

theorem outstanding_snoc {event : PendingEvent} : Outstanding (events ++ [event]) req ↔
      (Outstanding events req ∧ ¬event.Closes req.callId) ∨
        ∃ entry, event = ⟨.begin req, .ok entry⟩ := by
  constructor
  · rintro ⟨before, entry, after, h, hafter⟩
    rcases eq_nil_or_concat after with rfl | ⟨middle, last, rfl⟩
    · have hlast := (append_inj' h rfl).2
      exact .inr ⟨entry, by simpa using hlast⟩
    · rw [concat_eq_append, ← cons_append, ← append_assoc] at h
      obtain ⟨hevents, hlast⟩ := append_inj' h rfl
      rw [cons.injEq] at hlast
      refine .inl ⟨⟨before, entry, middle, hevents, fun other hother => ?_⟩, ?_⟩
      · exact hafter other (by simp [hother])
      · exact hafter event (by simp [hlast.1])
  · rintro (⟨⟨before, entry, after, rfl, hafter⟩, hevent⟩ | ⟨entry, rfl⟩)
    · exact ⟨before, entry, after ++ [event], by simp,
        forall_mem_append.mpr ⟨hafter, forall_mem_singleton.mpr hevent⟩⟩
    · exact ⟨events, entry, [], rfl, by simp⟩

theorem mem_inFlightAfter :
    entry ∈ inFlightAfter events ↔ ∃ req, Outstanding events req ∧ req.entry = entry := by
  induction events using reverseRecOn generalizing entry with
  | nil => simp [inFlightAfter, not_outstanding_nil]
  | append_singleton events event ih =>
    have hsnoc : inFlightAfter (events ++ [event]) = flightStep (inFlightAfter events) event := by
      simp [inFlightAfter]
    rw [hsnoc]
    simp only [outstanding_snoc]
    rcases event with ⟨begun | resolved, error | answer⟩
    · simp [flightStep, ih, PendingEvent.Closes]
    · simp [flightStep, ih, PendingEvent.Closes, or_and_right, exists_or, eq_comm]
    · simp [flightStep, ih, PendingEvent.Closes]
    · simp only [flightStep, mem_filter, ih, decide_eq_true_eq]
      constructor
      · rintro ⟨⟨req, hout, rfl⟩, hid⟩
        refine ⟨req, .inl ⟨hout, ?_⟩, rfl⟩
        rintro ⟨other, _, h, hcall⟩
        simp only [PendingEvent.mk.injEq, PendingCall.resolve.injEq] at h
        exact hid (h.1 ▸ hcall.symm)
      · rintro ⟨req, ⟨hout, hcloses⟩ | ⟨_, h⟩, rfl⟩
        · exact ⟨⟨req, hout, rfl⟩, fun hid => hcloses ⟨resolved, answer, rfl, hid.symm⟩⟩
        · simp at h

/-! ## One call and all calls -/

variable {log : PendingLog} {store : ContentStore}

theorem serve_held (held : log.Held store) (call : PendingCall) :
    ∃ log' : PendingLog, log'.Held (call.serve store).2 ∧
      log'.inFlight = flightStep log.inFlight ⟨call, (call.serve store).1⟩ := by
  rcases hserve : call.serve store with ⟨error | answer, store'⟩
  · have hsame : store' = store := by
      cases call with
      | begin req => exact (Exiting.of_wp_error (begin_spec held req) hserve).1
      | resolve req => exact (Exiting.of_wp_error (resolve_spec held req) hserve).1
    exact ⟨log, hsame ▸ held, by cases call <;> rfl⟩
  · cases call with
    | begin req =>
      obtain ⟨-, -, -, -, log', held', hinFlight, -⟩ :=
        Exiting.of_wp_ok (begin_spec held req) hserve
      exact ⟨log', held', hinFlight⟩
    | resolve req =>
      rcases Exiting.of_wp_ok (resolve_spec held req) hserve with
        ⟨entry, -, -, -, -, log', held', hcloses⟩ | ⟨hrecent, hcall, -, rfl⟩
      · exact ⟨log', held', hcloses.inFlight⟩
      · -- a resolved call is not in flight: there is nothing to take out
        refine ⟨log, held, (filter_eq_self.mpr fun entry hentry => ?_).symm⟩
        simpa [← hcall] using callId_ne hentry hrecent

theorem serveAll_held (held : log.Held store) (calls : List PendingCall) :
    ∃ log' : PendingLog, log'.Held (serveAll calls store).2 ∧
      log'.inFlight = (serveAll calls store).1.foldl flightStep log.inFlight := by
  induction calls generalizing log store with
  | nil => exact ⟨log, held, rfl⟩
  | cons call calls ih =>
    obtain ⟨log', held', hinFlight⟩ := serve_held held call
    obtain ⟨log'', held'', hrest⟩ := ih held'
    exact ⟨log'', held'', by rw [hrest, hinFlight]; rfl⟩

/-! ## Reads -/

theorem intoEntries_toRow (h : ∀ entry ∈ entries, entry.Storable) :
    intoEntries (entries.map toRow) = .ok entries := by
  induction entries with
  | nil => rfl
  | cons entry entries ih =>
    rw [map_cons, intoEntries, intoEntry_toRow (h entry mem_cons_self),
      ih fun other hother => h other (mem_cons_of_mem _ hother)]
    rfl

theorem status_of_held (held : log.Held store) {row : PendingRow}
    (hrow : row ∈ store.pendingEffects.rows) : row.status = "open" := by
  rw [held.live] at hrow
  obtain ⟨entry, hentry, rfl⟩ := mem_map.mp hrow
  simp [toRow, (log.inFlight_open entry hentry).2, PendingStatus.asStr]

theorem listOpen_of_held (held : log.Held store) (sessionId : WheelSessionId) :
    ∃ entries, PendingStore.listOpen sessionId store = .ok entries ∧
      entries.Perm (log.inFlight.filter fun entry => entry.sessionId = sessionId) := by
  have hrows : (store.pendingEffects.rows.filter fun row =>
      row.sessionId = sessionId.text ∧ row.status = "open") =
      (log.inFlight.filter fun entry => entry.sessionId = sessionId).map toRow := by
    rw [held.live, filter_map]
    refine congrArg _ (filter_congr fun entry hentry => ?_)
    simp [toRow, (log.inFlight_open entry hentry).2, PendingStatus.asStr]
  refine ⟨(log.inFlight.filter fun entry => entry.sessionId = sessionId).insertionSort
    fun a b => begunAge a.toRow ≤ begunAge b.toRow, ?_, perm_insertionSort _ _⟩
  simp only [PendingStore.listOpen, bind_eq_ok, pure_eq_ok]
  refine ⟨_, ?_, (), refuseIf_eq_ok.mpr ?_, rfl⟩
  · rw [hrows, ← map_insertionSort (fun a b => begunAge a.toRow ≤ begunAge b.toRow) _ _ _
      fun _ _ _ _ => Iff.rfl]
    refine intoEntries_toRow fun entry hentry => (log.inFlight_open entry ?_).1
    exact mem_of_mem_filter (mem_insertionSort _ |>.mp hentry)
  · simp only [any_eq_true, decide_eq_true_eq, not_exists, not_and]
    exact fun row hrow _ hstatus => absurd (status_of_held held hrow) hstatus

theorem get_of_held (held : log.Held store) (callId : String) :
    PendingStore.get callId store ≠ .error .corrupt := by
  unfold PendingStore.get refuseIf
  split
  · simp [bind, Except.bind]
  · by_cases hlive : ∃ entry ∈ log.inFlight, entry.callId = callId
    · obtain ⟨entry, hentry, rfl⟩ := hlive
      simp [readEntry_of_mem held hentry, bind, Except.bind, pure, Except.pure]
    · have hread := readEntry_of_not_mem held (by simpa using hlive)
      by_cases hrecent : ∃ entry ∈ log.recent, entry.callId = callId
      · obtain ⟨entry, hentry, rfl⟩ := hrecent
        simp [hread, readCached_of_mem held hentry, bind, Except.bind]
      · have hfind := readCached_of_not_mem held (by simpa using hrecent)
        simp [hread, hfind, bind, Except.bind]

theorem openDigests_toRow (h : ∀ entry ∈ entries, entry.Storable) :
    ∃ digests, openDigests (entries.map toRow) = .ok digests := by
  induction entries with
  | nil => exact ⟨[], rfl⟩
  | cons entry entries ih =>
    obtain ⟨digests, hdigests⟩ := ih fun other hother => h other (mem_cons_of_mem _ hother)
    rw [map_cons, openDigests, intoEntry_toRow (h entry mem_cons_self), hdigests]
    exact ⟨_, rfl⟩

theorem openBlobRoots_of_held (held : log.Held store) :
    ∃ roots, openBlobRoots store = .ok roots := by
  have hall : (store.pendingEffects.rows.filter fun row => row.status = "open") =
      log.inFlight.map toRow := by
    rw [filter_eq_self.mpr fun row hrow => by simp [status_of_held held hrow], held.live]
  obtain ⟨digests, hdigests⟩ := openDigests_toRow fun entry hentry =>
    (log.inFlight_open entry hentry).1
  refine ⟨sortDedup digests, ?_⟩
  simp only [openBlobRoots, bind_eq_ok, pure_eq_ok]
  refine ⟨digests, by rw [hall, hdigests], (), refuseIf_eq_ok.mpr ?_, rfl⟩
  simp only [any_eq_true, not_exists, not_and]
  intro row hrow
  simp [status_of_held held hrow]

/-! ## The invariant of the log -/

/-- What holds of the stored log after the calls `events` that succeeded: the two bounds, no call
both open and resolved, every outstanding call listed once and as it was begun, reads that decode,
and a resolution only under the generation of the begun call. -/
structure PendingInvariant (events : List PendingEvent) (store : ContentStore) : Prop where
  openBound : ∀ sessionId, openCount sessionId store ≤ 32
  recentBound : store.pendingResolvedRecent.rows.length ≤ 32
  disjoint : ∀ callId, ¬(store.pendingEffects.contains callId = true ∧
    store.pendingResolvedRecent.contains callId = true)
  listed : ∀ req, Outstanding events req → ∃ entries,
    PendingStore.listOpen req.sessionId store = .ok entries ∧
      (entries.filter fun entry => entry.callId = req.callId) =
        [{ callId := req.callId, sessionId := req.sessionId, taskId := req.taskId,
           tool := req.tool, argsDigest := .compute req.args, status := .open,
           disposition := none, generation := req.generation, epoch := req.epoch,
           begunAtMs := req.nowMs, resolvedAtMs := none }]
  listOpenReads : ∀ sessionId, PendingStore.listOpen sessionId store ≠ .error .corrupt
  getReads : ∀ callId, PendingStore.get callId store ≠ .error .corrupt
  rootsRead : openBlobRoots store ≠ .error .corrupt
  fenced : ∀ row ∈ store.pendingEffects.rows, row.status = "open" →
    ∀ req answer store', req.callId = row.callId →
      PendingStore.resolve req store = (.ok answer, store') →
      ∃ begun, Outstanding events begun ∧ begun.callId = row.callId ∧
        begun.epoch ≤ req.claimEpoch ∧ req.expectedGeneration = begun.generation

theorem listOpen_once (held : log.Held store) (hentry : entry ∈ log.inFlight) :
    ∃ entries, PendingStore.listOpen entry.sessionId store = .ok entries ∧
      (entries.filter fun other => other.callId = entry.callId) = [entry] := by
  obtain ⟨entries, hlist, hperm⟩ := listOpen_of_held held entry.sessionId
  refine ⟨entries, hlist, ?_⟩
  have honce : ((log.inFlight.filter fun other => other.sessionId = entry.sessionId).filter
      fun other => other.callId = entry.callId) = [entry] := by
    have hcongr : ∀ other ∈ log.inFlight, (decide (other.callId = entry.callId) &&
        decide (other.sessionId = entry.sessionId)) = decide (other = entry) := by
      intro other hother
      by_cases hid : other.callId = entry.callId
      · simp [eq_of_callId hother hentry hid]
      · have hne : other ≠ entry := fun h => hid (congrArg _ h)
        simp [hid, hne]
    rw [filter_filter, filter_congr hcongr, filter_eq,
      count_eq_one_of_mem inFlight_nodup.of_map hentry, replicate_one]
  have hfiltered := hperm.filter fun other => decide (other.callId = entry.callId)
  rw [honce] at hfiltered
  exact perm_singleton.mp hfiltered

/-- Whatever calls are served, from the empty store on, the log keeps its invariant. -/
theorem pending_log_invariant (calls : List PendingCall) :
    PendingInvariant (serveAll calls ContentStore.openInMemory).1
      (serveAll calls ContentStore.openInMemory).2 := by
  obtain ⟨log, held, hinFlight⟩ := serveAll_held held_empty calls
  generalize serveAll calls ContentStore.openInMemory = run at held hinFlight
  have hmem : ∀ {entry}, entry ∈ log.inFlight ↔
      ∃ req, Outstanding run.1 req ∧ req.entry = entry := by
    intro entry
    rw [hinFlight]
    exact mem_inFlightAfter
  refine ⟨fun sessionId => ?_, ?_, ?_, ?_, fun sessionId => ?_, get_of_held held, ?_, ?_⟩
  · rw [openCount_eq held]
    exact log.openBound sessionId
  · rw [held.cached, length_map]
    exact log.recentBound
  · rintro callId ⟨hlive, hcached⟩
    obtain ⟨entry, hentry, hid⟩ := (contains_live held).mp hlive
    obtain ⟨cached, hmem, hid'⟩ := (contains_cached held).mp hcached
    exact callId_ne hentry hmem (hid.trans hid'.symm)
  · intro req hout
    exact listOpen_once held (hmem.mpr ⟨req, hout, rfl⟩)
  · obtain ⟨entries, hlist, -⟩ := listOpen_of_held held sessionId
    simp [hlist]
  · obtain ⟨roots, hroots⟩ := openBlobRoots_of_held held
    simp [hroots]
  · intro row hrow _ req answer store' hcall hresolve
    rw [held.live] at hrow
    obtain ⟨entry, hentry, rfl⟩ := mem_map.mp hrow
    obtain ⟨begun, hout, rfl⟩ := hmem.mp hentry
    rcases Exiting.of_wp_ok (resolve_spec held req) hresolve with
      ⟨other, hother, hid, -, -, log', -, hcloses⟩ | ⟨hrecent, hid, -, -⟩
    · have hsame := eq_of_callId hother hentry (hid.trans hcall)
      subst hsame
      exact ⟨begun, hout, rfl, hcloses.epoch, hcloses.generation.symm⟩
    · exact absurd (hcall.symm.trans hid.symm) (callId_ne hentry hrecent)

/-! ## Resolving a call twice

A resolution that carries a moment older than all 32 rows of a full cache is evicted as it
is inserted, and the next one does not find its call. -/

open PendingStore

variable {log : PendingLog} {store store' : ContentStore} {req again : PendingResolve}
  {entry : PendingEntry}

/-! ## What stays in the cache -/

def newerCached (store : ContentStore) (req : PendingResolve) : Nat :=
  store.pendingResolvedRecent.rows.countP fun row =>
    toLex ((req.nowMs.toNat : Int), req.callId) < resolvedAge row

theorem resolvedAge_close (hnow : beyondI64 req.nowMs = false) (hcall : entry.callId = req.callId) :
    resolvedAge (entry.close req).resolvedRow = toLex ((req.nowMs.toNat : Int), req.callId) := by
  simp [resolvedAge, PendingEntry.resolvedRow, PendingEntry.close, hcall,
    toInt64_toInt_of_not_beyond hnow]

theorem mem_keptRecent_close (held : log.Held store) (hnow : beyondI64 req.nowMs = false)
    (hcall : entry.callId = req.callId) :
    entry.close req ∈ keptRecent (log.recent ++ [entry.close req]) ↔
      newerCached store req < maxResolvedRecent := by
  rw [mem_keptRecent, newerCached, held.cached, countP_map]
  simp [resolvedAge_close hnow hcall, Function.comp_def]

/-! ## The second resolution -/

def repeatAnswer (entry : PendingEntry) (req again : PendingResolve) :
    Except PendingError PendingEntry :=
  if again.disposition = req.disposition then .ok entry
  else .error (.mismatch req.disposition again.disposition)

theorem resolve_again_cached (held : log.Held store) (hnow : beyondI64 again.nowMs = false)
    (hentry : entry ∈ log.recent) (hcall : entry.callId = again.callId)
    (hdisposition : entry.disposition.getD .abandoned = req.disposition) :
    resolve again store = (repeatAnswer entry req again, store) := by
  rw [resolve_cached held hnow hentry hcall, hdisposition, repeatAnswer]
  simp only [eq_comm]

theorem resolve_again_beyond (hnow : beyondI64 again.nowMs = true) :
    resolve again store ≠ (repeatAnswer entry req again, store') := by
  have hrefused : Exiting.wp (resolve again) (fun _ _ => False)
      (fun error _ => error = .invalidId ∨ error = .storage pendingIntegerRangeMsg) store := by
    simp [resolve, hnow]
  intro hresolve
  unfold repeatAnswer at hresolve
  split at hresolve
  · exact Exiting.of_wp_ok hrefused hresolve
  · simpa using Exiting.of_wp_error hrefused hresolve

theorem resolve_again_evicted {log' : PendingLog} (held' : log'.Held store')
    (hcloses : log.Closes req entry log') (hentry : entry ∈ log.inFlight)
    (hentryId : entry.callId = req.callId) (hcall : again.callId = req.callId)
    (hnow : beyondI64 again.nowMs = false) (hevicted : entry.close req ∉ log'.recent) :
    resolve again store' = (.error .notFound, store') := by
  have hid : validCallId again.callId = true :=
    (hcall.trans hentryId.symm) ▸ (log.inFlight_open entry hentry).1.callId
  refine resolve_unknown held' hid hnow fun hknown => ?_
  rcases knows_iff.mp hknown with ⟨other, hother, hsame⟩ | ⟨other, hother, hsame⟩
  · rw [hcloses.inFlight] at hother
    simp [hsame, hcall] at hother
  · have hkept := hother
    rw [hcloses.recent, mem_keptRecent, mem_append, mem_singleton] at hother
    rcases hother.1 with hrecent | rfl
    · exact callId_ne hentry hrecent (by rw [hsame, hcall, hentryId])
    · exact hevicted hkept

/-- After any calls, a resolution that has been answered can be repeated exactly if it
was answered from the cache or fewer than 32 cached rows are newer. -/
theorem resolve_repeat_iff (calls : List PendingCall) (req again : PendingResolve)
    (entry : PendingEntry) (store store' : ContentStore)
    (hstore : store = (serveAll calls ContentStore.openInMemory).2)
    (hresolve : resolve req store = (.ok entry, store'))
    (hcall : again.callId = req.callId) :
    resolve again store' = (repeatAnswer entry req again, store') ↔
      beyondI64 again.nowMs = false ∧
        (store.pendingEffects.contains req.callId = false ∨ newerCached store req < 32) := by
  obtain ⟨log, held, -⟩ := serveAll_held held_empty calls
  rw [← hstore] at held
  cases hnow : beyondI64 again.nowMs with
  | true => simp [resolve_again_beyond hnow]
  | false =>
    rcases Exiting.of_wp_ok (resolve_spec held req) hresolve with
      ⟨begun, hbegun, hid, rfl, -, log', held', hcloses⟩ | ⟨hrecent, hid, hdisposition, rfl⟩
    · have hopen : store.pendingEffects.contains req.callId = true :=
        (contains_live held).mpr ⟨begun, hbegun, hid⟩
      have hkept : begun.close req ∈ log'.recent ↔ newerCached store req < 32 := by
        rw [hcloses.recent]
        exact mem_keptRecent_close held hcloses.now hid
      rw [hopen, ← hkept]
      by_cases hmem : begun.close req ∈ log'.recent
      · simpa [hmem] using resolve_again_cached held' hnow hmem (hid.trans hcall.symm) rfl
      · rw [resolve_again_evicted held' hcloses hbegun hid hcall hnow hmem, repeatAnswer]
        split <;> simp [hmem]
    · have hclosed : store'.pendingEffects.contains req.callId = false := by
        refine Bool.eq_false_iff.mpr fun hopen => ?_
        obtain ⟨other, hother, hsame⟩ := (contains_live held).mp hopen
        exact callId_ne hother hrecent (hsame.trans hid.symm)
      simpa [hclosed] using
        resolve_again_cached held hnow hrecent (hid.trans hcall.symm) hdisposition

def plainBegin (callId : String) : PendingBegin :=
  ⟨callId, ⟨"s", by decide⟩, none, "tool", [], 0, 0, 0⟩

def plainResolve (nowMs : UInt64) (callId : String) : PendingResolve :=
  ⟨callId, .success, 0, 0, nowMs⟩

theorem resolve_repeat_plainBegin : ∃ entry store', resolve (plainResolve 5 "99")
        (serveAll [.begin (plainBegin "99")] ContentStore.openInMemory).2 = (.ok entry, store') ∧
      resolve (plainResolve 7 "99") store' = (.ok entry, store') := by
  obtain ⟨entry, store', hresolve⟩ := Exiting.exists_run_ok (m := resolve (plainResolve 5 "99"))
    (s := (serveAll [.begin (plainBegin "99")] ContentStore.openInMemory).2) (by decide +kernel)
  refine ⟨entry, store', hresolve, ?_⟩
  exact (resolve_repeat_iff _ _ (plainResolve 7 "99") _ _ _ rfl hresolve rfl).mpr
    ⟨rfl, .inr (by decide +kernel)⟩

/-! ## A full cache -/

theorem keptRecent_eq_self {entries : List PendingEntry} (h : entries.length ≤ maxResolvedRecent) :
    keptRecent entries = entries := by
  refine filter_eq_self.mpr fun entry hentry => ?_
  have hless : (entries.countP fun other => resolvedAge entry.resolvedRow <
      resolvedAge other.resolvedRow) < entries.length :=
    countP_lt_length_iff.mpr ⟨entry, hentry, by simp⟩
  simpa using hless.trans_le h

def roundTrip (callId : String) : List PendingCall :=
  [.begin (plainBegin callId), .resolve (plainResolve 10 callId)]

/-- Nothing is open, and the calls of these ids are cached as resolved at moment 10. -/
structure Idle (ids : List String) (log : PendingLog) (store : ContentStore) : Prop where
  held : log.Held store
  nothingOpen : log.inFlight = []
  cached : log.recent = ids.map fun id => (plainBegin id).entry.close (plainResolve 10 id)

variable {ids : List String} {id : String}

theorem Idle.begins (h : Idle ids log store) (hvalid : validCallId id = true) (hnew : id ∉ ids) :
    ∃ (store' : ContentStore) (log' : PendingLog),
      begin (plainBegin id) store = (.ok (plainBegin id).entry, store') ∧ log'.Held store' ∧
        log'.inFlight = [(plainBegin id).entry] ∧ log'.recent = log.recent := by
  have hunknown : ¬log.Knows id := by
    simpa [knows_iff, h.nothingOpen, h.cached, PendingEntry.close, PendingBegin.entry,
      plainBegin] using hnew
  simpa [h.nothingOpen] using begin_admitted h.held (plainBegin id)
    ⟨hvalid, rfl, rfl, rfl, rfl, rfl⟩ hunknown
    (by simp [openCount_eq h.held, h.nothingOpen, maxOpenPendingPerSession])

theorem Idle.roundTrips (more : List String) (h : Idle ids log store)
    (hvalid : ∀ id ∈ more, validCallId id = true) (hnodup : (ids ++ more).Nodup)
    (hroom : (ids ++ more).length ≤ maxResolvedRecent) :
    ∃ log', Idle (ids ++ more) log' (serveAll (more.flatMap roundTrip) store).2 := by
  induction more generalizing ids log store with
  | nil => exact ⟨log, by simpa [serveAll] using h⟩
  | cons id more ih =>
    rw [append_cons] at hnodup hroom ⊢
    have hfirst : id ∉ ids := fun hmem =>
      disjoint_of_nodup_append (nodup_append.mp hnodup).1 hmem (mem_singleton_self id)
    obtain ⟨store₁, log₁, hbegin, held₁, hopen, hcached⟩ :=
      h.begins (hvalid id mem_cons_self) hfirst
    obtain ⟨store₂, log₂, hresolve, held₂, hcloses⟩ := resolve_admitted held₁
      (plainResolve 10 id) (hopen ▸ mem_singleton_self _) rfl rfl (UInt64.le_refl 0) rfl
    have hidle : Idle (ids ++ [id]) log₂ store₂ := by
      refine ⟨held₂, by simp [hcloses.inFlight, hopen, plainBegin, plainResolve,
        PendingBegin.entry], ?_⟩
      rw [hcloses.recent, hcached, h.cached, keptRecent_eq_self]
      · simp
      · simp only [length_append, length_map, length_singleton] at hroom ⊢
        omega
    have hserve : (serveAll ((id :: more).flatMap roundTrip) store).2 =
        (serveAll (more.flatMap roundTrip) store₂).2 := by
      simp [roundTrip, serveAll, PendingCall.serve, hbegin, hresolve]
    rw [hserve]
    exact ih hidle (fun other hother => hvalid other (mem_cons_of_mem _ hother)) hnodup hroom

def fullIds : List String := (range 32).map fun i => toString (10 + i)

/-- The cache is full with moments from 10 on, and the call `99` is open. -/
def fullCalls : List PendingCall := fullIds.flatMap roundTrip ++ [.begin (plainBegin "99")]

theorem serveAll_append (calls more : List PendingCall) (store : ContentStore) :
    (serveAll (calls ++ more) store).2 = (serveAll more (serveAll calls store).2).2 := by
  induction calls generalizing store with
  | nil => rfl
  | cons call calls ih => exact ih _

/-- Resolved at moment 5, the call `99` is not found again. -/
theorem resolve_repeat_notFound_fullCalls : ∃ entry store', resolve (plainResolve 5 "99")
        (serveAll fullCalls ContentStore.openInMemory).2 = (.ok entry, store') ∧
      resolve (plainResolve 5 "99") store' = (.error .notFound, store') := by
  have hstart : Idle [] .empty ContentStore.openInMemory := ⟨held_empty, rfl, rfl⟩
  obtain ⟨log, hidle⟩ := hstart.roundTrips fullIds (by decide) (by decide) (by decide)
  rw [nil_append] at hidle
  obtain ⟨store₁, log₁, hbegin, held₁, hopen, hcached⟩ :=
    hidle.begins (show validCallId "99" = true by decide) (by decide)
  have hentry : (plainBegin "99").entry ∈ log₁.inFlight := hopen ▸ mem_singleton_self _
  obtain ⟨store₂, log₂, hresolve, held₂, hcloses⟩ :=
    resolve_admitted held₁ (plainResolve 5 "99") hentry rfl rfl (UInt64.le_refl 0) rfl
  have hstore : (serveAll fullCalls ContentStore.openInMemory).2 = store₁ := by
    rw [fullCalls, serveAll_append]
    simp [serveAll, PendingCall.serve, hbegin]
  rw [hstore]
  refine ⟨_, store₂, hresolve, ?_⟩
  refine resolve_again_evicted held₂ hcloses hentry rfl rfl rfl ?_
  have hnewer : newerCached store₁ (plainResolve 5 "99") = fullIds.length := by
    rw [newerCached, held₁.cached, hcached, hidle.cached, map_map, countP_map, countP_eq_length]
    intro id _
    have hage : resolvedAge ((plainBegin id).entry.close (plainResolve 10 id)).resolvedRow =
        toLex ((10 : Int), id) :=
      resolvedAge_close rfl rfl
    have hearlier : ((plainResolve 5 "99").nowMs.toNat : Int) < 10 := by decide
    rw [Function.comp_apply, Function.comp_apply, hage, decide_eq_true_eq]
    exact Prod.Lex.toLex_lt_toLex.mpr (.inl hearlier)
  rw [hcloses.recent, mem_keptRecent_close held₁ rfl rfl, hnewer]
  decide

end BittyAi.Session
