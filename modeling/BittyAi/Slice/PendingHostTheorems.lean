/-
BittyAi.Slice.PendingHostTheorems — every call of the inner executor is journaled.

An id is free unless two sequence numbers collide or open rows of other sessions carry the
ids of this one. The last exception is real: rows of thirty-two other sessions can hold every
id that is tried.
-/
import BittyAi.Slice.PendingHost

namespace BittyAi.Slice

open Lib Exiting Session PendingToolExecutor PendingLog PendingStore ContentHash
open List
open BittyAi.Runtime (ExecutionContext ToolCall ToolError ToolSuccess)

variable {E : Type} {log : PendingLog} {store : ContentStore}
variable {count : Nat} {sessionId : WheelSessionId} {req : PendingBegin} {call : JournalCall}
  {seq : UInt64} {store' : ContentStore}

/-! ## Opening a row -/

structure Opens (log : PendingLog) (req : PendingBegin) (log' : PendingLog) : Prop where
  sound : PendingLog.Sound req
  fresh : ¬log.Knows req.callId
  inFlight : log'.inFlight = log.inFlight ++ [req.entry]
  recent : log'.recent = log.recent

theorem opens_of_begin (held : log.Held store) {entry : PendingEntry}
    (h : begin req store = (.ok entry, store')) :
    ∃ log' : PendingLog, log'.Held store' ∧ Opens log req log' := by
  obtain ⟨-, hsound, hnew, -, log', held', hinFlight, hrecent⟩ :=
    of_wp_ok (begin_spec held req) h
  exact ⟨log', held', hsound, hnew, hinFlight, hrecent⟩

theorem mapBeginErr_ne_mintExhausted (tool : String) (error : PendingError) :
    mapBeginErr tool error ≠ mintExhausted tool := by
  cases error <;> simp [mapBeginErr, mintExhausted]

theorem seq_add_succ (seq : UInt64) (i : Nat) :
    seq + UInt64.ofNat (i + 1) = seq + 1 + UInt64.ofNat i := by
  rw [UInt64.ofNat_add, UInt64.add_comm (UInt64.ofNat i), UInt64.add_assoc]
  rfl

theorem mintLoop_succ {executor : PendingToolExecutor} {answer : Except PendingError PendingEntry}
    (h : begin (executor.request call seq) store = (answer, store')) (left : Nat) :
    executor.mintLoop call (left + 1) seq store =
      afterBegin call.tool
        (mintPendingCallId executor.sessionId seq, seq + 1)
        (executor.mintLoop call left (seq + 1)) answer store' := by
  rw [mintLoop]
  beta_reduce
  rw [h]

theorem mintLoop_spec (held : log.Held store) (executor : PendingToolExecutor) (call : JournalCall)
    (left : Nat) (seq : UInt64) :
    wp (executor.mintLoop call left seq)
      (fun minted store' => ∃ (seq' : UInt64) (log' : PendingLog),
        minted = (mintPendingCallId executor.sessionId seq', seq' + 1) ∧ log'.Held store' ∧
          Opens log (executor.request call seq') log')
      (fun error store' => store' = store ∧ (error = mintExhausted call.tool →
        ∀ i < left, log.Knows (mintPendingCallId executor.sessionId (seq + UInt64.ofNat i))))
      store := by
  induction left generalizing seq with
  | zero => exact wp_exit.mpr ⟨rfl, fun _ i hi => absurd hi (Nat.not_lt_zero i)⟩
  | succ left ih =>
    rcases hbegin : begin (executor.request call seq) store with ⟨error | entry, store'⟩
    · obtain ⟨rfl, hexists, -⟩ :=
        of_wp_error (begin_spec held (executor.request call seq)) hbegin
      by_cases hexhausts : error = .alreadyExists
      · -- the id is taken, and the rest of the loop tries the next ones
        subst hexhausts
        have hnext : executor.mintLoop call (left + 1) seq store' =
            executor.mintLoop call left (seq + 1) store' := mintLoop_succ hbegin left
        refine wp_intro (fun minted after hrun => ?_) fun error after hrun => ?_
        · exact of_wp_ok (ih (seq + 1)) (hnext ▸ hrun)
        · obtain ⟨hsame, hrest⟩ := of_wp_error (ih (seq + 1)) (hnext ▸ hrun)
          refine ⟨hsame, fun hnone i hi => ?_⟩
          cases i with
          | zero =>
            rw [show seq + UInt64.ofNat 0 = seq from UInt64.add_zero seq]
            exact hexists rfl
          | succ i =>
            rw [seq_add_succ]
            exact hrest hnone i (Nat.lt_of_succ_lt_succ hi)
      · have hstop : executor.mintLoop call (left + 1) seq store' =
            (.error (mapBeginErr call.tool error), store') := by
          rw [mintLoop_succ hbegin left, afterBegin, if_neg hexhausts]
          rfl
        exact wp_of_error hstop ⟨rfl, fun hnone => absurd hnone (mapBeginErr_ne_mintExhausted _ _)⟩
    · obtain ⟨log', held', hopens⟩ := opens_of_begin held hbegin
      have hopened : executor.mintLoop call (left + 1) seq store =
          (.ok (mintPendingCallId executor.sessionId seq, seq + 1), store') :=
        mintLoop_succ hbegin left
      exact wp_of_ok hopened ⟨seq, log', rfl, held', hopens⟩

/-! ## One dispatch -/

def HasOpenRow (executor : PendingToolExecutor) (call : JournalCall) (callId : String)
    (store : ContentStore) : Prop :=
  ∃ row ∈ store.pendingEffects.rows, row.callId = callId ∧ row.status = "open" ∧
    row.sessionId = executor.sessionId.text ∧ row.tool = call.tool ∧
    row.argsDigest = (compute call.arguments).toHex ∧
    row.generation = executor.generation.toInt64 ∧ row.epoch = executor.epoch.toInt64

def FreshId (callId : String) (store : ContentStore) : Prop :=
  store.pendingEffects.contains callId = false ∧
    store.pendingResolvedRecent.contains callId = false

def JournalEvent.RefusedAtBegin (event : JournalEvent E) : Prop :=
  ∃ error, (event.executor.beginGuarded event.call event.before.store).1 = .error error ∧
    event.result = .error error ∧ event.after = event.before

/-- The disposition of an answer that is certain. -/
inductive ResolvedAs : Except ToolError ToolSuccess → PendingDisposition → Prop
  | success (payload : ToolSuccess) : ResolvedAs (.ok payload) .success
  | denied (name reason : String) : ResolvedAs (.error (.denied name reason)) .denied
  | failed {error : ToolError} (hcertain : ∀ name reason, error ≠ .effectUnknown name reason)
      (hdenied : ∀ name reason, error ≠ .denied name reason) : ResolvedAs (.error error) .failed

/-- The inner executor is called once, in a store with an open row of this dispatch under a new
id, and the row is open afterwards exactly for an uncertain effect; otherwise it is resolved as
the answer says. -/
def JournalEvent.DispatchedOnce (event : JournalEvent E) : Prop :=
  ∃ (callId : String) (contact : InnerContact),
    event.after.contacts = event.before.contacts ++ [contact] ∧
    contact.call = ⟨event.call.tool, event.call.arguments⟩ ∧
    event.result = contact.answer ∧
    FreshId callId event.before.store ∧
    HasOpenRow event.executor event.call callId contact.store ∧
    (event.after.store.pendingEffects.contains callId = true ↔
      ∃ name reason, contact.answer = .error (.effectUnknown name reason)) ∧
    ∀ disposition, ResolvedAs contact.answer disposition →
      ∃ entry, resolve
          (event.executor.resolution callId disposition event.call.nowMs) contact.store =
            (.ok entry, event.after.store) ∧
        entry.callId = callId ∧ entry.status = .resolved ∧ entry.disposition = some disposition

structure Journaled (event : JournalEvent E) : Prop where
  outcome : event.RefusedAtBegin ∨ event.DispatchedOnce
  distinct : (event.after.store.pendingEffects.rows.map (·.callId)).Nodup

theorem dispositionOf_eq_none {answer : Except ToolError ToolSuccess} :
    dispositionOf answer = none ↔ ∃ name reason, answer = .error (.effectUnknown name reason) := by
  rcases answer with error | success
  · cases error <;> simp [dispositionOf]
  · simp [dispositionOf]

theorem resolvedAs_iff {answer : Except ToolError ToolSuccess} {disposition : PendingDisposition} :
    ResolvedAs answer disposition ↔ dispositionOf answer = some disposition := by
  constructor
  · rintro (_ | _ | ⟨hcertain, hdenied⟩)
    · rfl
    · rfl
    · rw [dispositionOf]
      · exact hcertain
      · exact hdenied
  · intro h
    rcases answer with error | payload
    · cases error <;> cases h <;> constructor <;> simp
    · cases h
      exact .success payload

theorem freshId_of_not_knows (held : log.Held store) {callId : String} (h : ¬log.Knows callId) :
    FreshId callId store := by
  rw [knows_iff, not_or] at h
  exact ⟨Bool.eq_false_iff.mpr fun hlive => h.1 ((contains_live held).mp hlive),
    Bool.eq_false_iff.mpr fun hcached => h.2 ((contains_cached held).mp hcached)⟩

theorem hasOpenRow_of_opens {log' : PendingLog} {executor : PendingToolExecutor}
    (held' : log'.Held store) (hopens : Opens log (executor.request call seq) log') :
    HasOpenRow executor call (mintPendingCallId executor.sessionId seq) store := by
  refine ⟨(executor.request call seq).row, ?_, rfl, rfl, rfl, rfl, rfl, rfl, rfl⟩
  rw [held'.live, hopens.inFlight, map_append]
  exact mem_append_right _ (mem_singleton_self _)

theorem executeWithContext_journaled (inner : InnerExecutor E) (executor : PendingToolExecutor)
    (call : JournalCall) (host : JournalHost E) (held : log.Held host.store) :
    let run := executor.executeWithContext inner call host
    (∃ log' : PendingLog, log'.Held run.2.2.store) ∧
      Journaled ⟨call, executor, host, run.1, run.2.2⟩ := by
  rcases hbegin : executor.beginGuarded call host.store with ⟨error | ⟨callId, next⟩, store'⟩
  · obtain ⟨rfl, -⟩ := of_wp_error (mintLoop_spec held executor call _ _) hbegin
    have hrun : executor.executeWithContext inner call host = (.error error, executor, host) := by
      rw [executeWithContext, hbegin]
      rfl
    simp only [hrun]
    exact ⟨⟨log, held⟩, .inl ⟨error, by rw [hbegin], rfl, rfl⟩, host.store.pendingEffects.nodup⟩
  · obtain ⟨seq, log', hminted, held', hopens⟩ :=
      of_wp_ok (mintLoop_spec held executor call _ _) hbegin
    obtain ⟨rfl, rfl⟩ := Prod.mk.inj hminted
    have hfresh := freshId_of_not_knows held hopens.fresh
    have hrow := hasOpenRow_of_opens held' hopens
    rw [executeWithContext, hbegin]
    dsimp only [executeBegun]
    generalize inner host.env ⟨call.tool, call.arguments⟩
      ⟨call.executionId, call.nowMs.toNat⟩ = answered
    cases hanswer : dispositionOf answered.1 with
    | none =>
      refine ⟨⟨log', held'⟩, .inr ⟨_, _, rfl, rfl, rfl, hfresh, hrow, ?_,
        by simp [resolvedAs_iff, hanswer]⟩, store'.pendingEffects.nodup⟩
      obtain ⟨row, hmem, hid, -⟩ := hrow
      exact iff_of_true (KeyedTable.contains_eq_true.mpr ⟨row, hmem, hid⟩)
        (dispositionOf_eq_none.mp hanswer)
    | some disposition =>
      have hentry : (executor.request call seq).entry ∈ log'.inFlight := by simp [hopens.inFlight]
      obtain ⟨store'', log'', hresolve, held'', hcloses⟩ :=
        resolve_admitted held'
          (executor.resolution (mintPendingCallId executor.sessionId seq) disposition call.nowMs)
          hentry rfl hopens.sound.2.2.2.2.2 (UInt64.le_refl _) rfl
      have hafter : executor.resolveBestEffort (mintPendingCallId executor.sessionId seq)
          disposition call.nowMs store' = store'' := by
        rw [resolveBestEffort, hresolve]
      simp only [hafter]
      refine ⟨⟨log'', held''⟩, .inr ⟨_, _, rfl, rfl, rfl, hfresh, hrow, ?_, ?_⟩,
        store''.pendingEffects.nodup⟩
      · -- the row is closed, so the answer must not be an uncertain effect
        refine iff_of_false (fun hlive => ?_) fun hunknown => ?_
        · obtain ⟨entry, hmem, hid⟩ := (contains_live held'').mp hlive
          rw [hcloses.inFlight] at hmem
          exact absurd hid (of_decide_eq_true (mem_filter.mp hmem).2)
        · rw [dispositionOf_eq_none.mpr hunknown] at hanswer
          cases hanswer
      · intro other hother
        obtain rfl : disposition = other := by simpa [resolvedAs_iff, hanswer] using hother
        exact ⟨_, hresolve, rfl, rfl, rfl⟩

/-! ## Free ids -/

def MintCollision (sessionId : WheelSessionId) : Prop :=
  ∃ a b : UInt64, mintInput sessionId a ≠ mintInput sessionId b ∧
    compute (mintInput sessionId a) = compute (mintInput sessionId b)

def OwnIds (sessionId : WheelSessionId) (store : ContentStore) : Prop :=
  ∀ row ∈ store.pendingEffects.rows, row.sessionId ≠ sessionId.text →
    ∀ seq, row.callId ≠ mintPendingCallId sessionId seq

def JournalEvent.Exhausted (event : JournalEvent E) : Prop :=
  (event.executor.beginGuarded event.call event.before.store).1 =
    .error (mintExhausted event.call.tool)

theorem mintInput_inj {a b : UInt64} : mintInput sessionId a = mintInput sessionId b ↔ a = b := by
  unfold mintInput
  rw [utf8Bytes_inj, String.append_right_inj, toString_nat_inj, UInt64.toNat_inj]

theorem ofNat_add_inj {i j : Nat} (hi : i < maxCallIdMintAttempts) (hj : j < maxCallIdMintAttempts)
    (h : seq + UInt64.ofNat i = seq + UInt64.ofNat j) : i = j := by
  have hsame := congrArg UInt64.toNat (UInt64.add_right_inj seq |>.mp h)
  unfold maxCallIdMintAttempts at hi hj
  simp only [UInt64.toNat_ofNat'] at hsame
  omega

theorem collision_of_known (held : log.Held store) {sessionId : WheelSessionId} {seq : UInt64}
    (hown : OwnIds sessionId store)
    (hknown : ∀ i < maxCallIdMintAttempts,
      log.Knows (mintPendingCallId sessionId (seq + UInt64.ofNat i))) :
    MintCollision sessionId := by
  let known := (log.inFlight.filter fun entry => entry.sessionId = sessionId) ++ log.recent
  have hfew : known.length ≤ maxOpenPendingPerSession + maxResolvedRecent := by
    rw [length_append, ← countP_eq_length_filter]
    exact Nat.add_le_add (log.openBound sessionId) log.recentBound
  have hmem : ∀ i < maxCallIdMintAttempts,
      mintPendingCallId sessionId (seq + UInt64.ofNat i) ∈ known.map (·.callId) := by
    intro i hi
    obtain ⟨entry, hentry, hid⟩ := hknown i hi
    refine mem_map.mpr ⟨entry, ?_, hid⟩
    rcases mem_append.mp hentry with hlive | hrecent
    · refine mem_append_left _ (mem_filter.mpr ⟨hlive, decide_eq_true ?_⟩)
      by_contra hother
      refine hown entry.toRow (held.live ▸ mem_map_of_mem hlive) (fun htext => ?_) _ hid
      exact hother (WheelSessionId.text_inj.mp htext)
    · exact mem_append_right _ hrecent
  -- more ids are tried than are known, so two of them are one
  have hcard :
      (known.map (·.callId)).toFinset.card < (Finset.range maxCallIdMintAttempts).card := by
    have hle := (known.map (·.callId)).toFinset_card_le
    rw [length_map] at hle
    rw [Finset.card_range]
    exact Nat.lt_of_le_of_lt (Nat.le_trans hle hfew) (by decide)
  obtain ⟨i, hi, j, hj, hne, hsame⟩ := Finset.exists_ne_map_eq_of_card_lt_of_maps_to hcard
    fun i hi => mem_toFinset.mpr (hmem i (Finset.mem_range.mp hi))
  refine ⟨seq + UInt64.ofNat i, seq + UInt64.ofNat j, fun hinput => hne ?_, toHex_inj.mp hsame⟩
  exact ofNat_add_inj (Finset.mem_range.mp hi) (Finset.mem_range.mp hj) (mintInput_inj.mp hinput)

theorem collision_of_exhausted {event : JournalEvent E} (held : log.Held event.before.store)
    (hown : OwnIds event.executor.sessionId event.before.store) (h : event.Exhausted) :
    MintCollision event.executor.sessionId := by
  rcases hbegin : event.executor.beginGuarded event.call event.before.store with ⟨error | _, store'⟩
  · rw [JournalEvent.Exhausted, hbegin] at h
    obtain ⟨-, hknown⟩ := of_wp_error (mintLoop_spec held event.executor event.call _ _) hbegin
    exact collision_of_known held hown (hknown (Except.error.inj h))
  · rw [JournalEvent.Exhausted, hbegin] at h
    cases h

/-! ## Runs -/

/-- Every dispatch of a run is journaled, and finds a free id unless two sequence numbers collide or
an open row of another session carries an id of this one. -/
theorem journal_run (inner : InnerExecutor E) (steps : List JournalStep)
    (executor : PendingToolExecutor) (host : JournalHost E) (held : log.Held host.store) :
    ∀ event ∈ journal inner steps executor host, Journaled event ∧
      (OwnIds event.executor.sessionId event.before.store → event.Exhausted →
        MintCollision event.executor.sessionId) := by
  induction steps generalizing executor host log with
  | nil => exact fun event hevent => absurd hevent not_mem_nil
  | cons step steps ih =>
    cases step with
    | execute call =>
      obtain ⟨⟨log', held'⟩, hjournaled⟩ :=
        executeWithContext_journaled inner executor call host held
      rw [journal]
      generalize executor.executeWithContext inner call host = run at held' hjournaled ⊢
      exact forall_mem_cons.mpr ⟨⟨hjournaled, collision_of_exhausted held⟩, ih _ _ held'⟩
    | setGeneration | setEpoch | setTaskId => exact ih _ _ held
    | store call =>
      obtain ⟨log', held', -⟩ := serve_held held call
      exact ih _ _ held'

/-- For every inner executor, every store that `begin` and `resolve` can reach and every run of an
executor on it. -/
theorem dispatches_journaled (inner : InnerExecutor E) (calls : List PendingCall)
    (steps : List JournalStep) (executor : PendingToolExecutor) (env : E) :
    let host : JournalHost E := ⟨(Session.serveAll calls ContentStore.openInMemory).2, env, []⟩
    ∀ event ∈ journal inner steps executor host, Journaled event ∧
      (OwnIds event.executor.sessionId event.before.store → event.Exhausted →
        MintCollision event.executor.sessionId) := by
  obtain ⟨log, held, -⟩ := serveAll_held held_empty calls
  exact journal_run inner steps executor _ held

/-! ## Rows of other sessions under the ids of this one -/

theorem validCallId_toHex (hash : ContentHash) : validCallId hash.toHex = true := by
  have hdigit : ∀ n < 16, (hexDigit n).utf8Size = 1 ∧ ((hexDigit n).isDigit ||
      ('a' ≤ hexDigit n && hexDigit n ≤ 'f') || ('A' ≤ hexDigit n && hexDigit n ≤ 'F')) = true := by
    decide
  have hsize : hash.toHex.utf8ByteSize = 64 := by
    rw [← String.ofList_toList (s := hash.toHex), utf8ByteSize_ofList_ascii, hash.length_toHex]
    intro c hc
    obtain ⟨n, hn, rfl⟩ := mem_toHex hc
    exact (hdigit n hn).1
  have hsome : hash.toHex.isEmpty = false := by
    rw [String.isEmpty_eq_false_iff]
    rintro hempty
    rw [hempty] at hsize
    cases hsize
  simp only [validCallId, hsome, hsize, Bool.not_false, Bool.true_and, Bool.and_eq_true,
    all_eq_true]
  refine ⟨by decide, fun c hc => ?_⟩
  obtain ⟨n, hn, rfl⟩ := mem_toHex hc
  exact (hdigit n hn).2

theorem begin_of_known (held : log.Held store) (hsound : PendingLog.Sound req)
    (hroom : openCount req.sessionId store < maxOpenPendingPerSession)
    (hknown : log.Knows req.callId) : begin req store = (.error .alreadyExists, store) := by
  rcases hbegin : begin req store with ⟨error | entry, store'⟩
  · obtain ⟨rfl, -, herror⟩ := of_wp_error (begin_spec held req) hbegin
    rw [herror hsound hroom]
  · exact absurd hknown (of_wp_ok (begin_spec held req) hbegin).2.2.1

theorem begin_step (held : log.Held store) (hsound : PendingLog.Sound req)
    (hroom : openCount req.sessionId store < maxOpenPendingPerSession) :
    ∃ log' : PendingLog, log'.Held (begin req store).2 ∧ log'.Knows req.callId ∧
      (∀ callId, log.Knows callId → log'.Knows callId) ∧
      ∀ sessionId, openCount sessionId (begin req store).2 ≤
        openCount sessionId store + if req.sessionId = sessionId then 1 else 0 := by
  by_cases hknown : log.Knows req.callId
  · rw [begin_of_known held hsound hroom hknown]
    exact ⟨log, held, hknown, fun _ h => h, fun _ => Nat.le_add_right ..⟩
  · obtain ⟨store', log', hbegin, held', hopen, hcached⟩ :=
      begin_admitted held req hsound hknown hroom
    rw [hbegin]
    refine ⟨log', held', ⟨req.entry, by simp [hopen], rfl⟩, ?_, fun sessionId => ?_⟩
    · rintro callId ⟨entry, hentry, hid⟩
      refine ⟨entry, ?_, hid⟩
      rw [hopen, hcached]
      rcases mem_append.mp hentry with hlive | hrecent
      · exact mem_append_left _ (mem_append_left _ hlive)
      · exact mem_append_right _ hrecent
    · simp [openCount_eq held, openCount_eq held', hopen, PendingBegin.entry, countP_cons]

theorem serveAll_begins (reqs : List PendingBegin) (held : log.Held store)
    (hsound : ∀ req ∈ reqs, PendingLog.Sound req)
    (hroom : ∀ sessionId, openCount sessionId store +
      (reqs.countP fun req => req.sessionId = sessionId) ≤ maxOpenPendingPerSession) :
    let after := (Session.serveAll (reqs.map .begin) store).2
    ∃ log' : PendingLog, log'.Held after ∧ (∀ req ∈ reqs, log'.Knows req.callId) ∧
      (∀ callId, log.Knows callId → log'.Knows callId) ∧
      ∀ sessionId, openCount sessionId after ≤
        openCount sessionId store + reqs.countP fun req => req.sessionId = sessionId := by
  induction reqs generalizing log store with
  | nil => exact ⟨log, held, by simp, fun _ h => h, fun _ => Nat.le_refl _⟩
  | cons req reqs ih =>
    simp only [countP_cons, decide_eq_true_eq] at hroom ⊢
    have hfirst := hroom req.sessionId
    rw [if_pos rfl] at hfirst
    obtain ⟨log₁, held₁, hnew, hkeep₁, hcount₁⟩ :=
      begin_step held (hsound req mem_cons_self) (by omega)
    obtain ⟨log', held', hall, hkeep, hcount⟩ :=
      ih held₁ (fun other hother => hsound other (mem_cons_of_mem req hother)) fun sessionId =>
        by have := hroom sessionId; have := hcount₁ sessionId; omega
    refine ⟨log', held', forall_mem_cons.mpr ⟨hkeep _ hnew, hall⟩,
      fun callId h => hkeep _ (hkeep₁ _ h), fun sessionId => (hcount sessionId).trans ?_⟩
    have := hcount₁ sessionId
    omega

theorem mintLoop_exhausts (executor : PendingToolExecutor) (call : JournalCall) (left : Nat)
    (seq : UInt64) (h : ∀ i < left, begin
      (executor.request call (seq + UInt64.ofNat i)) store = (.error .alreadyExists, store)) :
    executor.mintLoop call left seq store = (.error (mintExhausted call.tool), store) := by
  induction left generalizing seq with
  | zero => rfl
  | succ left ih =>
    have hfirst := h 0 (Nat.succ_pos left)
    rw [show seq + UInt64.ofNat 0 = seq from UInt64.add_zero seq] at hfirst
    refine (mintLoop_succ hfirst left).trans ?_
    refine ih (seq + 1) fun i hi => ?_
    rw [← seq_add_succ]
    exact h (i + 1) (Nat.succ_lt_succ hi)

def otherSession (k : Nat) : WheelSessionId :=
  let text := String.ofList (replicate (k + 1) 'a')
  if h : sessionIdShape text = true then ⟨text, h⟩ else ⟨"a", by decide⟩

def sampleExecutor : PendingToolExecutor where
  sessionId := ⟨"own", by decide⟩
  taskId := none
  generation := 0
  epoch := 0
  nextSeq := 0

def sampleCall : JournalCall := ⟨"probe", [], ⟨1⟩, 0⟩

/-- The sessions open, thirty-two rows each, the ids that the session `own` mints. -/
def squatter (i : Nat) : PendingBegin :=
  { sampleExecutor.request sampleCall (UInt64.ofNat i) with sessionId := otherSession (i / 32) }

def squatters (count : Nat) : List PendingBegin := (range count).map squatter

theorem otherSession_inj : ∀ j < 32, ∀ k < 32, otherSession j = otherSession k → j = k := by
  decide +kernel

theorem sessionId_squatter (i : Nat) : (squatter i).sessionId = otherSession (i / 32) := by
  simp only [squatter]

theorem sound_squatter (i : Nat) : PendingLog.Sound (squatter i) :=
  ⟨validCallId_toHex _, rfl, rfl, rfl, rfl, rfl⟩

theorem countP_squatters (hcount : count ≤ 1024) (sessionId : WheelSessionId) :
    ((squatters count).countP fun req => req.sessionId = sessionId) ≤ 32 := by
  have hblock : ∀ k < 32, (range 1024).countP (fun i => i / 32 = k) ≤ 32 := by decide +kernel
  have hall : (squatters count).Sublist (squatters 1024) :=
    (range_sublist.mpr hcount).map squatter
  refine (hall.countP_le).trans ?_
  rw [squatters, countP_map]
  by_cases hother : ∃ k < 32, otherSession k = sessionId
  · obtain ⟨k, hk, rfl⟩ := hother
    refine (countP_mono_left fun i hi hsame => ?_).trans (hblock k hk)
    have hlt := mem_range.mp hi
    rw [Function.comp_apply, sessionId_squatter, decide_eq_true_eq] at hsame
    exact decide_eq_true (otherSession_inj _ (by omega) _ hk hsame)
  · rw [countP_eq_zero.mpr fun i hi hsame => ?_]
    · exact Nat.zero_le _
    rw [Function.comp_apply, sessionId_squatter, decide_eq_true_eq] at hsame
    have hlt := mem_range.mp hi
    exact hother ⟨i / 32, by omega, hsame⟩

theorem countP_squatters_own (hcount : count ≤ 1024) :
    ((squatters count).countP fun req => req.sessionId = sampleExecutor.sessionId) = 0 := by
  have hown : ∀ k < 32, otherSession k ≠ sampleExecutor.sessionId := by decide +kernel
  refine countP_eq_zero.mpr fun req hreq hsame => ?_
  obtain ⟨i, hi, rfl⟩ := mem_map.mp hreq
  have hlt := mem_range.mp hi
  rw [sessionId_squatter, decide_eq_true_eq] at hsame
  exact hown (i / 32) (by omega) hsame

theorem mintLoop_of_squatters (hcount : count ≤ 1024) : (sampleExecutor.mintLoop sampleCall count 0
      (Session.serveAll ((squatters count).map .begin) ContentStore.openInMemory).2).1 =
      .error (mintExhausted sampleCall.tool) := by
  obtain ⟨log, held, hall, -, hopen⟩ := serveAll_begins (squatters count) held_empty
    (fun req hreq => by
      obtain ⟨i, -, rfl⟩ := mem_map.mp hreq
      exact sound_squatter i)
    (fun sessionId => (Nat.zero_add _).trans_le (countP_squatters hcount sessionId))
  have hnone := hopen sampleExecutor.sessionId
  rw [countP_squatters_own hcount] at hnone
  rw [mintLoop_exhausts sampleExecutor sampleCall count 0 fun i hi => ?_]
  have hknown : log.Knows (squatter i).callId := hall _ (mem_map.mpr ⟨i, mem_range.mpr hi, rfl⟩)
  rw [UInt64.zero_add]
  exact begin_of_known held ⟨validCallId_toHex _, rfl, rfl, rfl, rfl, rfl⟩
    (hnone.trans_lt (by decide)) hknown

/-- On a store in which only other sessions have opened rows, the first dispatch of the session
`own` is refused because no id is free. -/
theorem mint_exhausted_by_others : (sampleExecutor.beginGuarded sampleCall (Session.serveAll
      ((squatters maxCallIdMintAttempts).map .begin) ContentStore.openInMemory).2).1 =
      .error (mintExhausted sampleCall.tool) :=
  mintLoop_of_squatters (Nat.le_refl _)

end BittyAi.Slice
