/-
BittyAi.Runtime.ReconcileTheorems — uncertain effects over the life of an agent.

`Kept` says that the agent still holds each `Outstanding` id, with the two bounds and the
distinctness of the pending ids. Every stretch of a turn and every host call keeps it.
-/
import BittyAi.Runtime.Reconcile
import BittyAi.Runtime.TurnTheorems

namespace BittyAi.Runtime

open Lib Lib.Exiting List

variable {E : Type}

/-! ## Outstanding effects -/

/-- `id` was recorded as uncertain and has not been settled since. -/
def Outstanding (trace : List (Entry E)) (id : ExecutionId) : Prop :=
  ∃ earlier e later record, trace = earlier ++ e :: later ∧ e.event = .attributed record ∧
    record.executionId = id ∧ record.status.isAckLoss = true ∧
    ∀ x ∈ later, x.event ≠ .settled id

def Agent.Holds (agent : Agent E) (id : ExecutionId) : Prop :=
  ∃ record ∈ agent.executions ++ agent.pendingUnknown,
    record.executionId = id ∧ record.status.isAckLoss = true

structure Kept (w : World E) : Prop where
  held : ∀ id, Outstanding w.trace id → w.agent.Holds id
  uncertain : ∀ record ∈ w.agent.pendingUnknown, record.status.isAckLoss = true
  distinct : (w.agent.pendingUnknown.map (·.executionId)).Nodup
  executions : w.agent.executions.length ≤ maxExecutionsPerAgent
  pending : w.agent.pendingUnknown.length ≤ maxExecutionsPerAgent

variable {id : ExecutionId}

theorem outstanding_append {es more : List (Entry E)} (h : Outstanding (es ++ more) id) :
    (Outstanding es id ∧ ∀ x ∈ more, x.event ≠ .settled id) ∨ Outstanding more id := by
  obtain ⟨earlier, e, later, record, hsplit, hevent, hid, hstatus, hunsettled⟩ := h
  rcases append_eq_append_iff.mp hsplit with ⟨gap, rfl, rfl⟩ | ⟨gap, rfl, hgap⟩
  · exact .inr ⟨gap, e, later, record, rfl, hevent, hid, hstatus, hunsettled⟩
  · cases gap with
    | nil => exact .inr ⟨[], e, later, record, hgap.symm, hevent, hid, hstatus, hunsettled⟩
    | cons x gap =>
      rw [cons_append] at hgap
      obtain ⟨rfl, rfl⟩ := cons_eq_cons.mp hgap
      refine .inl ⟨⟨earlier, e, gap, record, rfl, hevent, hid, hstatus, ?_⟩, ?_⟩
      · exact fun y hy => hunsettled y (mem_append_left _ hy)
      · exact fun y hy => hunsettled y (mem_append_right _ hy)

theorem outstanding_singleton {e : Entry E} (h : Outstanding [e] id) :
    ∃ record, e.event = .attributed record ∧ record.executionId = id ∧
      record.status.isAckLoss = true := by
  obtain ⟨earlier, e', later, record, hsplit, hevent, hid, hstatus, -⟩ := h
  have hmem : e' ∈ [e] := hsplit ▸ mem_append_right _ mem_cons_self
  obtain rfl := mem_singleton.mp hmem
  exact ⟨record, hevent, hid, hstatus⟩

def Event.Unrecorded (event : Event) : Prop :=
  (∀ record, event ≠ .attributed record) ∧ ∀ id, event ≠ .settled id

theorem not_outstanding_unrecorded {es : List (Entry E)}
    (hquiet : ∀ e ∈ es, e.event.Unrecorded) : ¬ Outstanding es id := by
  rintro ⟨earlier, e, later, record, rfl, hevent, -⟩
  exact (hquiet e (by simp)).1 record hevent

/-! ## What keeps the records -/

variable {w w' : World E}

theorem Kept.frame (h : Kept w) {more : List (Entry E)}
    (htrace : w'.trace = w.trace ++ more) (hquiet : ∀ e ∈ more, e.event.Unrecorded)
    (hexecutions : w'.agent.executions = w.agent.executions)
    (hpending : w'.agent.pendingUnknown = w.agent.pendingUnknown) : Kept w' where
  held := by
    intro id hout
    rw [htrace] at hout
    rcases outstanding_append hout with ⟨hout, -⟩ | hout
    · rw [Agent.Holds, hexecutions, hpending]
      exact h.held id hout
    · exact absurd hout (not_outstanding_unrecorded hquiet)
  uncertain := by rw [hpending]; exact h.uncertain
  distinct := by rw [hpending]; exact h.distinct
  executions := by rw [hexecutions]; exact h.executions
  pending := by rw [hpending]; exact h.pending

theorem Kept.same (h : Kept w) (htrace : w'.trace = w.trace)
    (hexecutions : w'.agent.executions = w.agent.executions)
    (hpending : w'.agent.pendingUnknown = w.agent.pendingUnknown) : Kept w' :=
  h.frame (by rw [htrace, append_nil]) (by simp) hexecutions hpending

theorem Kept.absorb (h : Kept w) {s : Shared E} {contacts : List Contact}
    (hlog : s.log = w.share.log ++ contacts) (hquiet : ∀ c ∈ contacts, c.event.Unrecorded) :
    Kept (w.absorb s) := by
  exact h.frame (Turn.absorb_trace hlog) (forall_mem_map.mpr hquiet) rfl rfl

theorem Kept.attribute (h : Kept w)
    (hroom : w.agent.executions.length < maxExecutionsPerAgent) (record : ExecutionRecord) :
    Kept (w.attribute record) where
  held := by
    intro id hout
    rcases outstanding_append hout with ⟨hout, -⟩ | hout
    · obtain ⟨r, hr, hfound⟩ := h.held id hout
      refine ⟨r, ?_, hfound⟩
      rcases mem_append.mp hr with hr | hr
      · exact mem_append_left _ (mem_append_left _ hr)
      · exact mem_append_right _ hr
    · obtain ⟨r, hevent, hfound⟩ := outstanding_singleton hout
      cases hevent
      exact ⟨record, by simp [World.attribute, World.note], hfound⟩
  uncertain := h.uncertain
  distinct := h.distinct
  executions := by
    show (w.agent.executions ++ [record]).length ≤ maxExecutionsPerAgent
    rw [length_append, length_singleton]
    omega
  pending := h.pending

theorem Kept.settle (h : Kept w) {e : Entry E}
    (htrace : w'.trace = w.trace ++ [e]) (hevent : e.event = .settled id)
    (hexecutions : ∀ r ∈ w.agent.executions, r.isOf id = false → r ∈ w'.agent.executions)
    (hlength : w'.agent.executions.length ≤ w.agent.executions.length)
    (hpending : ∀ r ∈ w.agent.pendingUnknown, r.isOf id = false → r ∈ w'.agent.pendingUnknown)
    (hsublist : w'.agent.pendingUnknown.Sublist w.agent.pendingUnknown) : Kept w' where
  held := by
    intro id' hout
    rw [htrace] at hout
    rcases outstanding_append hout with ⟨hout, hunsettled⟩ | hout
    · obtain ⟨r, hr, rfl, hstatus⟩ := h.held id' hout
      have hother : r.isOf id = false := by
        have hne := hunsettled e (mem_singleton.mpr rfl)
        rw [hevent] at hne
        exact decide_eq_false fun heq => hne (by rw [heq])
      refine ⟨r, ?_, rfl, hstatus⟩
      rcases mem_append.mp hr with hr | hr
      · exact mem_append_left _ (hexecutions r hr hother)
      · exact mem_append_right _ (hpending r hr hother)
    · obtain ⟨r, hattributed, -⟩ := outstanding_singleton hout
      rw [hevent] at hattributed
      cases hattributed
  uncertain := fun r hr => h.uncertain r (hsublist.subset hr)
  distinct := h.distinct.sublist (hsublist.map _)
  executions := hlength.trans h.executions
  pending := hsublist.length_le.trans h.pending

/-! ## The carry -/

variable {record : ExecutionRecord}

namespace Turn

theorem refreshPending_ids (record : ExecutionRecord) (pending : List ExecutionRecord) :
    (refreshPending record pending).map (·.executionId) = pending.map (·.executionId) := by
  induction pending with
  | nil => rfl
  | cons p rest ih =>
    rw [refreshPending]
    split
    · rfl
    · simp [ih]

theorem refreshPending_uncertain {pending : List ExecutionRecord}
    (hrecord : record.status.isAckLoss = true)
    (hpending : ∀ r ∈ pending, r.status.isAckLoss = true) :
    ∀ r ∈ refreshPending record pending, r.status.isAckLoss = true := by
  induction pending with
  | nil => simp [refreshPending]
  | cons p rest ih =>
    obtain ⟨hp, hrest⟩ := forall_mem_cons.mp hpending
    rw [refreshPending]
    split
    · exact forall_mem_cons.mpr ⟨hrecord, hrest⟩
    · exact forall_mem_cons.mpr ⟨hp, ih hrest⟩

structure Pending (pending : List ExecutionRecord) (ids : List ExecutionId) : Prop where
  uncertain : ∀ record ∈ pending, record.status.isAckLoss = true
  distinct : (pending.map (·.executionId)).Nodup
  covers : ∀ id ∈ ids, id ∈ pending.map (·.executionId)

theorem Pending.carryInto {pending : List ExecutionRecord} {ids : List ExecutionId}
    (h : Pending pending ids)
    (hrecord : record.status.isAckLoss = true) :
    Pending (carryInto pending record) (ids ++ [record.executionId]) := by
  unfold Turn.carryInto
  split
  next hknown =>
    refine ⟨refreshPending_uncertain hrecord h.uncertain, ?_, ?_⟩
    · rw [refreshPending_ids]
      exact h.distinct
    · rw [refreshPending_ids]
      exact forall_mem_append.mpr ⟨h.covers, forall_mem_singleton.mpr hknown⟩
  next hnew =>
    refine ⟨?_, ?_, ?_⟩
    · exact forall_mem_append.mpr ⟨h.uncertain, forall_mem_singleton.mpr hrecord⟩
    · rw [map_append, map_singleton, ← concat_eq_append]
      exact List.Nodup.concat hnew h.distinct
    · intro id hid
      rw [map_append, map_singleton]
      rcases mem_append.mp hid with hid | hid
      · exact mem_append_left _ (h.covers id hid)
      · exact mem_append_right _ hid

theorem Pending.carry {records : List ExecutionRecord}
    (hrecords : ∀ record ∈ records, record.status.isAckLoss = true) :
    ∀ {pending : List ExecutionRecord} {ids : List ExecutionId}, Pending pending ids →
      Pending (records.foldl Turn.carryInto pending) (ids ++ records.map (·.executionId)) := by
  induction records with
  | nil => exact fun h => by simpa using h
  | cons record rest ih =>
    intro pending ids h
    obtain ⟨hrecord, hrest⟩ := forall_mem_cons.mp hrecords
    rw [foldl_cons, map_cons, append_cons]
    exact ih hrest (h.carryInto hrecord)

end Turn

variable {done rest : List ExecutionRecord} {reconciler : UnknownReconciler E}

theorem Kept.carried (h : Kept w)
    (hsplit : w.agent.executions.filter (·.status.isAckLoss) = done ++ rest) :
    Turn.Pending (Turn.carried w.agent done).pendingUnknown
      (w.agent.pendingUnknown.map (·.executionId) ++ done.map (·.executionId)) := by
  refine Turn.Pending.carry ?_ ⟨h.uncertain, h.distinct, fun _ hid => hid⟩
  intro record hrecord
  have hmem : record ∈ w.agent.executions.filter (·.status.isAckLoss) :=
    hsplit ▸ mem_append_left _ hrecord
  exact (mem_filter.mp hmem).2

theorem holds_of_pending {agent : Agent E} {ids : List ExecutionId}
    (h : Turn.Pending agent.pendingUnknown ids) (hid : id ∈ ids) : agent.Holds id := by
  obtain ⟨record, hrecord, rfl⟩ := mem_map.mp (h.covers id hid)
  exact ⟨record, mem_append_right _ hrecord, rfl, h.uncertain record hrecord⟩

theorem Kept.unprepared (h : Kept w)
    (hsplit : w.agent.executions.filter (·.status.isAckLoss) = done ++ rest)
    (hlength : (Turn.carried w.agent done).pendingUnknown.length ≤
      max w.agent.pendingUnknown.length maxExecutionsPerAgent)
    (htrace : w'.trace = w.trace) (hexecutions : w'.agent.executions = w.agent.executions)
    (hpending : w'.agent.pendingUnknown = (Turn.carried w.agent done).pendingUnknown) :
    Kept w' := by
  have hcarried := h.carried hsplit
  rw [← hpending] at hcarried hlength
  refine ⟨?_, hcarried.uncertain, hcarried.distinct, hexecutions ▸ h.executions, ?_⟩
  · intro id hout
    obtain ⟨record, hrecord, hfound⟩ := h.held id (htrace ▸ hout)
    rcases mem_append.mp hrecord with hrecord | hrecord
    · exact ⟨record, mem_append_left _ (hexecutions ▸ hrecord), hfound⟩
    · refine holds_of_pending hcarried (mem_append_left _ ?_)
      exact mem_map.mpr ⟨record, hrecord, hfound.1⟩
  · have := h.pending
    omega

theorem Kept.opened (h : Kept w) {assembled : AssembledContext} {artifacts : ArtifactStore}
    (hlength : (Turn.opened w.agent assembled artifacts).pendingUnknown.length ≤
      max w.agent.pendingUnknown.length maxExecutionsPerAgent) :
    Kept { w with agent := Turn.opened w.agent assembled artifacts } := by
  have hcarried : Turn.Pending (Turn.opened w.agent assembled artifacts).pendingUnknown _ :=
    h.carried (append_nil _).symm
  refine ⟨?_, hcarried.uncertain, hcarried.distinct, Nat.zero_le _, ?_⟩
  · intro id hout
    obtain ⟨record, hrecord, hid, hstatus⟩ := h.held id hout
    refine holds_of_pending hcarried ?_
    rcases mem_append.mp hrecord with hrecord | hrecord
    · refine mem_append_right _ (mem_map.mpr ⟨record, ?_, hid⟩)
      exact mem_filter.mpr ⟨hrecord, hstatus⟩
    · exact mem_append_left _ (mem_map.mpr ⟨record, hrecord, hid⟩)
  · show (Turn.opened w.agent assembled artifacts).pendingUnknown.length ≤ maxExecutionsPerAgent
    have := h.pending
    omega

/-! ## A turn -/

namespace Turn

theorem Quiet.unrecorded {event : Event} (h : Quiet event) : event.Unrecorded := by
  constructor <;> rintro _ rfl <;> exact h

theorem inert_kept : Inert (Kept : World E → Prop) where
  quiet h htrace hquiet hexecutions hpending :=
    h.frame htrace (fun e he => (hquiet e he).unrecorded) hexecutions hpending
  attributed h hroom := h.attribute hroom _

theorem dispatchCall_kept {args : TurnArgs E} {messages : List Message} {call : ToolCall}
    (h : Kept w) :
    wp (dispatchCall args messages call) (fun _ => Kept) (fun _ => Kept) w := by
  refine inert_kept.dispatchCall h fun hlog hevents => h.absorb hlog fun c hc => ?_
  rcases hevents c hc with hgate | ⟨ctx, answer, hevent⟩
  · exact (quiet_of_isGate hgate).unrecorded
  · simp [Event.Unrecorded, hevent]

theorem body_kept (args : TurnArgs E) (h : Kept w) :
    wp (body args) (fun _ _ => False) (fun _ => Kept) w := by
  refine wp_body ?_ ?_ ?_ ?_
  · exact fun _ => h
  · exact fun _ _ => h
  · exact fun error advisory artifacts done rest _ _ hsplit hlength =>
      h.unprepared hsplit hlength rfl rfl rfl
  · intro assembled artifacts _ _ hlength
    exact inert_kept.rounds (fun _ _ h => h) (fun call messages w h => dispatchCall_kept h) _ _
      (h.opened hlength)

end Turn

/-! ## Reconciliation -/

theorem mem_setStatus_of_not {p : ExecutionRecord → Bool} {status : ToolStatus}
    (hp : p record = false) {records : List ExecutionRecord}
    (h : record ∈ records) : record ∈ setStatus p status records := by
  induction records with
  | nil => cases h
  | cons r rest ih =>
    rw [setStatus]
    split
    next hr =>
      rcases mem_cons.mp h with rfl | h
      · rw [hp] at hr
        cases hr
      · exact mem_cons_of_mem _ h
    next =>
      rcases mem_cons.mp h with rfl | h
      · exact mem_cons_self
      · exact mem_cons_of_mem _ (ih h)

theorem setStatus_length (p : ExecutionRecord → Bool) (status : ToolStatus)
    (records : List ExecutionRecord) : (setStatus p status records).length = records.length := by
  induction records with
  | nil => rfl
  | cons r rest ih =>
    rw [setStatus]
    split
    · rfl
    · simp [ih]

theorem reconcileQueries_contacts {tool : String}
    {nowMs base ceiling : Nat} : ∀ (left attempt : Nat) (delaysMs : List Nat)
      (lastReason : String) (s : Shared E), ∃ contacts : List Contact,
      (reconcileQueries reconciler tool id nowMs base ceiling left attempt delaysMs lastReason
        s).2.log = s.log ++ contacts ∧ ∀ c ∈ contacts, c.event.Unrecorded := by
  intro left
  induction left with
  | zero =>
    intro attempt delaysMs lastReason s
    exact ⟨[], by simp [reconcileQueries], by simp⟩
  | succ left ih =>
    intro attempt delaysMs lastReason s
    -- one question in front of the rest of the loop
    have hask : ∀ {s₁ s₂ : Shared E} {answer : ReconcileStatus},
        s.ask reconciler (tool, id, nowMs) (.reconcile tool id nowMs) = (answer, s₁) →
        (∃ contacts : List Contact, s₂.log = s₁.log ++ contacts ∧
          ∀ c ∈ contacts, c.event.Unrecorded) →
        ∃ contacts : List Contact, s₂.log = s.log ++ contacts ∧
          ∀ c ∈ contacts, c.event.Unrecorded := by
      rintro s₁ s₂ answer hask ⟨contacts, hlog, hquiet⟩
      rw [Shared.ask_log hask, append_assoc] at hlog
      refine ⟨_, hlog, forall_mem_append.mpr ⟨forall_mem_singleton.mpr ?_, hquiet⟩⟩
      simp [Event.Unrecorded]
    rw [reconcileQueries]
    dsimp only
    split
    next reason s₁ hpending => exact hask hpending (ih _ _ _ s₁)
    next status s₁ hresolved =>
      split
      · exact hask hresolved ⟨[], (append_nil _).symm, by simp⟩
      · exact hask hresolved (ih _ _ _ s₁)

theorem query_kept (h : Kept w)
    {tool reason : String} {nowMs : Nat} {result : QueryResult}
    (hquery : w.query reconciler tool id nowMs reason = (result, w')) :
    Kept w' := by
  unfold World.query at hquery
  cases hquery
  obtain ⟨contacts, hlog, hquiet⟩ := reconcileQueries_contacts _ 0 [] _ w.share
  exact h.absorb hlog hquiet

theorem reconcilePendingAt_kept (h : Kept w) (reconciler : UnknownReconciler E)
    (record : ExecutionRecord) (nowMs : Nat) :
    Kept (reconcilePendingAt reconciler record nowMs w).2 := by
  unfold reconcilePendingAt
  split
  next reason _ =>
    split
    next status attempts delaysMs w' hquery =>
      refine (query_kept h hquery).settle rfl rfl ?_ ?_ ?_ ?_
      · exact fun r hr hother => mem_setStatus_of_not hother hr
      · exact Nat.le_of_eq (setStatus_length _ _ _)
      · exact fun r hr hother => (mem_eraseP_of_neg (by simp [hother])).mpr hr
      · exact eraseP_sublist
    next lastReason delaysMs w' hquery => exact (query_kept h hquery).same rfl rfl rfl
  next => exact h

theorem reconcileExecutions_kept (h : Kept w) (reconciler : UnknownReconciler E)
    (id : ExecutionId) (nowMs : Nat) : Kept (reconcileExecutions reconciler id nowMs w).2 := by
  unfold reconcileExecutions
  split
  next record _ =>
    unfold reconcileExecutionsAt
    split
    next reason _ =>
      split
      next status attempts delaysMs w' hquery =>
        refine (query_kept h hquery).settle rfl rfl ?_ ?_ ?_ ?_
        · exact fun r hr hother => mem_setStatus_of_not (by simp [hother]) hr
        · exact Nat.le_of_eq (setStatus_length _ _ _)
        · exact fun r hr hother => mem_filter.mpr ⟨hr, by simp [hother]⟩
        · exact filter_sublist
      next lastReason delaysMs w' hquery => exact (query_kept h hquery).same rfl rfl rfl
    next => exact h
  next => exact h

theorem reconcileUnknown_kept (h : Kept w) (reconciler : UnknownReconciler E)
    (id : ExecutionId) (nowMs : Nat) : Kept (reconcileUnknown reconciler id nowMs w).2 := by
  unfold reconcileUnknown
  split
  next record _ =>
    have hpending := reconcilePendingAt_kept h reconciler record nowMs
    split
    next w' heq =>
      rw [heq] at hpending
      exact reconcileExecutions_kept hpending reconciler id nowMs
    next => exact hpending
  next => exact reconcileExecutions_kept h reconciler id nowMs

theorem abandonPending_kept (h : Kept w) (id : ExecutionId) : Kept (abandonPending id w).2 := by
  unfold abandonPending
  dsimp only
  split
  next =>
    refine h.settle rfl rfl (fun r hr _ => hr) (Nat.le_refl _) ?_ ?_
    · exact fun r hr hother => mem_filter.mpr ⟨hr, by simp [hother]⟩
    · exact filter_sublist
  next hall =>
    -- nothing was removed: the filter kept every record
    have hsame : (w.agent.pendingUnknown.filter fun r => !r.isOf id) = w.agent.pendingUnknown :=
      filter_sublist.eq_of_length (not_not.mp hall)
    exact h.same rfl rfl hsame

/-! ## Every run -/

theorem AgentCall.run_kept (h : Kept w) (call : AgentCall E) : Kept (call.run w) := by
  cases call with
  | runTurn args => exact runTurn_of_wp (Turn.body_kept args h)
  | reconcileUnknown reconciler id nowMs => exact reconcileUnknown_kept h reconciler id nowMs
  | abandonPending id => exact abandonPending_kept h id
  | setPrompt | setAllowedTools | host => exact h.same rfl rfl rfl

theorem runCalls_kept (calls : List (AgentCall E)) :
    ∀ {w : World E}, Kept w → Kept (runCalls calls w) := by
  induction calls with
  | nil => exact fun h => h
  | cons call rest ih => exact fun h => ih (call.run_kept h)

/-- Over every sequence of host calls on a new agent, each id that was recorded as uncertain and
not settled since is still recorded as uncertain; the pending ids are distinct and both lists
bounded. -/
theorem uncertain_effects_kept
    (provider : Hook E TurnRequest (Except ProviderError ProviderTurn)) (tools : ToolBus E)
    (session : AgentSession) (config : AgentConfig) (env : E) (lastId : Nat)
    (calls : List (AgentCall E)) :
    Kept (runCalls calls (.new provider tools session config env lastId)) := by
  refine runCalls_kept calls ⟨?_, ?_, ?_, ?_, ?_⟩
  · rintro id ⟨earlier, e, later, record, hsplit, -⟩
    simp [World.new] at hsplit
  · exact fun record hrecord => by cases hrecord
  · exact nodup_nil
  · exact Nat.zero_le _
  · exact Nat.zero_le _

end BittyAi.Runtime
