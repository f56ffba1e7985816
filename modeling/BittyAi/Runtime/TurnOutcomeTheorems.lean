/-
BittyAi.Runtime.TurnOutcomeTheorems — how the outcome of a turn and the state of its session
fit together.

The loop checks for a cancellation at some of its exits only. A callback that cancels the
session and then makes the loop leave through another exit ends the turn as `Failed` on a
cancelled session. `Entry.Calm` says of one callback that it does not do so.
-/
import BittyAi.Runtime.TurnTheorems

namespace BittyAi.Runtime

open Lib Lib.Exiting ToolBus AgentSession List

variable {E : Type}

def ExecOutcome.Agrees (outcome : ExecOutcome) (state : SessionState) : Prop :=
  match outcome with
  | .completed _ => state = .completed
  | .canceled _ _ => state = .canceled
  | .failed (.costCeilingExceeded _ _) => state = .active
  | .failed _ => state = .failed
  | .unknown _ _ => state = .active ∨ state = .canceled

theorem ExecOutcome.agrees_failed {error : AgentError} {state : SessionState}
    (herror : ∀ limit actual, error ≠ .costCeilingExceeded limit actual) :
    (ExecOutcome.failed error).Agrees state ↔ state = .failed := by
  cases error <;> first | exact Iff.rfl | exact absurd rfl (herror _ _)

def Entry.Calm (e : Entry E) : Prop :=
  e.after.isCancelled = true →
    match e.event with
    | .complete _ (.error error) => ∃ provider reason, error = .unknown provider reason
    | .complete request (.ok turn) =>
      (∀ limit, e.agent.config.maxTurnCost = some limit →
        Turn.chargedCost e.agent request turn ≤ limit) ∧
      (turn.text.isEmpty = true ∨ Turn.Fits e.agent (fragmentText .markdown turn.text))
    | .emit _ answer => answer = .ok ()
    | .execute call ctx answer =>
      ToolBus.Reported answer ∧ ∀ execution,
        executionOf ctx.executionId call answer = .ok execution →
        Turn.Storable e.agent execution.data ∧
          Turn.Fits e.agent (fragmentText .toolCard execution.card)
    | _ => True

structure Agent.Friendly (agent : Agent E) : Prop where
  provider : agent.provider.NeverFinishes
  authorizer : ∀ a ∈ agent.tools.authorizer, a.KeepsState
  consent : ∀ l ∈ agent.tools.consent, l.KeepsState

/-! ## The state after a callback -/

/-- The trace since `start`, calm but for what `cond` decides about the last
callback. -/
structure Weighed (start : World E) (cond : Prop) (w : World E) : Prop where
  grown : start.trace.length ≤ w.trace.length
  friendly : w.agent.Friendly
  executions : w.agent.executions.length ≤ w.agent.tools.callsThisTurn
  calls : w.agent.tools.callsThisTurn ≤ maxToolCallsPerTurn
  unfinished : w.session.Unfinished
  calm : (∀ e ∈ w.since start, e.Calm) ↔ (w.session.isCancelled = true → cond)

structure Running (start : World E) (w : World E) : Prop where
  weighed : Weighed start True w
  active : w.session.state = .active

def Verdict (start : World E) (outcome : ExecOutcome) (w : World E) : Prop :=
  (∀ e ∈ w.since start, e.Calm) ↔ outcome.Agrees w.session.state

variable {start w w' : World E} {more : List (Entry E)}

theorem calm_append (hgrown : start.trace.length ≤ w.trace.length)
    (htrace : w'.trace = w.trace ++ more) (hmore : ∀ e ∈ more, e.Calm) :
    (∀ e ∈ w'.since start, e.Calm) ↔ ∀ e ∈ w.since start, e.Calm := by
  rw [World.forall_since hgrown htrace]
  exact and_iff_left hmore

theorem Running.cancelled (h : Running start w) : w.session.isCancelled = false := by
  simp [isCancelled, h.active]

theorem Running.weigh (h : Running start w) (cond : Prop) : Weighed start cond w where
  grown := h.weighed.grown
  friendly := h.weighed.friendly
  executions := h.weighed.executions
  calls := h.weighed.calls
  unfinished := h.weighed.unfinished
  calm := by
    rw [h.weighed.calm, h.cancelled]
    simp

variable {cond : Prop}

theorem Weighed.running (h : Weighed start cond w)
    (hrunning : w.session.isCancelled = false) : Running start w where
  weighed :=
    { h with
      calm := by
        rw [h.calm, hrunning]
        simp }
  active := h.unfinished.active hrunning

theorem Weighed.congr {cond' : Prop} (h : Weighed start cond w)
    (hcond : cond ↔ cond') : Weighed start cond' w :=
  { h with calm := by rw [h.calm, hcond] }

theorem Weighed.grow (h : Weighed start cond w) (htrace : w'.trace = w.trace ++ more)
    (hmore : ∀ e ∈ more, e.Calm)
    (hsession : w'.session = w.session) (hfriendly : w'.agent.Friendly)
    (hexecutions : w'.agent.executions.length ≤ w'.agent.tools.callsThisTurn)
    (hcalls : w'.agent.tools.callsThisTurn ≤ maxToolCallsPerTurn) : Weighed start cond w' where
  grown := World.grown_append h.grown htrace
  friendly := hfriendly
  executions := hexecutions
  calls := hcalls
  unfinished := hsession ▸ h.unfinished
  calm := by rw [calm_append h.grown htrace hmore, h.calm, hsession]

theorem Running.asked (h : Running start w) {e : Entry E}
    (htrace : w'.trace = w.trace ++ more ++ [e])
    (hmore : ∀ x ∈ more, x.Calm) (hcalm : e.Calm ↔ (w'.session.isCancelled = true → cond))
    (hunfinished : w'.session.Unfinished) (hfriendly : w'.agent.Friendly)
    (hexecutions : w'.agent.executions.length ≤ w'.agent.tools.callsThisTurn)
    (hcalls : w'.agent.tools.callsThisTurn ≤ maxToolCallsPerTurn) : Weighed start cond w' where
  grown := by
    rw [htrace, length_append, length_append]
    exact Nat.le_add_right_of_le (Nat.le_add_right_of_le h.weighed.grown)
  friendly := hfriendly
  executions := hexecutions
  calls := hcalls
  unfinished := hunfinished
  calm := by
    have hbefore : ∀ x ∈ w.since start, x.Calm := h.weighed.calm.mpr fun _ => trivial
    rw [append_assoc] at htrace
    rw [World.forall_since h.weighed.grown htrace,
      forall_mem_append, ← hcalm, forall_mem_singleton]
    exact ⟨fun hall => hall.2.2, fun hlast => ⟨hbefore, hmore, hlast⟩⟩

/-! ## Exits -/

theorem Verdict.grow {outcome : ExecOutcome} (h : Verdict start outcome w)
    (hgrown : start.trace.length ≤ w.trace.length)
    (htrace : w'.trace = w.trace ++ more) (hmore : ∀ e ∈ more, e.Calm)
    (hsession : w'.session = w.session) : Verdict start outcome w' := by
  rw [Verdict, calm_append hgrown htrace hmore, hsession]
  exact h

theorem Weighed.fails (h : Weighed start cond w) (hcond : ¬ cond) {error : AgentError}
    (herror : ∀ limit actual, error ≠ .costCeilingExceeded limit actual) :
    Verdict start (.failed error) { w with session := w.session.finish true } := by
  show (∀ e ∈ w.since start, e.Calm) ↔ _
  rw [ExecOutcome.agrees_failed herror, h.calm]
  rcases h.unfinished with hactive | hcanceled
  · have hrunning : w.session.isCancelled = false := by
      simp [isCancelled, hactive]
    simp [finish_state_of_active hactive, hrunning]
  · have hcancelled : w.session.isCancelled = true := isCancelled_iff.mpr hcanceled
    simp [finish_of_terminal, hcanceled, hcancelled, hcond]

theorem Weighed.blown (h : Weighed start cond w)
    (hcond : ¬ cond) (agent : Agent E) (limit actual : Nat) :
    Verdict start (.failed (.costCeilingExceeded limit actual)) { w with agent := agent } := by
  show (∀ e ∈ w.since start, e.Calm) ↔ w.session.state = .active
  rw [h.calm]
  rcases h.unfinished with hactive | hcanceled
  · simp [isCancelled, hactive]
  · simp [isCancelled, hcanceled, hcond]

theorem Weighed.stops (h : Weighed start cond w)
    (hcond : cond) (hcancelled : w.session.isCancelled = true)
    (executions : List ExecutionRecord) : Verdict start (Turn.cancelOutcome executions) w := by
  have hstate : w.session.state = .canceled := isCancelled_iff.mp hcancelled
  have hagrees : (Turn.cancelOutcome executions).Agrees w.session.state := by
    unfold Turn.cancelOutcome
    dsimp only
    split
    · exact .inr hstate
    · exact hstate
  exact ⟨fun _ => hagrees, fun _ => h.calm.mpr fun _ => hcond⟩

theorem Weighed.uncertain (h : Weighed start cond w)
    (hcond : cond) (reason : String) (dispatched : Nat) :
    Verdict start (.unknown reason dispatched) w :=
  ⟨fun _ => h.unfinished, fun _ => h.calm.mpr fun _ => hcond⟩

/-! ## Steps of the loop -/

theorem Entry.calm_of_isGate {e : Entry E} (h : e.event.IsGate) : e.Calm := by
  intro _
  cases he : e.event <;> simp_all [Event.IsGate]

variable {args : TurnArgs E} {messages : List Message}

namespace Turn

theorem calm_of_isEmitted {emitted : List Contact} (h : ∀ c ∈ emitted, Event.IsEmitted c.event) :
    ∀ e ∈ emitted.map fun c => (⟨c, w.agent⟩ : Entry E), e.Calm := by
  intro e he _
  obtain ⟨c, hc, rfl⟩ := mem_map.mp he
  have hemitted := h c hc
  cases hevent : c.event with
  | emit chunk answer =>
    rw [hevent] at hemitted
    cases answer with
    | ok _ => rfl
    | error _ => exact hemitted.elim
  | _ => simp_all [Event.IsEmitted]

theorem emitBatch_running {fragments : List Fragment}
    (hsink : args.sink.NeverFinishes) (h : Weighed start (Fits w.agent fragments) w) :
    wp (emitBatch args fragments) (fun _ => Running start) (Verdict start) w := by
  have hweigh : ∀ {s : Shared E} {emitted : List Contact}, s.log = w.share.log ++ emitted →
      (∀ c ∈ emitted, Event.IsEmitted c.event) → s.session.Unfinished →
      (w.session.isCancelled = true → Fits w.agent fragments) →
      Weighed start True (w.absorb s) := by
    intro s emitted log accepted unfinished hfits
    refine { h with grown := ?_, unfinished, calm := ?_ }
    · exact Nat.le_trans h.grown (by simp [World.absorb])
    · rw [calm_append h.grown (absorb_trace log) (calm_of_isEmitted accepted), h.calm]
      simpa using hfits
  refine wp_emitBatch ?_ ?_ ?_ ?_
  · exact fun e hfull => h.fails hfull (by simp)
  · intro s hfits hcase
    cases hcase with
    | stopped log accepted unfinished cancelled =>
      have hweighed := hweigh log accepted (unfinished hsink h.unfinished) fun _ => hfits
      exact hweighed.stops trivial cancelled _
  · intro s e hrunning hcase
    cases hcase with
    | refused log accepted unfinished event after =>
      have htrace := absorb_trace (by rw [append_assoc] at log; exact log)
      rw [map_append, map_singleton, ← append_assoc] at htrace
      have hweighed : Weighed start False (w.absorb s) :=
        (h.running hrunning).asked htrace (calm_of_isEmitted accepted)
          (by simp [Entry.Calm, event, after, World.absorb]) (unfinished hsink h.unfinished)
          h.friendly h.executions h.calls
      exact hweighed.fails not_false (by simp)
  · intro s next hrunning hcase
    cases hcase with
    | done log accepted unfinished running =>
      have hweighed := hweigh log accepted (unfinished hsink h.unfinished) (by simp [hrunning])
      have hfriendly := h.friendly
      exact ⟨{ hweighed with friendly := ⟨hfriendly.1, hfriendly.2, hfriendly.3⟩ },
        hweighed.unfinished.active running⟩

theorem askProvider_running {contextRefs : List String} (h : Running start w) :
    wp (askProvider args messages contextRefs)
      (fun turn w' => Weighed start
        (turn.text.isEmpty = true ∨ Fits w'.agent (fragmentText .markdown turn.text)) w')
      (Verdict start) w := by
  have hfriendly := h.weighed.friendly
  have hweigh : ∀ {request answer s cond},
      w.share.ask w.agent.provider request (.complete request) = (answer, s) →
      ((⟨⟨.complete request answer, w.session, s.session⟩, w.agent⟩ : Entry E).Calm ↔
        (s.session.isCancelled = true → cond)) →
      Weighed start cond (w.absorb s) := by
    intro request answer s cond hask hcalm
    have htrace := absorb_trace (Shared.ask_log hask)
    rw [map_singleton, ← append_nil w.trace] at htrace
    exact h.asked htrace (by simp) hcalm
      (Shared.ask_neverFinishes hfriendly.provider hask h.weighed.unfinished) hfriendly
      h.weighed.executions h.weighed.calls
  refine wp_askProvider rfl ?_ ?_ ?_ ?_
  · intro provider reason s hask
    have hweighed : Weighed start True (w.absorb s) := hweigh hask (by simp [Entry.Calm])
    simp only [providerUnknown, wp_bind, wp_executionsGate, wp_issueExecution, wp_pushRecord,
      wp_unknown]
    -- the eight calls of a turn never fill the thirty-two records
    have hroom : ¬ (w.absorb s).agent.executions.length ≥ maxExecutionsPerAgent := by
      have hexecutions := hweighed.executions
      have hcalls := hweighed.calls
      unfold maxToolCallsPerTurn at hcalls
      unfold maxExecutionsPerAgent
      omega
    rw [if_neg hroom]
    exact (hweighed.uncertain trivial _ _).grow hweighed.grown rfl (by simp [Entry.Calm]) rfl
  · intro e s hask hknown
    have hnot : ¬ ∃ provider reason, e = .unknown provider reason := by
      rintro ⟨provider, reason, rfl⟩
      exact hknown provider reason rfl
    have hweighed : Weighed start False (w.absorb s) :=
      hweigh hask (imp_congr_right fun _ => iff_of_false hnot not_false)
    exact hweighed.fails not_false (by simp)
  · intro turn s limit hask hlimit hblown
    have hweighed : Weighed start False (w.absorb s) := by
      refine hweigh hask (imp_congr_right fun _ => iff_of_false ?_ not_false)
      exact fun hcalm => absurd (hcalm.1 limit hlimit) (Nat.not_le.mpr hblown)
    exact hweighed.blown not_false _ limit _
  · intro turn s hask hpaid
    have hweighed : Weighed start
        (turn.text.isEmpty = true ∨ Fits w.agent (fragmentText .markdown turn.text))
        (w.absorb s) :=
      hweigh hask (imp_congr_right fun _ => and_iff_right hpaid)
    exact { hweighed with friendly := ⟨hfriendly.1, hfriendly.2, hfriendly.3⟩ }

theorem deliver_running {turn : ProviderTurn} (hsink : args.sink.NeverFinishes) (h : Weighed start
      (turn.text.isEmpty = true ∨ Fits w.agent (fragmentText .markdown turn.text)) w) :
    wp (deliver args turn) (fun _ => Running start) (Verdict start) w := by
  refine wp_deliver _ ?_ (fun _ h' hc => h'.weighed.stops trivial hc _) ?_
  · unfold emitText
    split
    next hempty =>
      rw [wp_cancelGate]
      split
      next hc => exact h.stops (.inl hempty) hc _
      next hc => exact h.running (by simpa using hc)
    next hnonempty => exact emitBatch_running hsink (h.congr (or_iff_right hnonempty))
  · intro w' h'
    have hcompleted : (w'.session.finish false).state = .completed :=
      finish_state_of_active h'.active false
    exact ⟨fun _ => hcompleted, fun _ => h'.weighed.calm.mpr fun _ => trivial⟩

theorem consulted_running {s : Shared E} (h : Running start w)
    {s₀ : Shared E} (hsession : s₀.session = w.session) (hlog : s₀.log = [])
    (hconsulted : Consulted w.agent.tools s₀ s) : Running start (w.absorb s) := by
  obtain ⟨contacts, hcontacts, hgate⟩ := hconsulted.log
  have hfriendly := h.weighed.friendly
  have hactive : s.session.state = .active := by
    rw [hconsulted.state hfriendly.authorizer hfriendly.consent, hsession]
    exact h.active
  have hcalm : ∀ e ∈ contacts.map fun c => (⟨c, w.agent⟩ : Entry E), e.Calm :=
    forall_mem_map.mpr fun c hc => Entry.calm_of_isGate (hgate c hc)
  have htrace : (w.absorb s).trace = w.trace ++ contacts.map fun c => ⟨c, w.agent⟩ :=
    absorb_trace (by rw [hcontacts, hlog]; rfl)
  refine ⟨?_, hactive⟩
  exact
    { grown := Nat.le_trans h.weighed.grown (by simp [World.absorb])
      friendly := hfriendly
      executions := h.weighed.executions
      calls := h.weighed.calls
      unfinished := .inl hactive
      calm := by
        rw [calm_append h.weighed.grown htrace hcalm, h.weighed.calm]
        simp }

theorem admitBatch_running {calls : List ToolCall} (h : Running start w) :
    wp (admitBatch calls) (fun _ => Running start) (Verdict start) w := by
  refine wp_admitBatch ?_ ?_ ?_
  · intro tool cause
    have hweighed := h.weigh False
    simp only [refuseBatch, wp_bind, wp_executionsGate, wp_issueExecution, wp_pushRecord, wp_fail]
    split
    · exact hweighed.fails not_false (by simp)
    · exact (hweighed.fails not_false (by simp)).grow hweighed.grown rfl (by simp [Entry.Calm]) rfl
  · intro cause s hconsulted
    have hrunning := consulted_running h rfl rfl hconsulted
    exact (hrunning.weigh False).fails not_false (by simp)
  · exact fun s _ hconsulted _ => consulted_running h rfl rfl hconsulted

theorem contacted_weighed (h : Running start w) {call : ToolCall}
    {executor : ToolExecutor E} (hexecutor : executor.NeverFinishes) {id : ExecutionId}
    {nowMs : Nat} {s₀ s : Shared E} (hsession : s₀.session = w.session) (hlog : s₀.log = [])
    {answer : Except ToolError ToolSuccess}
    (hcontact : w.agent.tools.Contacted executor call w.session.authBase id nowMs s₀ s answer) :
    Weighed start
      (ToolBus.Reported answer ∧ ∀ execution, executionOf id call answer = .ok execution →
        Storable w.agent execution.data ∧ Fits w.agent (fragmentText .toolCard execution.card))
      { w.absorb s with
        agent := { w.agent with
          tools := w.agent.tools.afterContact call w.session.authBase id nowMs answer } } ∧
      w.agent.executions.length + 1 ≤
        (w.agent.tools.afterContact call w.session.authBase id nowMs answer).callsThisTurn := by
  obtain ⟨spec, authorizer, ledger, principal, s₁, s₂, -, hauth, hledger, -, hauthorize, hconsent,
    hexecute⟩ := hcontact.gates
  have hfriendly := h.weighed.friendly
  have hexecutions := h.weighed.executions
  have hroom := hcontact.room
  obtain ⟨hauthorizer, hconsenter⟩ :=
    @afterContact_hooks _ nowMs id answer w.agent.tools w.session.authBase call
  have hasked : s₂.session.state = .active := by
    rw [Shared.ask_keepsState (hfriendly.consent ledger hledger) hconsent,
      Shared.ask_keepsState (hfriendly.authorizer authorizer hauth) hauthorize, hsession]
    exact h.active
  have htrace : (w.absorb s).trace = w.trace ++
      [⟨⟨.authorize (authContext w.session.authBase call spec) .allow, s₀.session,
        s₁.session⟩, w.agent⟩, ⟨⟨.consent (consentQuery principal w.session.authBase call
        spec nowMs) .allow, s₁.session, s₂.session⟩, w.agent⟩] ++
      [⟨⟨.execute call ⟨id, nowMs⟩ answer, s₂.session, s.session⟩, w.agent⟩] := by
    rw [World.absorb, Shared.ask_log hexecute, Shared.ask_log hconsent,
      Shared.ask_log hauthorize, hlog]
    simp
  refine ⟨h.asked htrace (by simp [Entry.Calm]) Iff.rfl ?_ ⟨hfriendly.provider, ?_, ?_⟩ ?_ ?_, ?_⟩
  · exact Shared.ask_neverFinishes hexecutor hexecute (.inl hasked)
  · rw [hauthorizer]
    exact hfriendly.authorizer
  · rw [hconsenter]
    exact hfriendly.consent
  · simp only [afterContact_callsThisTurn]
    omega
  · simp only [afterContact_callsThisTurn]
    omega
  · rw [afterContact_callsThisTurn]
    omega

theorem recordOutcome_running {execution : ToolExecution} (hsink : args.sink.NeverFinishes)
    (h : Weighed start (Storable w.agent execution.data ∧
      Fits w.agent (fragmentText .toolCard execution.card)) w)
    (hroom : w.agent.executions.length + 1 ≤ w.agent.tools.callsThisTurn) :
    wp (recordOutcome args execution) (fun _ => Running start) (Verdict start) w := by
  have hfriendly := h.friendly
  have hpushed : Weighed start (Storable w.agent execution.data ∧
      Fits w.agent (fragmentText .toolCard execution.card)) (w.attribute execution.record) := by
    refine h.grow rfl (by simp [Entry.Calm]) rfl ⟨hfriendly.1, hfriendly.2, hfriendly.3⟩ ?_ h.calls
    simpa [World.attribute, World.note] using hroom
  refine wp_recordOutcome rfl (Running start) ?_ ?_ ?_ ?_ ?_
  · exact fun e hfull => hpushed.fails (fun hcond => hfull hcond.1) (by simp)
  · intro artifacts history advisory hstorable
    have hcard : Weighed start (Fits w.agent (fragmentText .toolCard execution.card))
        (w.attribute execution.record) := hpushed.congr (and_iff_right hstorable)
    exact emitBatch_running hsink { hcard with friendly := ⟨hfriendly.1, hfriendly.2, hfriendly.3⟩ }
  · intro reason w' _ h'
    rw [wp_unknown]
    exact h'.weighed.uncertain trivial _ _
  · exact fun reason w' _ h' => (h'.weigh False).fails not_false (by simp)
  · exact fun w' _ _ h' => h'

theorem dispatchCall_running {call : ToolCall} (hsink : args.sink.NeverFinishes)
    (hexecutor : args.executor.NeverFinishes) (h : Running start w) :
    wp (dispatchCall args messages call) (fun _ => Running start) (Verdict start) w := by
  have hmark : ∀ {record : ExecutionRecord} {session : AgentSession} {agent : Agent E},
      ∀ e ∈ [(⟨⟨.attributed record, session, session⟩, agent⟩ : Entry E)], e.Calm := by
    simp [Entry.Calm]
  refine wp_dispatchCall ?_ ?_ ?_
  · intro hc
    rw [h.cancelled] at hc
    cases hc
  · exact fun _ => (h.weigh False).fails not_false (by simp)
  · intro result bus s _ _ hcase
    cases hcase with
    | refusal consulted =>
      have hrunning := consulted_running h rfl rfl consulted
      refine wp_concludeDispatch ?_ ?_ ?_
      · exact fun e herror => by cases herror
      · exact fun execution cause _ _ =>
          ((hrunning.weigh False).fails not_false (by simp)).grow hrunning.weighed.grown rfl
            hmark rfl
      · intro execution hexecution hrefused
        cases hexecution
        exact absurd rfl (hrefused _)
    | @contact answer _ contacted =>
      obtain ⟨hweighed, hroom⟩ := contacted_weighed h hexecutor rfl rfl contacted
      refine wp_concludeDispatch ?_ ?_ ?_
      · intro e herror
        have hnot : ¬ ToolBus.Reported answer := by
          rw [reported_iff ⟨w.lastId + 1⟩ call, herror]
          simp
        exact (hweighed.fails (fun hcond => hnot hcond.1) (by simp)).grow hweighed.grown rfl hmark
          rfl
      · intro execution cause hexecution hstopped
        have hnot : ¬ ToolBus.Reported answer := by
          rw [reported_iff ⟨w.lastId + 1⟩ call, hexecution]
          rintro ⟨_, heq, haccepted⟩
          cases heq
          rcases hstopped with hrefused | hrejected
          · exact (executionOf_ok hexecution).2.2 cause hrefused
          · rw [haccepted] at hrejected
            cases hrejected
        exact (hweighed.fails (fun hcond => hnot hcond.1) (by simp)).grow hweighed.grown rfl hmark
          rfl
      · intro execution hexecution _ haccepted
        have hreported : ToolBus.Reported answer :=
          (reported_iff ⟨w.lastId + 1⟩ call).mpr ⟨execution, hexecution, haccepted⟩
        refine recordOutcome_running hsink (hweighed.congr ?_) hroom
        rw [hexecution]
        constructor
        · exact fun hcond => hcond.2 execution rfl
        · rintro hcond
          refine ⟨hreported, ?_⟩
          rintro _ ⟨⟩
          exact hcond

/-- The assertions of the proof: running between the stretches, and after the
provider's answer the text is left to decide. -/
def outcomePoints (start : World E) : Points E where
  head _ := Running start
  answered _ turn w := Weighed start
    (turn.text.isEmpty = true ∨ Fits w.agent (fragmentText .markdown turn.text)) w
  delivered _ _ := Running start
  batch _ _ := Running start
  ended := Verdict start

theorem rounds_verdict {contextRefs : List String} {left : Nat} (hsink : args.sink.NeverFinishes)
    (hexecutor : args.executor.NeverFinishes) (h : Running start w) :
    wp (rounds args contextRefs left messages) (fun _ _ => False) (Verdict start) w := by
  refine rounds_rule (outcomePoints start) ?_ ?_ ?_ ?_ ?_ ?_ ?_ left messages w h
  · intro left w h hc
    rw [h.cancelled] at hc
    cases hc
  · exact fun w h _ => (h.weigh False).fails not_false (by simp)
  · exact fun left messages w h _ => askProvider_running h
  · exact fun left turn w h => deliver_running hsink h
  · exact fun left turn w h => admitBatch_running h
  · exact fun left call rest messages w h => dispatchCall_running hsink hexecutor h
  · exact fun left w h => h

theorem body_verdict (hactive : w.session.state = .active)
    (hfriendly : w.agent.Friendly) (hexecutor : args.executor.NeverFinishes)
    (hsink : args.sink.NeverFinishes) :
    wp (body args) (fun _ _ => False) (Verdict w) w := by
  refine wp_body ?_ ?_ ?_ ?_
  · intro hcanceled
    rw [hactive] at hcanceled
    cases hcanceled
  · exact fun _ hterminated => absurd hactive hterminated
  · intro error advisory artifacts done rest _ herror _ _
    have hfailed : (w.session.finish true).state = .failed := finish_state_of_active hactive true
    refine ⟨fun _ => (ExecOutcome.agrees_failed herror).mpr hfailed, fun _ => ?_⟩
    simp [World.since]
  · intro assembled artifacts _ _ _
    refine rounds_verdict hsink hexecutor ⟨?_, hactive⟩
    exact
      { grown := Nat.le_refl _
        friendly := ⟨hfriendly.1, hfriendly.2, hfriendly.3⟩
        executions := Nat.zero_le _
        calls := Nat.zero_le _
        unfinished := .inl hactive
        calm := by simp [World.since] }

end Turn

/-! ## The turn -/

/-- Of a turn that starts active: the outcome agrees with the session exactly when no callback
both cancelled and ended the turn by what it answered. -/
theorem outcome_agrees_iff (args : TurnArgs E) (w : World E)
    (hactive : w.session.state = .active) (hfriendly : w.agent.Friendly)
    (hexecutor : args.executor.NeverFinishes) (hsink : args.sink.NeverFinishes) :
    (runTurn args w).1.Agrees (runTurn args w).2.session.state ↔ ∀ e ∈ turnEntries args w, e.Calm :=
  (runTurn_of_wp (Turn.body_verdict hactive hfriendly hexecutor hsink)).symm

section Cancelling

def cancellingProvider (answer : Except ProviderError ProviderTurn) :
    Hook Unit TurnRequest (Except ProviderError ProviderTurn) :=
  fun env _ _ => ⟨answer, env, [.cancel], 0⟩

def emptyAnswer : ProviderTurn := ⟨"", [], 0, ⟨0, 0, 0, 0⟩⟩

def cancellingWorld (answer : Except ProviderError ProviderTurn) : World Unit :=
  .new (cancellingProvider answer) (.new .new) (.new ⟨1⟩ ⟨1⟩ ⟨1⟩) {} () 0

theorem cancellingWorld_friendly (answer : Except ProviderError ProviderTurn) :
    (cancellingWorld answer).agent.Friendly where
  provider := by
    intro env session arg failed
    simp [cancellingWorld, World.new, Agent.new, cancellingProvider]
  authorizer := fun _ ha => by cases ha
  consent := fun _ hl => by cases hl

theorem plainArgs_neverFinishes :
    plainArgs.executor.NeverFinishes ∧ plainArgs.sink.NeverFinishes := by
  constructor <;> exact fun env session arg failed => not_mem_nil

/-- An answer on a cancelled session is noticed: the turn is canceled and calm. -/
theorem outcome_agrees_iff_answered :
    (runTurn plainArgs (cancellingWorld (.ok emptyAnswer))).1 = .canceled 0 0 ∧
      ∀ e ∈ turnEntries plainArgs (cancellingWorld (.ok emptyAnswer)), e.Calm := by
  have hrun : (runTurn plainArgs (cancellingWorld (.ok emptyAnswer))).1 = .canceled 0 0 ∧
      (runTurn plainArgs (cancellingWorld (.ok emptyAnswer))).2.session.state = .canceled := by
    decide +kernel
  refine ⟨hrun.1, (outcome_agrees_iff plainArgs (cancellingWorld (.ok emptyAnswer)) rfl
    (cancellingWorld_friendly _) plainArgs_neverFinishes.1 plainArgs_neverFinishes.2).mp ?_⟩
  rw [hrun.1, hrun.2]
  rfl

/-- A provider that cancels and then fails: the turn is reported as failed while
the session is canceled. -/
theorem cancelled_turn_reported_failed : ∃ (args : TurnArgs Unit) (w : World Unit),
    w.session.state = .active ∧ w.agent.Friendly ∧ args.executor.NeverFinishes ∧
    args.sink.NeverFinishes ∧ (runTurn args w).1 = .failed (.provider (.timeout 1 2)) ∧
    (runTurn args w).2.session.state = .canceled ∧
    ¬ (runTurn args w).1.Agrees (runTurn args w).2.session.state := by
  have hrun : (runTurn plainArgs (cancellingWorld (.error (.timeout 1 2)))).1 =
        .failed (.provider (.timeout 1 2)) ∧
      (runTurn plainArgs (cancellingWorld (.error (.timeout 1 2)))).2.session.state =
        .canceled := by
    decide +kernel
  refine ⟨plainArgs, cancellingWorld (.error (.timeout 1 2)), rfl, cancellingWorld_friendly _,
    plainArgs_neverFinishes.1, plainArgs_neverFinishes.2, hrun.1, hrun.2, ?_⟩
  rw [hrun.1, hrun.2]
  exact fun hagrees => by cases hagrees

end Cancelling

end BittyAi.Runtime
