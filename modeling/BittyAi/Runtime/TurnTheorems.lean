/-
BittyAi.Runtime.TurnTheorems — the proof rules of the turn loop.

The `wp` of every step of `run_turn` is computed by the simp set. `rounds_rule` is the
invariant rule of the whole loop: a result about turns supplies one assertion per point of
the loop and one step lemma per stretch of its body.
-/
import BittyAi.Runtime.ArtifactStoreTheorems
import BittyAi.Runtime.ToolBusTheorems
import BittyAi.Runtime.Turn

namespace BittyAi.Runtime

open Lib Lib.Exiting List

variable {E α : Type}

def World.attribute (w : World E) (record : ExecutionRecord) : World E :=
  { w with agent := { w.agent with executions := w.agent.executions ++ [record] } }.note
    (.attributed record)

def World.since (w start : World E) : List (Entry E) := w.trace.drop start.trace.length

section Since

variable {start w w' : World E} {more : List (Entry E)}
  (hgrown : start.trace.length ≤ w.trace.length) (h : w'.trace = w.trace ++ more)

include hgrown h

theorem World.grown_append : start.trace.length ≤ w'.trace.length := by
  rw [h, length_append]
  exact Nat.le_add_right_of_le hgrown

theorem World.since_append : w'.since start = w.since start ++ more := by
  rw [since, since, h, drop_append_of_le_length hgrown]

theorem World.forall_since {P : Entry E → Prop} :
    (∀ e ∈ w'.since start, P e) ↔ (∀ e ∈ w.since start, P e) ∧ ∀ e ∈ more, P e := by
  rw [since_append hgrown h, forall_mem_append]

end Since

def ToolExecution.record (execution : ToolExecution) : ExecutionRecord :=
  ⟨execution.executionId, execution.tool, execution.status, execution.resultDisposition⟩

variable {Q : Unit → World E → Prop} {execution : ToolExecution} {s : Shared E}
  {messages : List Message} {contextRefs : List String}

namespace Turn

/-! ## Steps -/

section Steps

variable {w : World E} {R : ExecOutcome → World E → Prop}

@[simp] theorem wp_hosting {f : Shared E → α × Shared E} {Q : α → World E → Prop} :
    wp (hosting f) Q R w ↔ Q (f w.share).1 (w.absorb (f w.share).2) := wp_lift

@[simp] theorem wp_update {f : Agent E → Agent E} :
    wp (update f) Q R w ↔ Q () { w with agent := f w.agent } := wp_modify

@[simp] theorem wp_note {event : Event} :
    wp (note event) Q R w ↔ Q () (w.note event) := wp_modify

@[simp] theorem wp_finish {failed : Bool} :
    wp (finish failed) Q R w ↔ Q () { w with session := w.session.finish failed } := wp_modify

@[simp] theorem wp_issueExecution {Q : ExecutionId → World E → Prop} :
    wp issueExecution Q R w ↔ Q ⟨w.lastId + 1⟩ { w with lastId := w.lastId + 1 } := by
  simp [issueExecution, Shared.issueExecution, World.share, World.absorb]

@[simp] theorem wp_fail {error : AgentError} {Q : α → World E → Prop} :
    wp (fail error) Q R w ↔ R (.failed error) { w with session := w.session.finish true } := by
  simp [fail]

@[simp] theorem wp_reconcileCancel {Q : α → World E → Prop} :
    wp reconcileCancel Q R w ↔ R (cancelOutcome w.agent.executions) w := by
  simp [reconcileCancel]

@[simp] theorem wp_cancelGate :
    wp cancelGate Q R w ↔
      if w.session.isCancelled then R (cancelOutcome w.agent.executions) w else Q () w := by
  simp only [cancelGate, wp_bind, wp_read]
  split <;> simp

@[simp] theorem wp_executionsGate :
    wp executionsGate Q R w ↔
      if w.agent.executions.length ≥ maxExecutionsPerAgent then
        R (.failed (.tool (.callLimitExceeded maxExecutionsPerAgent)))
          { w with session := w.session.finish true }
      else Q () w := by
  simp only [executionsGate, wp_bind, wp_read]
  split <;> simp

@[simp] theorem wp_pushRecord {record : ExecutionRecord} :
    wp (pushRecord record) Q R w ↔ Q () (w.attribute record) := by
  simp [pushRecord, World.attribute]

@[simp] theorem wp_attributeExecution :
    wp (attributeExecution execution) Q R w ↔ Q () (w.attribute execution.record) := by
  simp [attributeExecution, ToolExecution.record]

@[simp] theorem wp_unknown {reason tool : String} {Q : α → World E → Prop} :
    wp (unknown reason tool) Q R w ↔
      R (.unknown s!"{reason} (tool {boundReason tool})" w.agent.executions.length) w := by
  simp [unknown]

end Steps

/-! ## Emission -/

def Fits (agent : Agent E) (fragments : List Fragment) : Prop :=
  agent.nextSeq + fragments.length < seqSpace

def Event.IsEmitted : Event → Prop
  | .emit _ (.ok ()) => True
  | _ => False

/-- The emission loop from `s`: it stops on a cancelled session, on a sink error
(the last contact), or after the last chunk. -/
inductive EmitCase (sink : Hook E StreamChunk (Except StreamError Unit)) (s : Shared E) :
    Except StreamError (Option Nat) × Shared E → Prop
  | stopped {s' : Shared E} {emitted : List Contact} (log : s'.log = s.log ++ emitted)
      (accepted : ∀ c ∈ emitted, Event.IsEmitted c.event)
      (unfinished : sink.NeverFinishes → s.session.Unfinished → s'.session.Unfinished)
      (cancelled : s'.session.isCancelled = true) : EmitCase sink s (.ok none, s')
  | refused {s' : Shared E} {emitted : List Contact} {last : Contact} {chunk : StreamChunk}
      {e : StreamError} (log : s'.log = s.log ++ emitted ++ [last])
      (accepted : ∀ c ∈ emitted, Event.IsEmitted c.event)
      (unfinished : sink.NeverFinishes → s.session.Unfinished → s'.session.Unfinished)
      (event : last.event = .emit chunk (.error e)) (after : last.after = s'.session) :
      EmitCase sink s (.error e, s')
  | done {s' : Shared E} {emitted : List Contact} {next : Nat}
      (log : s'.log = s.log ++ emitted)
      (accepted : ∀ c ∈ emitted, Event.IsEmitted c.event)
      (unfinished : sink.NeverFinishes → s.session.Unfinished → s'.session.Unfinished)
      (running : s'.session.isCancelled = false) : EmitCase sink s (.ok (some next), s')

theorem EmitCase.cons {sink : Hook E StreamChunk (Except StreamError Unit)} {s₁ : Shared E}
    {first : Contact} {r : Except StreamError (Option Nat) × Shared E}
    (hlog : s₁.log = s.log ++ [first]) (hfirst : Event.IsEmitted first.event)
    (hunfinished : sink.NeverFinishes → s.session.Unfinished → s₁.session.Unfinished)
    (h : EmitCase sink s₁ r) : EmitCase sink s r := by
  have hall : ∀ {emitted : List Contact}, (∀ c ∈ emitted, Event.IsEmitted c.event) →
      ∀ c ∈ first :: emitted, Event.IsEmitted c.event :=
    fun haccepted => forall_mem_cons.mpr ⟨hfirst, haccepted⟩
  cases h with
  | stopped log accepted unfinished cancelled =>
    exact .stopped (by rw [log, hlog, append_assoc]; rfl) (hall accepted)
      (fun hsink hs => unfinished hsink (hunfinished hsink hs)) cancelled
  | refused log accepted unfinished event after =>
    exact .refused (by rw [log, hlog]; simp) (hall accepted)
      (fun hsink hs => unfinished hsink (hunfinished hsink hs)) event after
  | done log accepted unfinished running =>
    exact .done (by rw [log, hlog, append_assoc]; rfl) (hall accepted)
      (fun hsink hs => unfinished hsink (hunfinished hsink hs)) running

variable {R : ExecOutcome → World E → Prop} {args : TurnArgs E} {w : World E}

theorem emitEach_case (sink : Hook E StreamChunk (Except StreamError Unit)) (total : Nat) :
    ∀ (fragments : List Fragment) (seq : Nat) (s : Shared E),
      EmitCase sink s (emitEach sink total seq fragments s)
  | [], seq, s => by
    cases hc : s.session.isCancelled with
    | true =>
      simp only [emitEach, hc, if_true]
      exact .stopped (append_nil _).symm (by simp) (fun _ h => h) hc
    | false =>
      simp only [emitEach, hc, Bool.false_eq_true, if_false]
      exact .done (append_nil _).symm (by simp) (fun _ h => h) hc
  | fragment :: rest, seq, s => by
    rw [emitEach]
    cases hc : s.session.isCancelled with
    | true =>
      simp only [if_true]
      exact .stopped (append_nil _).symm (by simp) (fun _ h => h) hc
    | false =>
      simp only [Bool.false_eq_true, if_false]
      split
      next e s₁ hask =>
        have hlog := Shared.ask_log hask
        rw [← append_nil s.log] at hlog
        exact .refused hlog (by simp) (fun hsink => Shared.ask_neverFinishes hsink hask) rfl rfl
      next s₁ hask =>
        exact (emitEach_case sink total rest (seq + 1) s₁).cons (Shared.ask_log hask) trivial
          (fun hsink => Shared.ask_neverFinishes hsink hask)

theorem emitFragments_case (sink : Hook E StreamChunk (Except StreamError Unit))
    (fragments : List Fragment) (agent : Agent E) (s : Shared E) :
    (¬ Fits agent fragments ∧
      ∃ e, emitFragments sink fragments agent.nextSeq s = (.error e, s)) ∨
    (Fits agent fragments ∧ EmitCase sink s (emitFragments sink fragments agent.nextSeq s) ∧
      (s.session.isCancelled = true →
        emitFragments sink fragments agent.nextSeq s = (.ok none, s))) := by
  unfold emitFragments Fits
  split
  next hlong => exact .inl ⟨by omega, _, rfl⟩
  next =>
    split
    next hfull => exact .inl ⟨by omega, _, rfl⟩
    next hfits =>
      refine .inr ⟨by omega, emitEach_case sink _ fragments _ s, ?_⟩
      intro hc
      cases fragments <;> simp [emitEach, hc]

theorem EmitCase.contacts {sink : Hook E StreamChunk (Except StreamError Unit)} {s' : Shared E}
    {r : Except StreamError (Option Nat)} (h : EmitCase sink s (r, s')) :
    ∃ contacts : List Contact, s'.log = s.log ++ contacts ∧
      ∀ c ∈ contacts, ∃ chunk answer, c.event = .emit chunk answer := by
  have hemitted : ∀ c : Contact, Event.IsEmitted c.event →
      ∃ chunk answer, c.event = .emit chunk answer := by
    intro c hc
    cases he : c.event <;> simp only [he, Event.IsEmitted] at hc
    exact ⟨_, _, rfl⟩
  cases h with
  | stopped log accepted | done log accepted =>
    exact ⟨_, log, fun c hc => hemitted c (accepted c hc)⟩
  | @refused _ emitted last chunk e log accepted _ event _ =>
    rw [append_assoc] at log
    refine ⟨_, log, forall_mem_append.mpr ⟨fun c hc => hemitted c (accepted c hc), ?_⟩⟩
    exact forall_mem_singleton.mpr ⟨chunk, .error e, event⟩

theorem absorb_trace {contacts : List Contact} (h : s.log = w.share.log ++ contacts) :
    (w.absorb s).trace = w.trace ++ contacts.map fun c => ⟨c, w.agent⟩ := by
  simp [World.absorb, h, World.share]

@[simp] theorem absorb_share (w : World E) : w.absorb w.share = w := by
  simp [World.absorb, World.share]

variable {fragments : List Fragment}

/-- The rule of `emit_batch`: it fails without a contact when the sequence space
is used up, and otherwise ends as the emission loop does. -/
theorem wp_emitBatch (overflow : ∀ e, ¬ Fits w.agent fragments →
      R (.failed (.stream e)) { w with session := w.session.finish true })
    (stopped : ∀ s, Fits w.agent fragments → EmitCase args.sink w.share (.ok none, s) →
      R (cancelOutcome w.agent.executions) (w.absorb s))
    (refused : ∀ s e, w.session.isCancelled = false → EmitCase args.sink w.share (.error e, s) →
      R (.failed (.stream e)) { w.absorb s with session := s.session.finish true })
    (done : ∀ s next, w.session.isCancelled = false →
      EmitCase args.sink w.share (.ok (some next), s) →
      Q () { w.absorb s with agent := { w.agent with nextSeq := next } }) :
    wp (emitBatch args fragments) Q R w := by
  simp only [emitBatch, wp_bind, wp_read, wp_hosting]
  rcases emitFragments_case args.sink fragments w.agent w.share with
    ⟨hfull, e, he⟩ | ⟨hfits, hcase, hcancelled⟩
  · simp only [he, wp_fail, absorb_share]
    exact overflow e hfull
  · rcases hr : emitFragments args.sink fragments w.agent.nextSeq w.share with ⟨r, s⟩
    rw [hr] at hcase hcancelled
    have hrunning : r ≠ .ok none → w.session.isCancelled = false := by
      intro hne
      cases hc : w.session.isCancelled with
      | false => rfl
      | true => exact absurd (congrArg Prod.fst (hcancelled hc)) hne
    rcases r with e | _ | next
    · simp only [wp_fail]
      exact refused s e (hrunning (by simp)) hcase
    · simp only [wp_reconcileCancel]
      exact stopped s hfits hcase
    · simp only [wp_update]
      exact done s next (hrunning (by simp)) hcase

/-- What holds whenever only emissions were added holds after `emit_batch`. -/
theorem wp_emitBatch_of_emits {I : World E → Prop} (ended : ∀ outcome w', I w' → R outcome w')
    (grown : ∀ {w' : World E} {more next}, w'.trace = w.trace ++ more →
      (∀ e ∈ more, ∃ chunk answer, e.event = .emit chunk answer) →
      w'.agent = { w.agent with nextSeq := next } → I w') :
    wp (emitBatch args fragments) (fun _ => I) R w := by
  have hemit : ∀ {r s next} {w' : World E}, EmitCase args.sink w.share (r, s) →
      w'.trace = (w.absorb s).trace → w'.agent = { w.agent with nextSeq := next } → I w' := by
    intro r s next w' hcase htrace
    obtain ⟨contacts, hlog, hevents⟩ := hcase.contacts
    exact grown (htrace.trans (absorb_trace hlog)) (forall_mem_map.mpr hevents)
  refine wp_emitBatch ?_ ?_ ?_ ?_
  · exact fun e _ => ended _ _ (grown (append_nil _).symm (by simp) rfl)
  · exact fun s _ hcase => ended _ _ (hemit hcase rfl rfl)
  · exact fun s e _ hcase => ended _ _ (hemit hcase rfl rfl)
  · exact fun s next _ hcase => hemit hcase rfl rfl

/-! ## Rules of the stretches of a round -/

section Stretches

variable {args : TurnArgs E} {w : World E} {R : ExecOutcome → World E → Prop}

def chargedCost (agent : Agent E) (request : TurnRequest) (turn : ProviderTurn) : Nat :=
  satAdd agent.turnCost (agent.config.roundCost request turn)

theorem wp_askProvider {Q : ProviderTurn → World E → Prop} {request : TurnRequest}
    (hrequest : turnRequest args w.agent messages contextRefs = request)
    (uncertain : ∀ provider reason s, w.share.ask w.agent.provider request (.complete request) =
        (.error (.unknown provider reason), s) →
      wp (providerUnknown provider reason) Q R (w.absorb s))
    (failed : ∀ e s, w.share.ask w.agent.provider request (.complete request) = (.error e, s) →
      (∀ provider reason, e ≠ .unknown provider reason) →
      R (.failed (.provider e.bounded)) { w.absorb s with session := s.session.finish true })
    (blown : ∀ turn s limit,
      w.share.ask w.agent.provider request (.complete request) = (.ok turn, s) →
      w.agent.config.maxTurnCost = some limit → limit < chargedCost w.agent request turn →
      R (.failed (.costCeilingExceeded limit (chargedCost w.agent request turn)))
        { w.absorb s with agent := { w.agent with turnCost := chargedCost w.agent request turn } })
    (paid : ∀ turn s, w.share.ask w.agent.provider request (.complete request) = (.ok turn, s) →
      (∀ limit, w.agent.config.maxTurnCost = some limit →
        chargedCost w.agent request turn ≤ limit) →
      Q turn
        { w.absorb s with
          agent := { w.agent with turnCost := chargedCost w.agent request turn } }) :
    wp (askProvider args messages contextRefs) Q R w := by
  simp only [askProvider, wp_bind, wp_read, wp_hosting, hrequest]
  rcases hask : w.share.ask w.agent.provider request (.complete request) with ⟨answer, s⟩
  dsimp only
  split
  next provider reason => exact uncertain provider reason s hask
  next e hne =>
    rw [wp_fail]
    exact failed e s hask hne
  next turn =>
    simp only [chargeRound, wp_bind, wp_update, wp_read, wp_pure]
    cases hlimit : w.agent.config.maxTurnCost with
    | none =>
      have hnone : (w.absorb s).agent.config.maxTurnCost = none := hlimit
      simp only [hnone, wp_pure]
      exact paid turn s hask (by simp [hlimit])
    | some limit =>
      have hsome : (w.absorb s).agent.config.maxTurnCost = some limit := hlimit
      simp only [hsome]
      split
      next hblown => exact wp_exit.mpr (blown turn s limit hask hlimit hblown)
      next hfuse =>
        refine wp_pure.mpr (paid turn s hask ?_)
        intro limit' hlimit'
        rw [hlimit] at hlimit'
        cases hlimit'
        exact Nat.le_of_not_lt hfuse

theorem wp_deliver {turn : ProviderTurn} (J : World E → Prop)
    (text : wp (emitText args turn) (fun _ => J) R w)
    (stopped : ∀ w', J w' → w'.session.isCancelled = true →
      R (cancelOutcome w'.agent.executions) w')
    (completed : ∀ w', J w' → R (.completed turn.text)
      { w' with session := w'.session.finish false }) :
    wp (deliver args turn) (fun _ => J) R w := by
  rw [deliver, wp_bind]
  refine wp_mono text ?_ (fun _ _ h => h)
  intro _ w' h
  unfold complete
  split
  · simp only [wp_bind, wp_cancelGate, wp_finish, wp_exit]
    split
    next hc => exact stopped w' h hc
    next => exact completed w' h
  · exact wp_pure.mpr h

theorem wp_admitBatch {calls : List ToolCall}
    (refused : ∀ tool cause, wp (refuseBatch tool cause) Q R w)
    (unchecked : ∀ cause s, Consulted w.agent.tools w.share s → R (.failed (.tool cause))
      { w.absorb s with session := s.session.finish true })
    (passed : ∀ s, (∀ call ∈ calls, w.agent.promptGate call = .ok ()) →
      Consulted w.agent.tools w.share s →
      w.agent.tools.Prechecked w.session.authBase w.agent.config.maxToolCallsPerTurn
        w.agent.allowedTools calls s → Q () (w.absorb s)) :
    wp (admitBatch calls) Q R w := by
  simp only [admitBatch, wp_bind, wp_read]
  split
  next tool cause _ => exact refused tool cause
  next =>
    split
    next tool cause _ => exact refused tool cause
    next hgate =>
      have hgated : ∀ call ∈ calls, w.agent.promptGate call = .ok () := by
        intro call hcall
        have hnone := findSome?_eq_none_iff.mp hgate call hcall
        split at hnone
        next hok => exact hok
        next => cases hnone
      rw [wp_bind, wp_hosting]
      rcases hcheck : w.agent.tools.precheckNarrowed calls w.session.authBase
        w.agent.config.maxToolCallsPerTurn w.agent.allowedTools w.share with ⟨r, s⟩
      obtain ⟨hconsulted, hpassed⟩ := ToolBus.precheckNarrowed_spec hcheck
      cases r with
      | error cause =>
        rw [wp_fail]
        exact unchecked cause s hconsulted
      | ok _ => exact wp_pure.mpr (passed s hgated hconsulted (hpassed rfl))

theorem wp_dispatchCall {call : ToolCall} {Q : List Message → World E → Prop}
    (cancelled : w.session.isCancelled = true → R (cancelOutcome w.agent.executions) w)
    (full : w.agent.executions.length ≥ maxExecutionsPerAgent →
      R (.failed (.tool (.callLimitExceeded maxExecutionsPerAgent)))
        { w with session := w.session.finish true })
    (dispatched : ∀ result bus s, w.session.isCancelled = false →
      w.agent.executions.length < maxExecutionsPerAgent →
      ToolBus.DispatchCase w.agent.tools args.executor call w.session.authBase ⟨w.lastId + 1⟩
        args.nowMs { w.share with lastId := w.lastId + 1 } ((result, bus), s) →
      wp (concludeDispatch args ⟨w.lastId + 1⟩ call result)
        (fun execution => Q (messages ++ [executionMessage execution])) R
        { w.absorb s with agent := { w.agent with tools := bus } }) :
    wp (dispatchCall args messages call) Q R w := by
  simp only [dispatchCall, wp_bind, wp_cancelGate, wp_executionsGate, wp_issueExecution, wp_read,
    wp_hosting, wp_update, wp_pure]
  split
  next hc => exact cancelled hc
  next hc =>
    split
    next hfull => exact full hfull
    next hroom =>
      have hshare : World.share { w with lastId := w.lastId + 1 } =
          { w.share with lastId := w.lastId + 1 } := rfl
      rw [hshare]
      have hcase := ToolBus.dispatchNarrowed_case w.agent.tools args.executor call
        w.session.authBase ⟨w.lastId + 1⟩ args.nowMs w.agent.allowedTools
        { w.share with lastId := w.lastId + 1 }
      rcases hdispatch : w.agent.tools.dispatchNarrowed args.executor call w.session.authBase
        ⟨w.lastId + 1⟩ args.nowMs w.agent.allowedTools
        { w.share with lastId := w.lastId + 1 } with ⟨⟨result, bus⟩, s⟩
      rw [hdispatch] at hcase
      exact dispatched result bus s (by simpa using hc) (by omega) hcase

/-- Data that the history record of an execution can hold: short, or with room in
the artifact store. -/
def Storable (agent : Agent E) (data : List UInt8) : Prop :=
  data.length ≤ externalizeThresholdBytes ∨ agent.artifacts.HasRoom data

/-- The rule of `record_execution`: the record is attributed first; what follows
only adds to the artifacts and the tool history. -/
theorem wp_recordExecution {w₁ : World E} (hpushed : w.attribute execution.record = w₁)
    (unstorable : ∀ e, ¬ Storable w.agent execution.data →
      R (.failed (.context e)) { w₁ with session := w₁.session.finish true })
    (recorded : ∀ artifacts history, Storable w.agent execution.data →
      Q () { w₁ with
        agent := { w₁.agent with artifacts := artifacts, toolHistory := history } }) :
    wp (recordExecution args execution) Q R w := by
  simp only [recordExecution, historyBody, wp_bind, wp_attributeExecution, wp_read, hpushed]
  have hartifacts : w₁.agent.artifacts = w.agent.artifacts := by rw [← hpushed]; rfl
  split
  next hlarge =>
    rcases ArtifactStore.store_cases w₁.agent.artifacts execution.data w₁.session.generation with
      ⟨e, hstore, hfull⟩ | ⟨artifacts, hstore, -, hroom⟩
    · simp only [hstore, wp_fail]
      refine unstorable e ?_
      rintro (hsmall | hroom)
      · omega
      · exact hfull (hartifacts ▸ hroom)
    · have hstorable : Storable w.agent execution.data := .inr (hartifacts ▸ hroom)
      simp only [hstore, wp_bind, wp_update, wp_pure]
      split
      next => exact wp_pure.mpr (recorded artifacts w₁.agent.toolHistory hstorable)
      next owner _ => exact wp_update.mpr (recorded artifacts _ hstorable)
  next hsmall =>
    have hstorable : Storable w.agent execution.data := .inl (by omega)
    simp only [wp_pure]
    split
    next => exact wp_pure.mpr (recorded w₁.agent.artifacts w₁.agent.toolHistory hstorable)
    next owner _ => exact wp_update.mpr (recorded w₁.agent.artifacts _ hstorable)

theorem wp_recordOutcome
    {w₁ : World E} (hpushed : w.attribute execution.record = w₁) (I : World E → Prop)
    (unstorable : ∀ e, ¬ Storable w.agent execution.data →
      R (.failed (.context e)) { w₁ with session := w₁.session.finish true })
    (card : ∀ artifacts history advisory, Storable w.agent execution.data →
      wp (emitBatch args (fragmentText .toolCard execution.card)) (fun _ => I) R
        { w₁ with
          agent := { w₁.agent with
            artifacts := artifacts
            toolHistory := history
            lastAdvisory := advisory } })
    (uncertain : ∀ reason w', execution.status = .unknown reason → I w' →
      wp (unknown "tool effect uncertain; reconcile before retry" execution.tool) Q R w')
    (denied : ∀ reason w', execution.status = .denied reason → I w' →
      R (.failed (.tool (.denied execution.tool reason)))
        { w' with session := w'.session.finish true })
    (known : ∀ w', (∀ reason, execution.status ≠ .unknown reason) →
      (∀ reason, execution.status ≠ .denied reason) → I w' → Q () w') :
    wp (recordOutcome args execution) Q R w := by
  rw [recordOutcome, wp_bind]
  refine wp_recordExecution hpushed unstorable ?_
  intro artifacts history hstorable
  simp only [wp_bind, wp_update]
  refine wp_mono (card artifacts history _ hstorable) ?_ (fun _ _ h => h)
  intro _ w' hI
  split
  next reason hstatus => exact uncertain reason w' hstatus hI
  next reason hstatus =>
    rw [wp_fail]
    exact denied reason w' hstatus hI
  next hunknown hdenied =>
    rw [wp_pure]
    exact known w' hunknown hdenied hI

theorem wp_concludeDispatch {id : ExecutionId} {call : ToolCall}
    {result : Except ToolError ToolExecution} {Q : ToolExecution → World E → Prop}
    (raised : ∀ e, result = .error e → R (.failed (.tool e.normalized))
        { w.attribute ⟨id, call.name, .failed (boundReason e.normalized.display), .accepted⟩ with
          session := w.session.finish true })
    (stopped : ∀ execution cause, result = .ok execution →
      execution.status = .refused cause ∨ execution.resultDisposition = .rejected cause →
      R (.failed (.tool cause))
        { w.attribute execution.record with session := w.session.finish true })
    (settled : ∀ execution, result = .ok execution →
      (∀ cause, execution.status ≠ .refused cause) → execution.resultDisposition = .accepted →
      wp (recordOutcome args execution) (fun _ => Q execution) R w) :
    wp (concludeDispatch args id call result) Q R w := by
  cases result with
  | error e =>
    simp only [concludeDispatch, wp_bind, wp_pushRecord, wp_fail]
    exact raised e rfl
  | ok execution =>
    simp only [concludeDispatch, settleDispatch, wp_bind, wp_pure]
    split
    next cause hstatus =>
      simp only [wp_bind, wp_attributeExecution, wp_fail]
      exact stopped execution cause rfl (.inl hstatus)
    next cause hdisposition _ =>
      simp only [wp_bind, wp_attributeExecution, wp_fail]
      exact stopped execution cause rfl (.inr hdisposition)
    next hdisposition hnot => exact settled execution rfl hnot hdisposition

end Stretches

/-! ## Invariants that only dispatches touch -/

def Quiet : Event → Prop
  | .attributed _ => False
  | .settled _ => False
  | .execute _ _ _ => False
  | _ => True

theorem quiet_of_isGate {event : Event} (h : event.IsGate) : Quiet event := by
  cases event <;> trivial

/-- `I` survives whatever a turn does outside a dispatch: quiet entries with
changes of other fields, and attributions within the bound. -/
structure Inert (I : World E → Prop) : Prop where
  quiet : ∀ {w w' : World E} {more : List (Entry E)}, I w → w'.trace = w.trace ++ more →
    (∀ e ∈ more, Quiet e.event) → w'.agent.executions = w.agent.executions →
    w'.agent.pendingUnknown = w.agent.pendingUnknown → I w'
  attributed : ∀ {w : World E} {record : ExecutionRecord}, I w →
    w.agent.executions.length < maxExecutionsPerAgent → I (w.attribute record)

namespace Inert

variable {I : World E → Prop} {args : TurnArgs E} {w : World E}

theorem same (hI : Inert I) {w' : World E} (h : I w) (htrace : w'.trace = w.trace)
    (hexecutions : w'.agent.executions = w.agent.executions)
    (hpending : w'.agent.pendingUnknown = w.agent.pendingUnknown) : I w' :=
  hI.quiet h (by rw [htrace, append_nil]) (by simp) hexecutions hpending

theorem absorb (hI : Inert I) (h : I w) {contacts : List Contact}
    (hlog : s.log = w.share.log ++ contacts) (hquiet : ∀ c ∈ contacts, Quiet c.event) :
    I (w.absorb s) := by
  exact hI.quiet h (absorb_trace hlog) (forall_mem_map.mpr hquiet) rfl rfl

theorem consulted (hI : Inert I) (h : I w) {s₀ : Shared E} (hlog : s₀.log = [])
    (hconsulted : Consulted w.agent.tools s₀ s) : I (w.absorb s) := by
  obtain ⟨contacts, hcontacts, hgate⟩ := hconsulted.log
  refine hI.absorb h (by rw [hcontacts, hlog]; rfl) ?_
  exact fun c hc => quiet_of_isGate (hgate c hc)

theorem emitBatch (hI : Inert I) (h : I w) :
    wp (Turn.emitBatch args fragments) (fun _ => I) (fun _ => I) w := by
  refine wp_emitBatch_of_emits (fun _ _ h' => h') ?_
  intro w' more next htrace hemits hagent
  refine hI.quiet h htrace ?_ (by rw [hagent]) (by rw [hagent])
  intro e he
  obtain ⟨chunk, answer, hevent⟩ := hemits e he
  rw [hevent]
  trivial

theorem askProvider (hI : Inert I) (h : I w) :
    wp (Turn.askProvider args messages contextRefs) (fun _ => I) (fun _ => I) w := by
  have hasked : ∀ {request answer s},
      w.share.ask w.agent.provider request (.complete request) = (answer, s) →
      I (w.absorb s) := fun hask =>
    hI.absorb h (Shared.ask_log hask) (by simp [Quiet])
  refine wp_askProvider rfl ?_ ?_ ?_ ?_
  · intro provider reason s hask
    simp only [providerUnknown, wp_bind, wp_executionsGate, wp_issueExecution, wp_pushRecord,
      wp_unknown]
    split
    next => exact hI.same (hasked hask) rfl rfl rfl
    next hroom =>
      have hissued : I { w.absorb s with lastId := s.lastId + 1 } :=
        hI.same (hasked hask) rfl rfl rfl
      exact hI.attributed hissued (Nat.lt_of_not_le hroom)
  · exact fun e s hask _ => hI.same (hasked hask) rfl rfl rfl
  · exact fun turn s limit hask _ _ => hI.same (hasked hask) rfl rfl rfl
  · exact fun turn s hask _ => hI.same (hasked hask) rfl rfl rfl

theorem deliver (hI : Inert I) (h : I w) {turn : ProviderTurn} :
    wp (Turn.deliver args turn) (fun _ => I) (fun _ => I) w := by
  refine wp_deliver I ?_ (fun _ h' _ => h') fun _ h' => hI.same h' rfl rfl rfl
  unfold emitText
  split
  · rw [wp_cancelGate]
    split <;> exact h
  · exact hI.emitBatch h

theorem admitBatch (hI : Inert I) (h : I w) {calls : List ToolCall} :
    wp (Turn.admitBatch calls) (fun _ => I) (fun _ => I) w := by
  refine wp_admitBatch ?_ ?_ ?_
  · intro tool cause
    simp only [refuseBatch, wp_bind, wp_executionsGate, wp_issueExecution, wp_pushRecord, wp_fail]
    split
    next => exact hI.same h rfl rfl rfl
    next hroom =>
      have hissued : I { w with lastId := w.lastId + 1 } := hI.same h rfl rfl rfl
      exact hI.same (hI.attributed hissued (Nat.lt_of_not_le hroom)) rfl rfl rfl
  · exact fun cause s hconsulted => hI.same (hI.consulted h rfl hconsulted) rfl rfl rfl
  · exact fun s _ hconsulted _ => hI.consulted h rfl hconsulted

theorem recordOutcome (hI : Inert I) (h : I w)
    (hroom : w.agent.executions.length < maxExecutionsPerAgent) :
    wp (Turn.recordOutcome args execution) (fun _ => I) (fun _ => I) w := by
  have hpushed : I (w.attribute execution.record) := hI.attributed h hroom
  refine wp_recordOutcome rfl I ?_ ?_ ?_ ?_ ?_
  · exact fun e _ => hI.same hpushed rfl rfl rfl
  · intro artifacts history advisory _
    refine hI.emitBatch ?_
    exact hI.same hpushed rfl rfl rfl
  · intro reason w' _ h'
    rw [wp_unknown]
    exact h'
  · exact fun reason w' _ h' => hI.same h' rfl rfl rfl
  · exact fun w' _ _ h' => h'

theorem dispatchCall (hI : Inert I) (h : I w) {call : ToolCall}
    (contacted : ∀ {s : Shared E} {contacts : List Contact}, s.log = w.share.log ++ contacts →
      (∀ c ∈ contacts, c.event.IsGate ∨ ∃ ctx answer, c.event = .execute call ctx answer) →
      I (w.absorb s)) :
    wp (Turn.dispatchCall args messages call) (fun _ => I) (fun _ => I) w := by
  refine wp_dispatchCall (fun _ => h) (fun _ => hI.same h rfl rfl rfl) ?_
  intro result bus s _ hroom hcase
  obtain ⟨contacts, hlog, hevents⟩ := hcase.contacts
  have hdispatched : I { w.absorb s with agent := { w.agent with tools := bus } } :=
    hI.same (contacted hlog hevents) rfl rfl rfl
  refine wp_concludeDispatch ?_ ?_ ?_
  · exact fun e _ => hI.same (hI.attributed hdispatched hroom) rfl rfl rfl
  · exact fun execution cause _ _ => hI.same (hI.attributed hdispatched hroom) rfl rfl rfl
  · exact fun execution _ _ _ => hI.recordOutcome hdispatched hroom

end Inert

/-! ## The loop -/

structure Points (E : Type) where
  head : Nat → World E → Prop
  answered : Nat → ProviderTurn → World E → Prop
  delivered : Nat → ProviderTurn → World E → Prop
  batch : Nat → List ToolCall → World E → Prop
  ended : ExecOutcome → World E → Prop

theorem rounds_rule (P : Points E)
    (cancelled : ∀ left w, P.head left w → w.session.isCancelled = true →
      P.ended (cancelOutcome w.agent.executions) w)
    (exhausted : ∀ w, P.head 0 w → w.session.isCancelled = false →
      P.ended (.failed (.roundLimitExceeded w.agent.config.maxRounds))
        { w with session := w.session.finish true })
    (ask : ∀ left messages w, P.head (left + 1) w → w.session.isCancelled = false →
      wp (askProvider args messages contextRefs) (P.answered left) P.ended w)
    (deliver : ∀ left turn w, P.answered left turn w →
      wp (Turn.deliver args turn) (fun _ => P.delivered left turn) P.ended w)
    (gates : ∀ left turn w, P.delivered left turn w →
      wp (admitBatch turn.toolCalls) (fun _ => P.batch left turn.toolCalls) P.ended w)
    (dispatch : ∀ left call rest messages w, P.batch left (call :: rest) w →
      wp (dispatchCall args messages call) (fun _ => P.batch left rest) P.ended w)
    (next : ∀ left w, P.batch left [] w → P.head left w) :
    ∀ (left : Nat) (messages : List Message) (w : World E), P.head left w →
      wp (rounds args contextRefs left messages) (fun _ _ => False) P.ended w := by
  intro left
  induction left with
  | zero =>
    intro messages w hhead
    simp only [rounds, wp_bind, wp_cancelGate, wp_read, wp_fail]
    split
    next hc => exact cancelled 0 w hhead hc
    next hc => exact exhausted w hhead (by simpa using hc)
  | succ left ih =>
    intro messages w hhead
    simp only [rounds, wp_bind, wp_cancelGate]
    split
    next hc => exact cancelled (left + 1) w hhead hc
    next hc =>
      refine wp_mono (ask left messages w hhead (by simpa using hc)) ?_ (fun _ _ h => h)
      intro turn w₁ hanswered
      refine wp_mono (deliver left turn w₁ hanswered) ?_ (fun _ _ h => h)
      intro _ w₂ hdelivered
      refine wp_mono (gates left turn w₂ hdelivered) ?_ (fun _ _ h => h)
      intro _ w₃ hbatch
      refine wp_mono
        (wp_each (I := fun calls _ => P.batch left calls) ?_ turn.toolCalls _ w₃ hbatch)
        ?_ (fun _ _ h => h)
      · exact fun call rest messages w h => dispatch left call rest messages w h
      · exact fun messages w₄ hend => ih messages w₄ (next left w₄ hend)

theorem Inert.rounds {I : World E → Prop} (hI : Inert I) (ended : ∀ outcome w, I w → R outcome w)
    (dispatch : ∀ call messages w, I w →
      wp (Turn.dispatchCall args messages call) (fun _ => I) R w) (left : Nat)
    (messages : List Message) (h : I w) :
    wp (Turn.rounds args contextRefs left messages) (fun _ _ => False) R w := by
  have hweaken : ∀ {α : Type} {m : Turn E α} {w : World E},
      wp m (fun _ => I) (fun _ => I) w → wp m (fun _ => I) R w := fun hm =>
    wp_mono hm (fun _ _ h' => h') fun outcome w' h' => ended outcome w' h'
  refine rounds_rule
    ⟨fun _ => I, fun _ _ => I, fun _ _ => I, fun _ _ => I, R⟩ ?_ ?_ ?_ ?_ ?_ ?_ ?_ left messages w h
  · exact fun left w h _ => ended _ w h
  · exact fun w h _ => ended _ _ (hI.same h rfl rfl rfl)
  · exact fun left messages w h _ => hweaken (hI.askProvider h)
  · exact fun left turn w h => hweaken (hI.deliver h)
  · exact fun left turn w h => hweaken (hI.admitBatch h)
  · exact fun left call rest messages w h => dispatch call messages w h
  · exact fun left w h => h

/-! ## Before the first round -/

/-- One uncertain record joins the pending ones: the latest status of its id
wins, and a new id goes to the end. -/
def carryInto (pending : List ExecutionRecord) (record : ExecutionRecord) : List ExecutionRecord :=
  if record.executionId ∈ pending.map (·.executionId) then refreshPending record pending
  else pending ++ [record]

def carried (agent : Agent E) (records : List ExecutionRecord) : Agent E :=
  { agent with pendingUnknown := records.foldl carryInto agent.pendingUnknown }

theorem refreshPending_length (record : ExecutionRecord) (pending : List ExecutionRecord) :
    (refreshPending record pending).length = pending.length := by
  induction pending with
  | nil => rfl
  | cons p rest ih =>
    rw [refreshPending]
    split
    · rfl
    · simp [ih]

/-- The rule of the carry: it carries the uncertain records in order and stops at
the first one that does not fit. -/
theorem wp_carryUnknown (full : ∀ done rest,
      w.agent.executions.filter (·.status.isAckLoss) = done ++ rest →
      (carried w.agent done).pendingUnknown.length ≤
        max w.agent.pendingUnknown.length maxExecutionsPerAgent →
      R (.failed (.tool (.callLimitExceeded maxExecutionsPerAgent)))
        { w with agent := carried w.agent done, session := w.session.finish true })
    (done : (carried w.agent (w.agent.executions.filter (·.status.isAckLoss))).pendingUnknown.length
        ≤ max w.agent.pendingUnknown.length maxExecutionsPerAgent →
      Q () { w with
        agent := carried w.agent (w.agent.executions.filter (·.status.isAckLoss)) }) :
    wp carryUnknown Q R w := by
  rw [carryUnknown, wp_bind, wp_read]
  -- before each step some of the records are carried and the others are left
  refine wp_mono (wp_each (I := fun rest _ w' => ∃ before,
      w.agent.executions.filter (·.status.isAckLoss) = before ++ rest ∧
      w' = { w with agent := carried w.agent before } ∧
      (carried w.agent before).pendingUnknown.length ≤
        max w.agent.pendingUnknown.length maxExecutionsPerAgent) ?_ _ () w
      ⟨[], rfl, rfl, Nat.le_max_left _ _⟩) ?_ (fun _ _ h => h)
  · rintro record rest _ _ ⟨before, hsplit, rfl, hlength⟩
    have hsplit' : w.agent.executions.filter (·.status.isAckLoss) =
        (before ++ [record]) ++ rest := by
      rw [hsplit, append_assoc, singleton_append]
    have hcarried : carried w.agent (before ++ [record]) =
        { carried w.agent before with
          pendingUnknown := carryInto (carried w.agent before).pendingUnknown record } := by
      simp [carried]
    simp only [carryOne, wp_bind, wp_read]
    split
    next hknown =>
      rw [carryInto, if_pos hknown] at hcarried
      rw [wp_update]
      refine ⟨before ++ [record], hsplit', by rw [hcarried], ?_⟩
      rw [hcarried]
      simpa [refreshPending_length] using hlength
    next hnew =>
      split
      next =>
        rw [wp_fail]
        exact full before (record :: rest) hsplit hlength
      next hroom =>
        rw [carryInto, if_neg hnew] at hcarried
        rw [wp_update]
        refine ⟨before ++ [record], hsplit', by rw [hcarried], ?_⟩
        rw [hcarried]
        simp only [length_append, length_singleton]
        omega
  · rintro _ _ ⟨before, hsplit, rfl, hlength⟩
    rw [append_nil] at hsplit
    rw [← hsplit] at hlength ⊢
    exact done hlength

def seeded (agent : Agent E) (assembled : AssembledContext) (artifacts : ArtifactStore) : Agent E :=
  { agent with artifacts := artifacts, lastAdvisory := some (seedFlags assembled.records) }

def opened (agent : Agent E) (assembled : AssembledContext) (artifacts : ArtifactStore) : Agent E :=
  { carried (seeded agent assembled artifacts)
      (agent.executions.filter (·.status.isAckLoss)) with
    tools := agent.tools.beginTurn
    executions := []
    toolHistory := []
    turnCost := 0
    nextSeq := 0 }

def seedMessages (args : TurnArgs E) (assembled : AssembledContext) : List Message :=
  assembled.records.map assembledRecordMessage ++ [⟨.user, args.prompt⟩]

/-- The rule of the whole body. Before the rounds the agent changes only in its
artifacts, its advisory and its pending records, and nothing is asked. -/
theorem wp_body (cancelled : w.session.state = .canceled → R (.canceled 0 0) w)
    (terminated : w.session.state ≠ .canceled → w.session.state ≠ .active →
      R (.failed (.session (.alreadyTerminated w.session.state))) w)
    (unprepared : ∀ error advisory artifacts done rest, w.session.state = .active →
      (∀ limit actual, error ≠ .costCeilingExceeded limit actual) →
      w.agent.executions.filter (·.status.isAckLoss) = done ++ rest →
      (carried w.agent done).pendingUnknown.length ≤
        max w.agent.pendingUnknown.length maxExecutionsPerAgent →
      R (.failed error)
        { w with
          agent := { carried w.agent done with artifacts := artifacts, lastAdvisory := advisory }
          session := w.session.finish true })
    (prepared : ∀ assembled artifacts, w.session.state = .active →
      assemble args.seedRecords w.agent.artifacts
        ⟨none, some w.agent.config.effectiveBudgetBytes, w.session.generation⟩ =
          (.ok assembled, artifacts) →
      (opened w.agent assembled artifacts).pendingUnknown.length ≤
        max w.agent.pendingUnknown.length maxExecutionsPerAgent →
      wp (rounds args assembled.contextRefs w.agent.config.maxRounds (seedMessages args assembled))
        (fun _ _ => False) R { w with agent := opened w.agent assembled artifacts }) :
    wp (body args) (fun _ _ => False) R w := by
  simp only [body, admitTurn, assembleSeed, openTurn, wp_bind, wp_read, wp_update]
  split
  next hcanceled => exact wp_exit.mpr (cancelled hcanceled)
  next hcanceled =>
    split
    next hactive => exact wp_exit.mpr (terminated hcanceled hactive)
    next hactive =>
      have hstate : w.session.state = .active := not_not.mp hactive
      split
      next =>
        rw [wp_fail]
        exact unprepared _ w.agent.lastAdvisory w.agent.artifacts [] _ hstate (by simp) rfl
          (Nat.le_max_left _ _)
      next =>
        rw [wp_pure]
        rcases hassemble : assemble args.seedRecords w.agent.artifacts
          ⟨none, some w.agent.config.effectiveBudgetBytes, w.session.generation⟩ with ⟨r, artifacts⟩
        cases r with
        | error e =>
          simp only [wp_bind, wp_update, wp_fail]
          exact unprepared _ none artifacts [] _ hstate (by simp) rfl (Nat.le_max_left _ _)
        | ok assembled =>
          simp only [wp_bind, wp_update, wp_pure]
          refine wp_carryUnknown ?_ ?_
          · intro done rest hsplit hlength
            exact unprepared _ (some (seedFlags assembled.records)) artifacts done rest hstate
              (by simp) hsplit hlength
          · intro hlength
            exact prepared assembled artifacts hstate hassemble hlength

end Turn

theorem runTurn_of_wp {args : TurnArgs E} {w : World E} {R : ExecOutcome → World E → Prop}
    (h : wp (Turn.body args) (fun _ _ => False) R w) :
    R (runTurn args w).1 (runTurn args w).2 := by
  obtain ⟨outcome, w', hbody, hend⟩ := wp_exits h
  rw [runTurn, hbody]
  exact hend

/-- A turn without seed records, whose tools all fail. -/
def plainArgs : TurnArgs Unit where
  executor := fun env _ _ => ⟨.error (.failed "" ""), env, [], 0⟩
  sink := fun env _ _ => ⟨.ok (), env, [], 0⟩
  model := "model"
  prompt := "prompt"
  seedRecords := []
  nowMs := 0

end BittyAi.Runtime
