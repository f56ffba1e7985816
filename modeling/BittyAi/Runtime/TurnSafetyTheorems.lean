/-
BittyAi.Runtime.TurnSafetyTheorems — what the trace of a turn can look like.

`CallSafe` is what holds of the past whenever the executor is called; `TurnSafe` adds the
two ceilings. The invariant of the loop is `Going`.
-/
import BittyAi.Lib.History
import BittyAi.Runtime.TurnTheorems

namespace BittyAi.Runtime

open Lib Lib.Exiting List Event

variable {E : Type}

/-! ## Reading a trace -/

def Event.isComplete : Event → Bool
  | .complete _ _ => true
  | _ => false

/-- The call that the executor is given. -/
def Event.executed : Event → List ToolCall
  | .execute call _ _ => [call]
  | _ => []

/-- The batch of calls in an answer of the provider. -/
def Event.requested : Event → List ToolCall
  | .complete _ (.ok turn) => turn.toolCalls
  | _ => []

def executed (es : List (Entry E)) : List ToolCall := es.flatMap (·.event.executed)

def requested (es : List (Entry E)) : List ToolCall := es.flatMap (·.event.requested)

/-- Answers of the executor after which the turn may go on: a success within its bounds, or a
failure that leaves no effect uncertain. Unknown effects, denials and oversized results are not. -/
def CleanAnswer : Except ToolError ToolSuccess → Prop
  | .ok success =>
    success.summary.utf8ByteSize ≤ maxSummaryBytes ∧ success.data.length ≤ maxToolResultBytes
  | .error (.failed _ _) => True
  | .error (.protocolRejected _ _) => True
  | .error _ => False

def Event.Clean : Event → Prop
  | .complete _ answer => ∃ turn, answer = .ok turn
  | .execute _ _ answer => CleanAnswer answer
  | _ => True

def charge (config : AgentConfig) (cost : Nat) (e : Entry E) : Nat :=
  match e.event with
  | .complete request (.ok turn) => satAdd cost (config.roundCost request turn)
  | _ => cost

def spent (config : AgentConfig) (es : List (Entry E)) : Nat := es.foldl (charge config) 0

/-- A call of a batch has passed the allow-set, the prompt gate and the precheck, in which the
authorizer has allowed it. -/
structure GatesPassed (agent : Agent E) (es : List (Entry E)) (call : ToolCall) : Prop where
  listed : ∀ names, agent.allowedTools = some names → call.name ∈ names
  gated : agent.promptGate call = .ok ()
  prechecked : ∃ base spec, agent.tools.Cleared base.level call spec ∧
    ∃ x ∈ es, x.event = .authorize (ToolBus.authContext base call spec) .allow

structure CallSafe (past : List (Entry E)) (e : Entry E) (call : ToolCall)
    (ctx : ExecutionContext) : Prop where
  /-- The call was checked and allowed directly before, for the base read from a
  session that was not cancelled then. -/
  approved : ∃ earlier gate query spec principal,
    past = earlier ++ [gate, query] ∧ gate.before.isCancelled = false ∧
    e.agent.tools.Cleared gate.before.level call spec ∧
    gate.event = .authorize (ToolBus.authContext gate.before.authBase call spec) .allow ∧
    e.agent.tools.protocolId = some principal ∧
    query.event = .consent
      (ToolBus.consentQuery principal gate.before.authBase call spec ctx.nowMs) .allow
  affordable : ∀ limit, e.agent.config.maxTurnCost = some limit →
    spent e.agent.config past ≤ limit
  clean : ∀ x ∈ past, x.event.Clean
  /-- The executor has been given every call of the provider's answers up to this one, so none
  was refused. -/
  next : executed past ++ [call] <+: requested past
  /-- Every call of the answers, whether executed yet or not, has passed the gates of its
  batch. -/
  passed : ∀ other ∈ requested past, GatesPassed e.agent past other
  fits : (requested past).length ≤
    min e.agent.config.maxToolCallsPerTurn maxToolCallsPerTurn

def CallsSafe : List (Entry E) → Prop :=
  Justified fun past e => ∀ call ctx answer, e.event = .execute call ctx answer →
    CallSafe past e call ctx

structure TurnSafe (config : AgentConfig) (es : List (Entry E)) : Prop where
  calls : CallsSafe es
  executions : (executed es).length ≤ min config.maxToolCallsPerTurn maxToolCallsPerTurn
  rounds : es.countP (·.event.isComplete) ≤ config.maxRounds

/-! ## Growing traces -/

def Entry.Idle (e : Entry E) : Prop := e.event.executed = [] ∧ e.event.isComplete = false

variable {e : Entry E}

theorem Entry.idle_of_isGate (h : e.event.IsGate) : e.Idle := by
  unfold Entry.Idle
  cases he : e.event <;> simp_all [Event.IsGate, Event.executed, isComplete]

theorem Entry.Idle.requested (h : e.Idle) : e.event.requested = [] := by
  have hcomplete := h.2
  cases he : e.event <;> simp_all [Event.requested, isComplete]

theorem Entry.Idle.clean (h : e.Idle) : e.event.Clean := by
  obtain ⟨hexecute, hcomplete⟩ := h
  cases he : e.event <;> simp_all [Event.Clean, Event.executed, isComplete]

variable {es more : List (Entry E)}

theorem callsSafe_append_idle (h : CallsSafe es)
    (hmore : ∀ e ∈ more, e.Idle) : CallsSafe (es ++ more) := by
  refine h.append_of_forall ?_
  intro e he past call ctx answer hevent
  have hidle := (hmore e he).1
  rw [hevent] at hidle
  cases hidle

theorem reads_append_idle (es : List (Entry E)) (hmore : ∀ e ∈ more, e.Idle) :
    executed (es ++ more) = executed es ∧ requested (es ++ more) = requested es ∧
      (es ++ more).countP (·.event.isComplete) = es.countP (·.event.isComplete) := by
  have hexecuted : more.flatMap (·.event.executed) = [] :=
    flatMap_eq_nil_iff.mpr fun e he => (hmore e he).1
  have hrequested : more.flatMap (·.event.requested) = [] :=
    flatMap_eq_nil_iff.mpr fun e he => (hmore e he).requested
  have hcompletes : more.countP (·.event.isComplete) = 0 :=
    countP_eq_zero.mpr fun e he => by simp [(hmore e he).2]
  simp [executed, requested, countP_append, hexecuted, hrequested, hcompletes]

variable {config : AgentConfig}

theorem TurnSafe.append_idle
    (h : TurnSafe config es) (hmore : ∀ e ∈ more, e.Idle) : TurnSafe config (es ++ more) where
  calls := callsSafe_append_idle h.calls hmore
  executions := by rw [(reads_append_idle es hmore).1]; exact h.executions
  rounds := by rw [(reads_append_idle es hmore).2.2]; exact h.rounds

theorem charge_of_idle {cost : Nat} (h : e.Idle) : charge config cost e = cost := by
  unfold charge
  have := h.2
  cases he : e.event <;> simp_all [isComplete]

theorem spent_append_idle
    (hmore : ∀ e ∈ more, e.Idle) : spent config (es ++ more) = spent config es := by
  rw [spent, foldl_append]
  induction more with
  | nil => rfl
  | cons e more ih =>
    rw [foldl_cons, charge_of_idle (hmore e mem_cons_self)]
    exact ih fun x hx => hmore x (mem_cons_of_mem e hx)

/-! ## The invariant -/

def Agent.wiring (agent : Agent E) :
    AgentConfig × Option AssembledPrompt × Option (List String) × ToolRegistry :=
  (agent.config, agent.prompt, agent.allowedTools, agent.tools.registry)

theorem GatesPassed.congr {a b : Agent E} {call : ToolCall} (hwiring : a.wiring = b.wiring)
    (hes : es ⊆ more) (h : GatesPassed a es call) : GatesPassed b more call := by
  simp only [Agent.wiring, Prod.mk.injEq] at hwiring
  obtain ⟨-, hprompt, hallowed, hregistry⟩ := hwiring
  obtain ⟨base, spec, ⟨hshaped, hregistered, hbounded, htier⟩, x, hx, hevent⟩ := h.prechecked
  refine ⟨hallowed ▸ h.listed, ?_, base, spec, ⟨hshaped, hregistry ▸ hregistered, hbounded, htier⟩,
    x, hes hx, hevent⟩
  have hgated := h.gated
  simp only [Agent.promptGate, Agent.dispatcherGrants, ToolBus.toolNames] at hgated ⊢
  rwa [← hprompt, ← hregistry]

/-- The turn that began in `start` goes on in `w` with `left` rounds left. Of the calls the
provider has asked for, those of `pending` are admitted and wait for their dispatch, and those of
`asked` wait for the gates of their batch. -/
structure Going (start : World E) (left : Nat) (pending asked : List ToolCall) (w : World E) :
    Prop where
  grown : start.trace.length ≤ w.trace.length
  wiring : w.agent.wiring = start.agent.wiring
  calls : CallsSafe (w.since start)
  order : executed (w.since start) ++ (pending ++ asked) = requested (w.since start)
  executions : (executed (w.since start)).length = w.agent.tools.callsThisTurn
  allowance : pending.length + w.agent.tools.callsThisTurn ≤
    min start.agent.config.maxToolCallsPerTurn maxToolCallsPerTurn
  rounds : (w.since start).countP (·.event.isComplete) + left = start.agent.config.maxRounds
  cost : spent start.agent.config (w.since start) = w.agent.turnCost
  paid : ∀ limit, start.agent.config.maxTurnCost = some limit → w.agent.turnCost ≤ limit
  clean : ∀ x ∈ w.since start, x.event.Clean
  passed : ∀ call ∈ executed (w.since start) ++ pending,
    GatesPassed start.agent (w.since start) call

/-- The turn that began in `start` is over and its trace is safe. -/
structure Ended (start : World E) (w : World E) : Prop where
  grown : start.trace.length ≤ w.trace.length
  safe : TurnSafe start.agent.config (w.since start)

variable {start w : World E} {left : Nat} {pending asked : List ToolCall}

theorem Going.ended (h : Going start left pending asked w) : Ended start w where
  grown := h.grown
  safe :=
    { calls := h.calls
      executions := by have := h.allowance; rw [h.executions]; omega
      rounds := by have := h.rounds; omega }

variable {w' : World E}

theorem Ended.grow (h : Ended start w)
    (htrace : w'.trace = w.trace ++ more) (hmore : ∀ e ∈ more, e.Idle) : Ended start w' where
  grown := World.grown_append h.grown htrace
  safe := by rw [World.since_append h.grown htrace]; exact h.safe.append_idle hmore

theorem Going.grow (h : Going start left pending asked w) (htrace : w'.trace = w.trace ++ more)
    (hmore : ∀ e ∈ more, e.Idle) (hwiring : w'.agent.wiring = w.agent.wiring)
    (hcount : w'.agent.tools.callsThisTurn = w.agent.tools.callsThisTurn)
    (hcost : w'.agent.turnCost = w.agent.turnCost) : Going start left pending asked w' := by
  have hsince := World.since_append h.grown htrace
  obtain ⟨hexecuted, hrequested, hcompletes⟩ := reads_append_idle (w.since start) hmore
  rw [← hsince] at hexecuted hrequested hcompletes
  exact
    { grown := World.grown_append h.grown htrace
      wiring := hwiring.trans h.wiring
      calls := by rw [hsince]; exact callsSafe_append_idle h.calls hmore
      order := by rw [hexecuted, hrequested]; exact h.order
      executions := by rw [hexecuted, hcount]; exact h.executions
      allowance := by rw [hcount]; exact h.allowance
      rounds := by rw [hcompletes]; exact h.rounds
      cost := by rw [hsince, spent_append_idle hmore, hcost]; exact h.cost
      paid := by rw [hcost]; exact h.paid
      clean := (World.forall_since h.grown htrace).mpr ⟨h.clean, fun e he => (hmore e he).clean⟩
      passed := by
        rw [hexecuted]
        exact fun call hcall => (h.passed call hcall).congr rfl (by rw [hsince]; simp) }

variable {request : TurnRequest}

variable {answer : Except ProviderError ProviderTurn}

theorem Going.completed (h : Going start (left + 1) [] [] w)
    (htrace : w'.trace = w.trace ++ [e]) (hevent : e.event = .complete request answer) :
    CallsSafe (w'.since start) ∧ executed (w'.since start) = executed (w.since start) ∧
      (w'.since start).countP (·.event.isComplete) + left = start.agent.config.maxRounds := by
  have hsince := World.since_append h.grown htrace
  refine ⟨?_, ?_, ?_⟩
  · rw [hsince]
    refine Justified.snoc h.calls ?_
    intro call ctx answer hexecute
    rw [hevent] at hexecute
    cases hexecute
  · simp [hsince, executed, hevent, Event.executed]
  · have hone : [e].countP (·.event.isComplete) = 1 := by simp [hevent, isComplete]
    have := h.rounds
    rw [hsince, countP_append, hone]
    omega

variable {call : ToolCall} {rest : List ToolCall} {ctx : ExecutionContext}
  {result : Except ToolError ToolSuccess}

section Executed

variable (h : Going start left (call :: rest) [] w) (htrace : w'.trace = w.trace ++ [e])
  (hevent : e.event = .execute call ctx result) (hsafe : CallSafe (w.since start) e call ctx)

include h htrace hevent hsafe

theorem Going.executes :
    CallsSafe (w'.since start) ∧ executed (w'.since start) = executed (w.since start) ++ [call] ∧
      (w'.since start).countP (·.event.isComplete) + left = start.agent.config.maxRounds := by
  have hsince := World.since_append h.grown htrace
  refine ⟨?_, by simp [hsince, executed, hevent, Event.executed], ?_⟩
  · rw [hsince]
    refine Justified.snoc h.calls ?_
    intro call' ctx' answer' hexecute
    rw [hevent] at hexecute
    cases hexecute
    exact hsafe
  · have hnone : [e].countP (·.event.isComplete) = 0 := by simp [hevent, isComplete]
    rw [hsince, countP_append, hnone]
    exact h.rounds

theorem Going.ended_of_executed : Ended start w' := by
  obtain ⟨hcalls, hexecuted, hrounds⟩ := h.executes htrace hevent hsafe
  refine ⟨World.grown_append h.grown htrace, hcalls, ?_, by omega⟩
  have := h.allowance
  rw [length_cons] at this
  rw [hexecuted, length_append, length_singleton, h.executions]
  omega

theorem Going.executed (hclean : CleanAnswer result)
    (hwiring : w'.agent.wiring = w.agent.wiring)
    (hcount : w'.agent.tools.callsThisTurn = w.agent.tools.callsThisTurn + 1)
    (hcost : w'.agent.turnCost = w.agent.turnCost) : Going start left rest [] w' := by
  obtain ⟨hcalls, hexecuted, hrounds⟩ := h.executes htrace hevent hsafe
  have hsince := World.since_append h.grown htrace
  have hfree : spent start.agent.config (w.since start ++ [e]) =
      spent start.agent.config (w.since start) := by
    simp [spent, charge, hevent]
  refine
    { grown := World.grown_append h.grown htrace
      wiring := hwiring.trans h.wiring
      calls := hcalls
      order := ?_
      executions := by rw [hexecuted, length_append, length_singleton, h.executions, hcount]
      allowance := ?_
      rounds := hrounds
      cost := by rw [hsince, hfree, h.cost, hcost]
      paid := by rw [hcost]; exact h.paid
      clean := (World.forall_since h.grown htrace).mpr
        ⟨h.clean, by simpa [hevent, Event.Clean] using hclean⟩
      passed := ?_ }
  · have hrequested : requested (w'.since start) = requested (w.since start) := by
      simp [hsince, requested, hevent, Event.requested]
    rw [hexecuted, hrequested, ← h.order, append_assoc]
    rfl
  · have := h.allowance
    rw [length_cons] at this
    omega
  · rw [hexecuted, append_assoc]
    exact fun call hcall => (h.passed call hcall).congr rfl (by rw [hsince]; simp)

end Executed

variable {s : Shared E}

/-- The executor was contacted for the next call: the turn goes on if its answer is clean. -/
theorem Going.contacted (h : Going start left (call :: rest) [] w)
    (hrunning : w.session.isCancelled = false) {executor : ToolExecutor E} {id : ExecutionId}
    {nowMs : Nat} {s₀ : Shared E} (hs₀ : s₀.session = w.session) (hlog : s₀.log = [])
    (hcontact : w.agent.tools.Contacted executor call w.session.authBase id nowMs s₀ s result)
    (htrace : w'.trace = (w.absorb s).trace)
    (hwiring : w'.agent.wiring = w.agent.wiring)
    (hcount : w'.agent.tools.callsThisTurn = w.agent.tools.callsThisTurn + 1)
    (hcost : w'.agent.turnCost = w.agent.turnCost) :
    Ended start w' ∧ (CleanAnswer result → Going start left rest [] w') := by
  obtain ⟨spec, authorizer, ledger, principal, s₁, s₂, hcleared, -, -, hprincipal, hauthorize,
    hconsent, hexecute⟩ := hcontact.gates
  -- the entries of the gates, filed under the agent of `w`
  obtain ⟨gate, hgate⟩ : ∃ e : Entry E, e = ⟨⟨.authorize
    (ToolBus.authContext w.session.authBase call spec) .allow, w.session, s₁.session⟩,
    w.agent⟩ := ⟨_, rfl⟩
  obtain ⟨query, hquery⟩ : ∃ e : Entry E, e = ⟨⟨.consent
    (ToolBus.consentQuery principal w.session.authBase call spec nowMs) .allow, s₁.session,
    s₂.session⟩, w.agent⟩ := ⟨_, rfl⟩
  have hgates : ∀ e ∈ [gate, query], e.Idle := by
    intro e he
    rcases mem_pair.mp he with rfl | rfl
    · exact Entry.idle_of_isGate (hgate ▸ trivial)
    · exact Entry.idle_of_isGate (hquery ▸ trivial)
  have hasked : Going start left (call :: rest) [] { w with trace := w.trace ++ [gate, query] } :=
    h.grow rfl hgates rfl rfl rfl
  have hentries : w'.trace = w.trace ++ [gate, query] ++
      [⟨⟨.execute call ⟨id, nowMs⟩ result, s₂.session, s.session⟩, w.agent⟩] := by
    rw [htrace, World.absorb, Shared.ask_log hexecute, Shared.ask_log hconsent,
      Shared.ask_log hauthorize, hlog, hs₀, hgate, hquery]
    simp
  have hconfig : w.agent.config = start.agent.config := congrArg (·.1) h.wiring
  have horder := hasked.order
  rw [append_nil] at horder
  have hsafe : CallSafe (World.since { w with trace := w.trace ++ [gate, query] } start)
      ⟨⟨.execute call ⟨id, nowMs⟩ result, s₂.session, s.session⟩, w.agent⟩ call ⟨id, nowMs⟩ :=
    { approved := ⟨w.since start, gate, query, spec, principal,
        World.since_append h.grown rfl, hgate ▸ hrunning, hgate ▸ hcleared, by rw [hgate],
        hprincipal, by rw [hgate, hquery]⟩
      affordable := by
        intro limit hlimit
        show spent w.agent.config _ ≤ limit
        rw [hconfig, hasked.cost]
        exact hasked.paid limit (hconfig ▸ hlimit)
      clean := hasked.clean
      next := ⟨rest, by rw [← horder, append_assoc]; rfl⟩
      passed := by
        rw [← horder]
        exact fun other hother => (hasked.passed other hother).congr h.wiring.symm (by simp)
      fits := by
        show _ ≤ min w.agent.config.maxToolCallsPerTurn _
        rw [hconfig, ← horder, length_append, hasked.executions, Nat.add_comm]
        exact hasked.allowance }
  exact ⟨hasked.ended_of_executed hentries rfl hsafe,
    fun hclean => hasked.executed hentries rfl hsafe hclean hwiring hcount hcost⟩

/-! ## Steps of the loop -/

variable {args : TurnArgs E} {messages : List Message}

namespace Turn

variable {fragments : List Fragment} {contextRefs : List String}

theorem Ended.attribute (h : Ended start w) (record : ExecutionRecord) :
    Ended start (w.attribute record) :=
  h.grow rfl (by simp [Entry.Idle, Event.executed, isComplete])

end Turn

/-! ## The turn -/

end BittyAi.Runtime
