/-
BittyAi.Runtime.ToolBusTheorems — what the gates and the dispatch of the tool bus can do.

`Consulted` says once what every refusing path of the bus is: some questions to the
installed authorizer and ledger, in some order, and nothing else. A dispatch is either such
a path or a `Contact` of the executor (`DispatchCase`).
-/
import BittyAi.Runtime.ToolBus

namespace BittyAi.Runtime

open List

variable {E α β : Type}

/-! ## Asking -/

variable {hook : Hook E α β} {arg : α} {event : β → Event} {b : β}

namespace Shared

variable {s s' : Shared E}

theorem ask_log (h : s.ask hook arg event = (b, s')) :
    s'.log = s.log ++ [⟨event b, s.session, s'.session⟩] := by
  cases h
  rfl

theorem ask_keepsState (hkeeps : hook.KeepsState) (h : s.ask hook arg event = (b, s')) :
    s'.session.state = s.session.state := by
  cases h
  exact hkeeps s.env s.session arg

theorem ask_neverFinishes (hhook : hook.NeverFinishes) (h : s.ask hook arg event = (b, s'))
    (hs : s.session.Unfinished) : s'.session.Unfinished := by
  cases h
  exact AgentSession.acts_state (fun failed => hhook s.env s.session arg failed) s.session hs

end Shared

/-! ## Consultation -/

def Event.IsGate : Event → Prop
  | .authorize _ _ => True
  | .consent _ _ => True
  | _ => False

/-- `s'` is reached from `s` by asking the hooks of the bus. -/
inductive Consulted (bus : ToolBus E) : Shared E → Shared E → Prop
  | refl (s : Shared E) : Consulted bus s s
  | authorize {s s₁ s₂ : Shared E} {authorizer : Hook E AuthContext AuthDecision}
      {ctx : AuthContext} {decision : AuthDecision} (before : Consulted bus s s₁)
      (installed : bus.authorizer = some authorizer)
      (asked : s₁.ask authorizer ctx (.authorize ctx) = (decision, s₂)) : Consulted bus s s₂
  | consent {s s₁ s₂ : Shared E} {ledger : Hook E ConsentQuery ConsentDecision}
      {query : ConsentQuery} {decision : ConsentDecision} (before : Consulted bus s s₁)
      (installed : bus.consent = some ledger)
      (asked : s₁.ask ledger query (.consent query) = (decision, s₂)) : Consulted bus s s₂

namespace Consulted

variable {bus : ToolBus E} {s s₁ s₂ : Shared E}

theorem trans (h : Consulted bus s s₁) (h' : Consulted bus s₁ s₂) : Consulted bus s s₂ := by
  induction h' with
  | refl => exact h
  | authorize _ installed asked ih => exact ih.authorize installed asked
  | consent _ installed asked ih => exact ih.consent installed asked

theorem log (h : Consulted bus s s₁) :
    ∃ contacts : List Contact, s₁.log = s.log ++ contacts ∧ ∀ c ∈ contacts, c.event.IsGate := by
  induction h with
  | refl => exact ⟨[], by simp, by simp⟩
  | authorize _ _ asked ih | consent _ _ asked ih =>
    obtain ⟨contacts, hlog, hgate⟩ := ih
    refine ⟨contacts ++ [_], by rw [Shared.ask_log asked, hlog, append_assoc],
      forall_mem_append.mpr ⟨hgate, ?_⟩⟩
    exact forall_mem_singleton.mpr trivial

theorem state (hauth : ∀ a ∈ bus.authorizer, a.KeepsState)
    (hledger : ∀ l ∈ bus.consent, l.KeepsState) (h : Consulted bus s s₁) :
    s₁.session.state = s.session.state := by
  induction h with
  | refl => rfl
  | authorize _ installed asked ih =>
    exact (Shared.ask_keepsState (hauth _ installed) asked).trans ih
  | consent _ installed asked ih =>
    exact (Shared.ask_keepsState (hledger _ installed) asked).trans ih

end Consulted

/-! ## The gates -/

variable {r : Except ToolError Unit} {nowMs : Nat} {id : ExecutionId}
  {answer : Except ToolError ToolSuccess}

namespace ToolBus

variable {executor : ToolExecutor E} {execution : ToolExecution}

/-- The checks of a call that need no host: shape, registration, argument bound
and the read-only floor of the `inspect` tier. -/
structure Cleared (bus : ToolBus E) (level : AgentLevel) (call : ToolCall) (spec : ToolSpec) :
    Prop where
  shaped : toolNameShape call.name = true
  registered : bus.registry.lookup call.name = some spec
  bounded : call.arguments.length ≤ maxToolArgumentsBytes
  tier : level = .inspect → spec.readOnly = true

variable {bus : ToolBus E} {base : AuthBase} {call : ToolCall} {s s' : Shared E}

theorem validateToolName_ok {name : String} (h : validateToolName name = .ok ()) :
    toolNameShape name = true := by
  unfold validateToolName at h
  split at h
  · assumption
  · cases h

theorem consulted_refused {P : Prop} {error : ToolError}
    (h : ((.error error, s) : Except ToolError Unit × Shared E) = (r, s')) :
    Consulted bus s s' ∧ (r = .ok () → P) := by
  cases h
  exact ⟨.refl s, fun h => by cases h⟩

/-- One call through `authorize_call`: a consultation, and when it passes the
call is cleared and the authorizer said so. -/
theorem authorizeCall_spec (h : bus.authorizeCall base call s = (r, s')) :
    Consulted bus s s' ∧ (r = .ok () → ∃ spec authorizer,
      bus.Cleared base.level call spec ∧ bus.authorizer = some authorizer ∧
      s.ask authorizer (authContext base call spec)
        (.authorize (authContext base call spec)) = (.allow, s')) := by
  unfold authorizeCall at h
  split at h
  next => exact consulted_refused h
  next hname =>
  split at h
  next => exact consulted_refused h
  next spec hspec =>
  split at h
  next => exact consulted_refused h
  next hargs =>
  split at h
  next => exact consulted_refused h
  next htier =>
  split at h
  next => exact consulted_refused h
  next authorizer hauth =>
    have hcleared : bus.Cleared base.level call spec :=
      { shaped := validateToolName_ok hname
        registered := hspec
        bounded := by omega
        tier := by
          intro hlevel
          by_contra hro
          exact htier ⟨hlevel, by simpa using hro⟩ }
    dsimp only at h
    split at h
    next s₁ hask =>
      cases h
      exact ⟨(Consulted.refl s).authorize hauth hask,
        fun _ => ⟨spec, authorizer, hcleared, hauth, hask⟩⟩
    next reason s₁ hask =>
      cases h
      exact ⟨(Consulted.refl s).authorize hauth hask, fun h => by cases h⟩

theorem checkConsent_spec (h : bus.checkConsent call base nowMs s = (r, s')) :
    Consulted bus s s' ∧ (r = .ok () → ∃ spec ledger principal,
      bus.registry.lookup call.name = some spec ∧ bus.consent = some ledger ∧
      bus.protocolId = some principal ∧
      s.ask ledger (consentQuery principal base call spec nowMs)
        (.consent (consentQuery principal base call spec nowMs)) = (.allow, s')) := by
  unfold checkConsent at h
  split at h
  next ledger principal hledger hprincipal =>
    split at h
    next => exact consulted_refused h
    next spec hspec =>
      dsimp only at h
      split at h
      next s₁ hask =>
        cases h
        exact ⟨(Consulted.refl s).consent hledger hask,
          fun _ => ⟨spec, ledger, principal, hspec, hledger, hprincipal, hask⟩⟩
      next reason s₁ hask =>
        cases h
        exact ⟨(Consulted.refl s).consent hledger hask, fun h => by cases h⟩
  next => exact consulted_refused h

theorem authorizeAll_spec : ∀ (calls : List ToolCall) {s s' : Shared E}
    {r : Except ToolError Unit}, bus.authorizeAll base calls s = (r, s') →
    Consulted bus s s' ∧ (r = .ok () → ∀ call ∈ calls, ∃ spec,
      bus.Cleared base.level call spec ∧
      ∃ c ∈ s'.log, c.event = .authorize (authContext base call spec) .allow)
  | [], s, s', r, h => by
    cases h
    exact ⟨.refl s, fun _ => by simp⟩
  | call :: rest, s, s', r, h => by
    rw [authorizeAll] at h
    split at h
    next e s₁ hcall =>
      cases h
      exact ⟨(authorizeCall_spec hcall).1, nofun⟩
    next s₁ hcall =>
      obtain ⟨hfirst, hallowed⟩ := authorizeCall_spec hcall
      obtain ⟨hrest, hothers⟩ := authorizeAll_spec rest h
      refine ⟨hfirst.trans hrest, fun hok => forall_mem_cons.mpr ⟨?_, hothers hok⟩⟩
      obtain ⟨spec, authorizer, hcleared, -, hask⟩ := hallowed rfl
      obtain ⟨contacts, hlog, -⟩ := hrest.log
      rw [hlog, Shared.ask_log hask]
      exact ⟨spec, hcleared, _,
        mem_append_left _ (mem_append_right _ (mem_singleton.mpr rfl)), rfl⟩

/-- What a precheck that passes has found: the allow-set lists every call, every call is cleared
and allowed by the authorizer, and the batch fits the rest of the turn budget. -/
structure Prechecked (bus : ToolBus E) (base : AuthBase) (limit : Nat)
    (allowed : Option (List String)) (calls : List ToolCall) (s : Shared E) : Prop where
  listed : ∀ call ∈ calls, ∀ names, allowed = some names → call.name ∈ names
  authorized : ∀ call ∈ calls, ∃ spec, bus.Cleared base.level call spec ∧
    ∃ c ∈ s.log, c.event = .authorize (authContext base call spec) .allow
  fits : calls.length + bus.callsThisTurn ≤ min limit maxToolCallsPerTurn

theorem precheckNarrowed_spec {calls : List ToolCall} {limit : Nat} {allowed : Option (List String)}
    (h : bus.precheckNarrowed calls base limit allowed s = (r, s')) :
    Consulted bus s s' ∧ (r = .ok () → bus.Prechecked base limit allowed calls s') := by
  unfold precheckNarrowed at h
  split at h
  next =>
    cases h
    exact ⟨.refl s, fun h => by cases h⟩
  next hnone =>
    have hlisted : ∀ call ∈ calls, ∀ names, allowed = some names → call.name ∈ names := by
      rintro call hcall names rfl
      simpa [narrowingOmits] using find?_eq_none.mp hnone call hcall
    unfold precheck at h
    split at h
    next e s₁ hall =>
      cases h
      exact ⟨(authorizeAll_spec calls hall).1, fun h => by cases h⟩
    next s₁ hall =>
      obtain ⟨hconsulted, hauthorized⟩ := authorizeAll_spec calls hall
      dsimp only at h
      split at h
      next =>
        cases h
        exact ⟨hconsulted, fun h => by cases h⟩
      next hfits =>
        cases h
        exact ⟨hconsulted, fun _ => ⟨hlisted, hauthorized rfl, by omega⟩⟩

/-! ## Dispatch -/

/-- The executor was called: both gates allowed this very call, one directly
after the other, and the counter moves by one. -/
structure Contacted (bus : ToolBus E) (executor : ToolExecutor E) (call : ToolCall)
    (base : AuthBase) (id : ExecutionId) (nowMs : Nat) (s s' : Shared E)
    (answer : Except ToolError ToolSuccess) : Prop where
  room : bus.callsThisTurn < maxToolCallsPerTurn
  gates : ∃ spec authorizer ledger principal s₁ s₂,
    bus.Cleared base.level call spec ∧ bus.authorizer = some authorizer ∧
    bus.consent = some ledger ∧ bus.protocolId = some principal ∧
    s.ask authorizer (authContext base call spec)
      (.authorize (authContext base call spec)) = (.allow, s₁) ∧
    s₁.ask ledger (consentQuery principal base call spec nowMs)
      (.consent (consentQuery principal base call spec nowMs)) = (.allow, s₂) ∧
    s₂.ask executor (call, ⟨id, nowMs⟩) (.execute call ⟨id, nowMs⟩) = (answer, s')

theorem Contacted.log (h : Contacted bus executor call base id nowMs s s' answer) :
    ∃ (gates : List Contact) (last : Contact), s'.log = s.log ++ (gates ++ [last]) ∧
      (∀ c ∈ gates, c.event.IsGate) ∧ last.event = .execute call ⟨id, nowMs⟩ answer := by
  obtain ⟨spec, authorizer, ledger, principal, s₁, s₂, -, -, -, -, hauthorize, hconsent,
    hexecute⟩ := h.gates
  have hlog := Shared.ask_log hexecute
  rw [Shared.ask_log hconsent, Shared.ask_log hauthorize, append_assoc, append_assoc] at hlog
  refine ⟨[_, _], _, hlog, ?_, rfl⟩
  intro c hc
  simp only [mem_cons, not_mem_nil, or_false] at hc
  rcases hc with rfl | rfl <;> trivial

/-- The bus after the executor returned: counted, and observed if the answer maps
to an execution. -/
def afterContact (bus : ToolBus E) (call : ToolCall) (base : AuthBase) (id : ExecutionId)
    (nowMs : Nat) (answer : Except ToolError ToolSuccess) : ToolBus E :=
  let counted := { bus with callsThisTurn := bus.callsThisTurn + 1 }
  match executionOf id call answer with
  | .ok execution => counted.observeDispatch call base nowMs execution
  | .error _ => counted

@[simp] theorem afterContact_registry :
    (bus.afterContact call base id nowMs answer).registry = bus.registry := by
  unfold afterContact
  split <;> rfl

theorem afterContact_hooks :
    (bus.afterContact call base id nowMs answer).authorizer = bus.authorizer ∧
      (bus.afterContact call base id nowMs answer).consent = bus.consent := by
  unfold afterContact
  split <;> exact ⟨rfl, rfl⟩

@[simp] theorem afterContact_callsThisTurn :
    (bus.afterContact call base id nowMs answer).callsThisTurn = bus.callsThisTurn + 1 := by
  unfold afterContact
  split <;> rfl

/-- An executor answer that is neither an error outside the bus contract nor a
payload over its bounds. -/
def Reported : Except ToolError ToolSuccess → Prop
  | .ok success =>
    success.summary.utf8ByteSize ≤ maxSummaryBytes ∧ success.data.length ≤ maxToolResultBytes
  | .error (.effectUnknown _ _) => True
  | .error (.denied _ _) => True
  | .error (.failed _ _) => True
  | .error (.protocolRejected _ _) => True
  | .error _ => False

theorem reported_iff (id : ExecutionId) (call : ToolCall) :
    Reported answer ↔ ∃ execution, executionOf id call answer = .ok execution ∧
      execution.resultDisposition = .accepted := by
  constructor
  · intro h
    cases answer with
    | ok success =>
      obtain ⟨hsummary, hdata⟩ := h
      rw [executionOf, if_neg (Nat.not_lt.mpr hsummary), if_neg (Nat.not_lt.mpr hdata)]
      exact ⟨_, rfl, rfl⟩
    | error e => cases e <;> first | exact ⟨_, rfl, rfl⟩ | exact h.elim
  · rintro ⟨execution, hexecution, haccepted⟩
    cases answer with
    | ok success =>
      rw [executionOf] at hexecution
      split at hexecution
      · cases hexecution
        cases haccepted
      · split at hexecution
        · cases hexecution
          cases haccepted
        · exact ⟨by omega, by omega⟩
    | error e => cases e <;> trivial

theorem executionOf_ok (h : executionOf id call answer = .ok execution) :
    execution.executionId = id ∧ execution.tool = call.name ∧
      ∀ cause, execution.status ≠ .refused cause := by
  cases answer with
  | ok success =>
    rw [executionOf] at h
    split at h
    · cases h
      simp [resultRejected]
    · split at h <;> cases h <;> simp [resultRejected]
  | error e => cases e <;> cases h <;> simp [withoutPayload]

inductive DispatchCase (bus : ToolBus E) (executor : ToolExecutor E) (call : ToolCall)
    (base : AuthBase) (id : ExecutionId) (nowMs : Nat) (s : Shared E) :
    (Except ToolError ToolExecution × ToolBus E) × Shared E → Prop
  | refusal {cause : ToolError} {s' : Shared E} (consulted : Consulted bus s s') :
      DispatchCase bus executor call base id nowMs s (bus.refuse call base id nowMs cause, s')
  | contact {answer : Except ToolError ToolSuccess} {s' : Shared E}
      (contacted : Contacted bus executor call base id nowMs s s' answer) :
      DispatchCase bus executor call base id nowMs s
        ((executionOf id call answer, bus.afterContact call base id nowMs answer), s')

theorem DispatchCase.contacts {r : Except ToolError ToolExecution × ToolBus E}
    (h : DispatchCase bus executor call base id nowMs s (r, s')) :
    ∃ contacts : List Contact, s'.log = s.log ++ contacts ∧ ∀ c ∈ contacts,
      c.event.IsGate ∨ ∃ ctx answer, c.event = .execute call ctx answer := by
  cases h with
  | refusal consulted =>
    obtain ⟨contacts, hlog, hgate⟩ := consulted.log
    exact ⟨contacts, hlog, fun c hc => .inl (hgate c hc)⟩
  | contact contacted =>
    obtain ⟨gates, last, hlog, hgates, hlast⟩ := contacted.log
    refine ⟨_, hlog, forall_mem_append.mpr ⟨fun c hc => .inl (hgates c hc), ?_⟩⟩
    exact forall_mem_singleton.mpr (.inr ⟨_, _, hlast⟩)

theorem dispatch_case (executor : ToolExecutor E) (id : ExecutionId) (nowMs : Nat) :
    DispatchCase bus executor call base id nowMs s
      (bus.dispatch executor call base id nowMs s) := by
  unfold dispatch
  split
  next cause s₁ hcall => exact .refusal (authorizeCall_spec hcall).1
  next s₁ hcall =>
    obtain ⟨hconsulted, hallowed⟩ := authorizeCall_spec hcall
    obtain ⟨spec, authorizer, hcleared, hauth, hask⟩ := hallowed rfl
    split
    next cause s₂ hconsent => exact .refusal (hconsulted.trans (checkConsent_spec hconsent).1)
    next s₂ hconsent =>
      obtain ⟨hconsulted', hconsented⟩ := checkConsent_spec hconsent
      obtain ⟨spec', ledger, principal, hspec', hledger, hprincipal, hask'⟩ := hconsented rfl
      obtain rfl : spec' = spec := by
        rw [hcleared.registered] at hspec'
        exact (Option.some.inj hspec').symm
      split
      next => exact .refusal (hconsulted.trans hconsulted')
      next hroom =>
        rcases hexec : s₂.ask executor (call, ⟨id, nowMs⟩) (.execute call ⟨id, nowMs⟩)
          with ⟨answer, s₃⟩
        have hcase : DispatchCase bus executor call base id nowMs s
            ((executionOf id call answer, bus.afterContact call base id nowMs answer), s₃) :=
          .contact ⟨by omega, spec', authorizer, ledger, principal, s₁, s₂, hcleared, hauth,
            hledger, hprincipal, hask, hask', hexec⟩
        unfold afterContact at hcase
        dsimp only
        rw [hexec]
        cases hexecution : executionOf id call answer with
        | ok | error => simpa only [hexecution] using hcase

theorem dispatchNarrowed_case (bus : ToolBus E) (executor : ToolExecutor E) (call : ToolCall)
    (base : AuthBase) (id : ExecutionId) (nowMs : Nat) (allowed : Option (List String))
    (s : Shared E) :
    DispatchCase bus executor call base id nowMs s
      (bus.dispatchNarrowed executor call base id nowMs allowed s) := by
  unfold dispatchNarrowed
  split
  next => exact .refusal (.refl s)
  next => exact dispatch_case executor id nowMs

end ToolBus

end BittyAi.Runtime
