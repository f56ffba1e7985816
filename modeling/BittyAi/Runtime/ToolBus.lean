/-
BittyAi.Runtime.ToolBus — capability-checked dispatch (`ToolBus` of `tool.rs`).

The bus owns its registry, hooks, per-turn counter and usage ring, and runs on
the part of the world it shares with the host. A call that returns a
`ToolExecution` always leaves one usage row; the one bare error is the executor
error outside the bus contract.
-/
import BittyAi.Runtime.Host

namespace BittyAi.Runtime

structure ToolBus (E : Type) where
  registry : ToolRegistry
  authorizer : Option (Hook E AuthContext AuthDecision)
  consent : Option (Hook E ConsentQuery ConsentDecision)
  protocolId : Option String
  callsThisTurn : Nat
  usage : UsageRing

/-- Host code behind `ToolExecutor::execute_with_context`. -/
abbrev ToolExecutor (E : Type) :=
  Hook E (ToolCall × ExecutionContext) (Except ToolError ToolSuccess)

variable {E : Type}

namespace ToolBus

def new (registry : ToolRegistry) : ToolBus E where
  registry := registry
  authorizer := none
  consent := none
  protocolId := none
  callsThisTurn := 0
  usage := .new

def withAuthorizer (bus : ToolBus E) (authorizer : Hook E AuthContext AuthDecision) : ToolBus E :=
  { bus with authorizer := some authorizer }

def withConsent (bus : ToolBus E) (ledger : Hook E ConsentQuery ConsentDecision)
    (protocolId : String) : ToolBus E :=
  { bus with consent := some ledger, protocolId := some protocolId }

def beginTurn (bus : ToolBus E) : ToolBus E := { bus with callsThisTurn := 0 }

def toolNames (bus : ToolBus E) : List String := bus.registry.names

/-! ## Gates -/

/-- What the authorization hook is shown of a call to `spec`. -/
def authContext (base : AuthBase) (call : ToolCall) (spec : ToolSpec) : AuthContext where
  base := base
  tool := call.name
  requiredScope := spec.requiredScope
  readOnly := spec.readOnly

def authorizeCall (bus : ToolBus E) (base : AuthBase) (call : ToolCall) (s : Shared E) :
    Except ToolError Unit × Shared E :=
  match validateToolName call.name with
  | .error e => (.error e, s)
  | .ok () =>
    match bus.registry.lookup call.name with
    | none => (.error (.unknownTool call.name), s)
    | some spec =>
      if call.arguments.length > maxToolArgumentsBytes then
        (.error (.argumentsTooLarge maxToolArgumentsBytes call.arguments.length), s)
      else if base.level = .inspect ∧ spec.readOnly = false then
        (.error (.denied call.name "inspect tier is read-only; elevation required"), s)
      else
        match bus.authorizer with
        | none => (.error (.denied call.name "no authorizer installed (fail closed)"), s)
        | some authorizer =>
          let ctx := authContext base call spec
          match s.ask authorizer ctx (.authorize ctx) with
          | (.allow, s) => (.ok (), s)
          | (.deny reason, s) => (.error (ToolError.normalized (.denied call.name reason)), s)

def consentQuery (principal : String) (base : AuthBase) (call : ToolCall) (spec : ToolSpec)
    (nowMs : Nat) : ConsentQuery where
  protocolId := principal
  agentInstance := base.agentInstanceId
  tool := call.name
  scope := spec.requiredScope
  nowMs := nowMs

/-- Rust `ToolBus::check_consent`, through `ensure_consented_for_dispatch`. -/
def checkConsent (bus : ToolBus E) (call : ToolCall) (base : AuthBase) (nowMs : Nat)
    (s : Shared E) : Except ToolError Unit × Shared E :=
  match bus.consent, bus.protocolId with
  | some ledger, some principal =>
    match bus.registry.lookup call.name with
    | none => (.error (.unknownTool call.name), s)
    | some spec =>
      let query := consentQuery principal base call spec nowMs
      match s.ask ledger query (.consent query) with
      | (.allow, s) => (.ok (), s)
      | (.deny reason, s) => (.error (consentDenial query reason), s)
  | _, _ =>
    (.error (ToolError.normalized
      (.denied call.name "no consent ledger installed (fail closed)")), s)

/-- The `authorize_call` loop of `precheck`, first failure first. -/
def authorizeAll (bus : ToolBus E) (base : AuthBase) :
    List ToolCall → Shared E → Except ToolError Unit × Shared E
  | [], s => (.ok (), s)
  | call :: rest, s =>
    match bus.authorizeCall base call s with
    | (.error e, s) => (.error e, s)
    | (.ok (), s) => authorizeAll bus base rest s

def precheck (bus : ToolBus E) (calls : List ToolCall) (base : AuthBase) (configuredLimit : Nat)
    (s : Shared E) : Except ToolError Unit × Shared E :=
  match bus.authorizeAll base calls s with
  | (.error e, s) => (.error e, s)
  | (.ok (), s) =>
    let effectiveLimit := min configuredLimit maxToolCallsPerTurn
    if calls.length + bus.callsThisTurn > effectiveLimit then
      (.error (.callLimitExceeded effectiveLimit), s)
    else (.ok (), s)

def narrowingOmits (allowed : Option (List String)) (tool : String) : Bool :=
  match allowed with
  | none => false
  | some list => !list.contains tool

def narrowingDenial (tool : String) : ToolError :=
  ToolError.normalized (.denied tool s!"tool '{tool}' omitted by per-call narrowing")

def precheckNarrowed (bus : ToolBus E) (calls : List ToolCall) (base : AuthBase)
    (configuredLimit : Nat) (allowed : Option (List String)) (s : Shared E) :
    Except ToolError Unit × Shared E :=
  match calls.find? fun call => narrowingOmits allowed call.name with
  | some call => (.error (narrowingDenial call.name), s)
  | none => bus.precheck calls base configuredLimit s

/-! ## Outcomes -/

def refused (id : ExecutionId) (call : ToolCall) (cause : ToolError) : ToolExecution where
  executionId := id
  tool := call.name
  status := .refused cause
  resultDisposition := .accepted
  summary := "refused before dispatch"
  data := []
  isUntrustedSurface := false

def resultRejected (id : ExecutionId) (call : ToolCall) (cause : ToolError) : ToolExecution where
  executionId := id
  tool := call.name
  status := .success
  resultDisposition := .rejected cause
  summary := "executed; result rejected by bus"
  data := []
  isUntrustedSurface := true

/-- The records without a payload: `ack_loss` and the three reported failures. -/
def withoutPayload (id : ExecutionId) (call : ToolCall) (status : ToolStatus) (summary : String) :
    ToolExecution where
  executionId := id
  tool := call.name
  status := status
  resultDisposition := .accepted
  summary := summary
  data := []
  isUntrustedSurface := true

/-- How `dispatch` maps what the executor returned. -/
def executionOf (id : ExecutionId) (call : ToolCall) :
    Except ToolError ToolSuccess → Except ToolError ToolExecution
  | .ok success =>
    if success.summary.utf8ByteSize > maxSummaryBytes then
      .ok (resultRejected id call (.summaryTooLarge maxSummaryBytes success.summary.utf8ByteSize))
    else if success.data.length > maxToolResultBytes then
      .ok (resultRejected id call (.resultTooLarge maxToolResultBytes success.data.length))
    else
      .ok { executionId := id, tool := call.name, status := .success,
            resultDisposition := .accepted, summary := success.summary, data := success.data,
            isUntrustedSurface := true }
  | .error (.effectUnknown _ reason) =>
    .ok (withoutPayload id call (.unknown (boundReason reason))
      "effect uncertain; reconcile before retry")
  | .error (.denied _ reason) =>
    .ok (withoutPayload id call (.denied (boundReason reason)) "host denied execution")
  | .error (.failed _ reason) =>
    .ok (withoutPayload id call (.failed (boundReason reason)) "host reported failure")
  | .error (.protocolRejected _ reason) =>
    .ok (withoutPayload id call (.failed (boundReason reason))
      "protocol rejected before execution")
  | .error e => .error e

/-! ## Dispatch -/

/-- The usage row `observe_dispatch` records for an execution. -/
def usageRow (bus : ToolBus E) (call : ToolCall) (base : AuthBase) (nowMs : Nat)
    (execution : ToolExecution) : UsageEvent :=
  let spec := bus.registry.lookup call.name
  { executionId := execution.executionId
    tool := call.name
    scope := (spec.map (·.requiredScope)).getD ""
    protocolId := bus.protocolId.getD ""
    caller := base
    occurredAtMs := nowMs
    site := ⟨spec.bind (·.placement), none, none⟩
    status := execution.status
    resultDisposition := execution.resultDisposition
    reason := statusReason execution.status
    argsDigest := argsDigest call.arguments }

def observeDispatch (bus : ToolBus E) (call : ToolCall) (base : AuthBase) (nowMs : Nat)
    (execution : ToolExecution) : ToolBus E :=
  { bus with usage := bus.usage.push (bus.usageRow call base nowMs execution) }

def refuse (bus : ToolBus E) (call : ToolCall) (base : AuthBase) (id : ExecutionId) (nowMs : Nat)
    (cause : ToolError) : Except ToolError ToolExecution × ToolBus E :=
  (.ok (refused id call cause), bus.observeDispatch call base nowMs (refused id call cause))

def dispatch (bus : ToolBus E) (executor : ToolExecutor E) (call : ToolCall) (base : AuthBase)
    (id : ExecutionId) (nowMs : Nat) (s : Shared E) :
    (Except ToolError ToolExecution × ToolBus E) × Shared E :=
  match bus.authorizeCall base call s with
  | (.error cause, s) => (bus.refuse call base id nowMs cause, s)
  | (.ok (), s) =>
    match bus.checkConsent call base nowMs s with
    | (.error cause, s) => (bus.refuse call base id nowMs cause, s)
    | (.ok (), s) =>
      if bus.callsThisTurn ≥ maxToolCallsPerTurn then
        (bus.refuse call base id nowMs (.callLimitExceeded maxToolCallsPerTurn), s)
      else
        let ctx : ExecutionContext := ⟨id, nowMs⟩
        match s.ask executor (call, ctx) (.execute call ctx) with
        | (outcome, s) =>
          let bus := { bus with callsThisTurn := bus.callsThisTurn + 1 }
          match executionOf id call outcome with
          | .ok execution => ((.ok execution, bus.observeDispatch call base nowMs execution), s)
          | .error e => ((.error e, bus), s)

def dispatchNarrowed (bus : ToolBus E) (executor : ToolExecutor E) (call : ToolCall)
    (base : AuthBase) (id : ExecutionId) (nowMs : Nat) (allowed : Option (List String))
    (s : Shared E) : (Except ToolError ToolExecution × ToolBus E) × Shared E :=
  if narrowingOmits allowed call.name then
    (bus.refuse call base id nowMs (narrowingDenial call.name), s)
  else bus.dispatch executor call base id nowMs s

end ToolBus

end BittyAi.Runtime
