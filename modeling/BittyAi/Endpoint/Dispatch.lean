/-
BittyAi.Endpoint.Dispatch — the six gates and the tool arm of
`bitty-ai-endpoint/src/lib.rs`.

`IpcApi` is what the endpoint takes from `bitty_ipc_api`, of which nothing is assumed.

The registry, the consent vocabulary, the narrowing predicate and the reason policy of
`bitty-ai-host/src/tool_dispatch.rs` mirror the runtime's, so the runtime's definitions are
used.
-/
import BittyAi.Endpoint.Json
import BittyAi.Lib.JsonText
import BittyAi.Runtime.ToolBus

namespace BittyAi.Endpoint

open Lib
open BittyAi.Runtime (AgentInstanceId AgentLevel ConsentQuery ConsentDecision ToolCall ToolError
  ToolRegistry ToolSuccess argsDigest boundReason maxSummaryBytes maxToolArgumentsBytes
  maxToolResultBytes validateToolName)
open BittyAi.Runtime.ToolBus (narrowingOmits)

/-! ## Gates -/

inductive Scope where
  | aiInvoke
  | other (label : String)
  deriving DecidableEq

/-- What the endpoint calls in `bitty_ipc_api`, over its scope sets `S`, ledgers `L` and ledger
records `G`. -/
structure IpcApi (S L G : Type) where
  authorizeMethod : String → S → Except IpcError Scope
  scopeText : Scope → String
  inspect : L → String → Scope → Option G
  isExpired : G → Nat → Bool
  validateDomainTimeout : Nat → Except IpcError Unit
  domainDeadlineMs : Nat → Nat → Nat
  validateAiParams : String → List UInt8 → Except IpcError Unit
  maxJsonDepth : Nat
  maxSchemaToolNameBytes : Nat
  maxSchemaAllowed : Nat

structure DispatchInput (S L : Type) where
  method : String
  requestId : Nat
  granted : S
  ledger : L
  clientId : String
  nowMs : Nat
  createdAtMs : Nat
  timeoutMs : Nat
  params : List UInt8

inductive DispatchOutcome where
  | refused (error : IpcError)
  | notWired (method : String) (scope : Scope)
  | ready (method : String) (scope : Scope) (result : String)
  deriving DecidableEq

variable {S L G E : Type}

def runGates (api : IpcApi S L G) (input : DispatchInput S L) : Except IpcError Scope := do
  let required ← api.authorizeMethod input.method input.granted
  let live := (api.inspect input.ledger input.clientId required).any fun grant =>
    !api.isExpired grant input.nowMs
  refuseIf (live = false) (.scopeDenied (api.scopeText required) input.method)
  api.validateDomainTimeout input.timeoutMs
  refuseIf (input.nowMs ≥ api.domainDeadlineMs input.createdAtMs input.timeoutMs)
    (.timeout input.requestId input.timeoutMs)
  api.validateAiParams input.method input.params
  pure required

/-! ## Decoding -/

def correlatorField : String := "snapshot_version"

def correlatorOf (top : JVal) (method : String) : Except IpcError (Option Nat) := do
  let occurrences := (top.asObj.getD []).countP fun member => member.1 == correlatorField
  refuseIf (occurrences > 1)
    (decodeInvalid s!"{method} params: field '{correlatorField}' duplicated")
  match top.field correlatorField with
  | none => pure none
  | some value =>
    match value.asU64 with
    | some version => pure (some version)
    | none =>
      .error (decodeInvalid s!"{method} params: field '{correlatorField}' must be an integer")

def reqField (top : JVal) (method name : String) : Except IpcError JVal :=
  match top.field name with
  | some value => .ok value
  | none => .error (decodeInvalid s!"{method} params: missing required field '{name}'")

def reqStrField (top : JVal) (method name : String) : Except IpcError String := do
  let value ← reqField top method name
  match value.asStr with
  | some text => pure text
  | none => .error (decodeInvalid s!"{method} params: field '{name}' must be a string")

def reqU64Field (top : JVal) (method name : String) : Except IpcError Nat := do
  let value ← reqField top method name
  match value.asU64 with
  | some number => pure number
  | none => .error (decodeInvalid s!"{method} params: field '{name}' must be an integer")

/-- Rust `decode_request` for a method that has a decoder in `DECODE_TABLE`. -/
def decodeShaped {α : Type} (api : IpcApi S L G) (method : String)
    (decode : JVal → Except IpcError α) (params : List UInt8) : Except IpcError α := do
  refuseIf (params = []) (decodeInvalid "params must be a JSON object")
  let top ← parseParamsObject api.maxJsonDepth params
  let _ ← correlatorOf top method
  decode top

def toolMethod : String := "ai.tool_dispatch"

structure ToolDispatchParams where
  tool : String
  argsDigest : Nat
  agentInstanceId : Nat
  allowed : Option (List String)
  nowMs : Nat
  deriving DecidableEq

def decodeToolLevel (name : String) : Option AgentLevel :=
  if name = "inspect" then some .inspect
  else if name = "own" then some .own
  else if name = "workspace" then some .workspace
  else if name = "all" then some .all
  else none

def decodeAllowedEntry (api : IpcApi S L G) (entry : JVal) : Except IpcError String :=
  match entry with
  | .str text =>
    if text.isEmpty = false ∧ text.utf8ByteSize ≤ api.maxSchemaToolNameBytes then .ok text
    else .error (.limitExceeded "allowed" api.maxSchemaToolNameBytes text.utf8ByteSize)
  | _ => .error (decodeInvalid "ai.tool_dispatch params: allowed entries must be strings")

def decodeAllowed (api : IpcApi S L G) (top : JVal) : Except IpcError (Option (List String)) :=
  match top.field "allowed" with
  | none => .ok none
  | some value =>
    match value.asArr with
    | none => .error (decodeInvalid "ai.tool_dispatch params: field 'allowed' must be an array")
    | some names => do
      refuseIf (names.length > api.maxSchemaAllowed)
        (.limitExceeded "allowed" api.maxSchemaAllowed names.length)
      let out ← names.mapM (decodeAllowedEntry api)
      pure (some out)

/-- Rust `decode_tool_dispatch`. The session and the level of the caller are checked and dropped. -/
def decodeToolDispatch (api : IpcApi S L G) (top : JVal) : Except IpcError ToolDispatchParams := do
  let tool ← reqStrField top toolMethod "tool"
  refuseIf (tool.isEmpty = true ∨ tool.utf8ByteSize > api.maxSchemaToolNameBytes)
    (.limitExceeded "tool" api.maxSchemaToolNameBytes tool.utf8ByteSize)
  let digest ← reqU64Field top toolMethod "args_digest"
  let caller ← reqField top toolMethod "caller"
  refuseIf (caller.asObj.isNone = true)
    (decodeInvalid "ai.tool_dispatch params: field 'caller' must be an object")
  let agentInstanceId ← reqU64Field caller toolMethod "agent_instance_id"
  let _ ← reqU64Field caller toolMethod "session_id"
  let levelName ← reqStrField caller toolMethod "level"
  refuseIf (decodeToolLevel levelName = none)
    (decodeInvalid "ai.tool_dispatch params: field 'caller.level' not in closed vocabulary")
  let allowed ← decodeAllowed api top
  let nowMs ← reqU64Field top toolMethod "now_ms"
  pure { tool := tool, argsDigest := digest, agentInstanceId := agentInstanceId,
         allowed := allowed, nowMs := nowMs }

/-! ## The executor -/

structure Contact where
  call : ToolCall
  nowMs : Nat
  answer : Except ToolError ToolSuccess

/-- The host behind the executor; `contacts` is the history of the calls made of it. -/
structure ExecutorState (E : Type) where
  env : E
  contacts : List Contact

structure ToolView (E : Type) where
  executor : E → ToolCall → Nat → Except ToolError ToolSuccess × E
  arguments : List UInt8
  registry : ToolRegistry
  consent : ConsentQuery → ConsentDecision
  protocolId : String
  executionId : Nat

def ToolView.execute (view : ToolView E) (call : ToolCall) (nowMs : Nat) (s : ExecutorState E) :
    Except ToolError ToolSuccess × ExecutorState E :=
  let (answer, env) := view.executor s.env call nowMs
  (answer, { env := env, contacts := s.contacts ++ [⟨call, nowMs, answer⟩] })

/-! ## The handler -/

structure ConsentGrant where
  protocol : String
  tool : String
  scope : String
  expiresAtMs : Nat
  deriving DecidableEq

def ConsentGrant.covers (grant : ConsentGrant) (query : ConsentQuery) : Bool :=
  grant.protocol == query.protocolId && grant.tool == query.tool && grant.scope == query.scope &&
    decide (query.nowMs < grant.expiresAtMs)

def toolConsentRefusal (reason : String) : IpcError :=
  .denied "ToolConsent" (boundReason s!"consent denied: {reason}")

def toolNarrowingRefusal (tool : String) : IpcError :=
  .denied "ToolNarrowed" (boundReason s!"tool '{tool}' omitted by per-call narrowing")

def toolStatusVocab : ToolError → Option String
  | .denied _ _ => some "denied"
  | .failed _ _ | .protocolRejected _ _ => some "failed"
  | .effectUnknown _ _ => some "unknown"
  | .invalidName _ | .unknownTool _ | .duplicateTool _ | .argumentsTooLarge _ _
  | .resultTooLarge _ _ | .summaryTooLarge _ _ | .callLimitExceeded _ | .registryFull _
  | .descriptionTooLarge _ _ | .schemaTooLarge _ _ | .undeclaredPlacement _ => none

def toolOutcomeReason : ToolError → String
  | .denied _ reason | .failed _ reason | .protocolRejected _ reason | .effectUnknown _ reason =>
    boundReason reason
  | .invalidName _ | .unknownTool _ | .duplicateTool _ | .argumentsTooLarge _ _
  | .resultTooLarge _ _ | .summaryTooLarge _ _ | .callLimitExceeded _ | .registryFull _
  | .descriptionTooLarge _ _ | .schemaTooLarge _ _ | .undeclaredPlacement _ =>
    boundReason "tool executor returned an out-of-contract error"

def encodeToolResult (tool : String) (argsDigest executionId occurredAtMs : Nat)
    (status resultDisposition reason : String) : String :=
  "\x7b\"status\":" ++ jsonString status ++ ",\"result_disposition\":" ++
    jsonString resultDisposition ++ ",\"reason\":" ++ jsonString reason ++
    ",\"usage\":\x7b\"execution_id\":" ++ toString executionId ++ ",\"tool\":" ++
    jsonString tool ++ ",\"args_digest\":" ++ toString argsDigest ++ ",\"occurred_at_ms\":" ++
    toString occurredAtMs ++ "\x7d\x7d"

/-- The query `handle_tool_dispatch` asks of the consent ledger about the registered scope, at a
given time. -/
def consentQuery (view : ToolView E) (decoded : ToolDispatchParams) (scope : String)
    (nowMs : Nat) : ConsentQuery where
  protocolId := view.protocolId
  agentInstance := ⟨decoded.agentInstanceId⟩
  tool := decoded.tool
  scope := scope
  nowMs := nowMs

/-- The registry lookup of `handle_tool_dispatch`. -/
def lookupScope (view : ToolView E) (tool : String) : Except IpcError String :=
  match view.registry.lookup tool with
  | some spec => .ok spec.requiredScope
  | none => .error (.notFound "unknown tool")

/-- The consent check of `handle_tool_dispatch`. -/
def checkConsent (view : ToolView E) (query : ConsentQuery) : Except IpcError Unit :=
  match view.consent query with
  | .allow => .ok ()
  | .deny reason => .error (toolConsentRefusal reason)

/-- Rust `handle_tool_dispatch`, up to the call of the executor. -/
def toolAdmission (api : IpcApi S L G) (scope : Scope) (input : DispatchInput S L)
    (view : ToolView E) : Except IpcError ToolDispatchParams := do
  let decoded ← decodeShaped api toolMethod (decodeToolDispatch api) input.params
  refuseIf (view.arguments.length > maxToolArgumentsBytes)
    (.limitExceeded "args" maxToolArgumentsBytes view.arguments.length)
  refuseIf ((argsDigest view.arguments).toNat ≠ decoded.argsDigest)
    (decodeInvalid "ai.tool_dispatch params: args digest does not match arguments")
  refuseIf (scope ≠ .aiInvoke) (.internal "tool dispatch admitted outside ai.invoke")
  (validateToolName decoded.tool).mapError fun _ =>
    decodeInvalid "ai.tool_dispatch params: tool name has a bad shape"
  let requiredScope ← lookupScope view decoded.tool
  -- the time of the query is the one the params carry
  checkConsent view (consentQuery view decoded requiredScope decoded.nowMs)
  refuseIf (narrowingOmits decoded.allowed decoded.tool = true) (toolNarrowingRefusal decoded.tool)
  pure decoded

/-- Rust `handle_tool_dispatch`, from the answer of the executor on. -/
def toolAnswer (view : ToolView E) (decoded : ToolDispatchParams)
    (outcome : Except ToolError ToolSuccess) : Except IpcError String :=
  let encode := encodeToolResult decoded.tool decoded.argsDigest view.executionId decoded.nowMs
  match outcome with
  | .ok success =>
    if success.summary.utf8ByteSize > maxSummaryBytes then
      let cause := ToolError.summaryTooLarge maxSummaryBytes success.summary.utf8ByteSize
      .ok (encode "success" "rejected" (boundReason cause.display))
    else if success.data.length > maxToolResultBytes then
      let cause := ToolError.resultTooLarge maxToolResultBytes success.data.length
      .ok (encode "success" "rejected" (boundReason cause.display))
    else
      match fromUtf8? success.data with
      | none => .error (decodeInvalid "ai.tool_dispatch result: tool result is not UTF-8 text")
      | some _ => .ok (encode "success" "accepted" "")
  | .error error =>
    match toolStatusVocab error with
    | some status => .ok (encode status "accepted" (toolOutcomeReason error))
    | none => .error (.internal "tool executor returned an out-of-contract error")

def handleToolDispatch (api : IpcApi S L G) (scope : Scope) (input : DispatchInput S L)
    (view : ToolView E) (s : ExecutorState E) : Except IpcError String × ExecutorState E :=
  match toolAdmission api scope input view with
  | .error error => (.error error, s)
  | .ok decoded =>
    let (outcome, s) := view.execute ⟨decoded.tool, view.arguments⟩ decoded.nowMs s
    (toolAnswer view decoded outcome, s)

/-- Rust `dispatch_with_tools`. Every other method is answered by `dispatch_with_complete`, which
is not given the tool view; `complete` is its outcome. -/
def dispatchWithTools (api : IpcApi S L G) (input : DispatchInput S L) (complete : DispatchOutcome)
    (view : ToolView E) (s : ExecutorState E) : DispatchOutcome × ExecutorState E :=
  if input.method ≠ toolMethod then (complete, s)
  else
    match runGates api input with
    | .error error => (.refused error, s)
    | .ok scope =>
      match handleToolDispatch api scope input view s with
      | (.ok result, s) => (.ready input.method scope result, s)
      | (.error error, s) => (.refused error, s)

end BittyAi.Endpoint
