/-
BittyAi.Runtime.Tool — tool declarations, calls, outcomes and the usage ring of
`bitty-ai-runtime/src/tool.rs`, with the outbound-reason policy and the consent vocabulary
of `bridge.rs` they rest on.
-/
import BittyAi.Runtime.ArtifactStore
import BittyAi.Runtime.Session

namespace BittyAi.Runtime

open Lib

/-! ## Bounds -/

def maxReasonBytes : Nat := 512
def maxToolNameLen : Nat := 64
def maxToolDescriptionLen : Nat := 512
def maxToolSchemaBytes : Nat := 16 * 1024
def maxToolsPerSession : Nat := 32
def maxToolCallsPerTurn : Nat := 8
def maxToolArgumentsBytes : Nat := 16 * 1024
def maxToolResultBytes : Nat := 16 * 1024
def maxNativePlacementBytes : Nat := 512
def maxUsageEvents : Nat := 32

/-! ## Outbound reasons -/

/-- Printable ASCII is kept, everything else becomes `?`. -/
def scrubChar (c : Char) : Char :=
  if 0x20 ≤ c.toNat ∧ c.toNat ≤ 0x7e then c else '?'

/-- Every pushed character is one byte, so stopping at the byte bound keeps that many characters. -/
def boundReason (reason : String) : String :=
  String.ofList ((reason.toList.take maxReasonBytes).map scrubChar)

/-! ## Errors -/

inductive ToolError where
  | invalidName (name : String)
  | unknownTool (name : String)
  | duplicateTool (name : String)
  | argumentsTooLarge (limit actual : Nat)
  | resultTooLarge (limit actual : Nat)
  | summaryTooLarge (limit actual : Nat)
  | callLimitExceeded (limit : Nat)
  | registryFull (limit : Nat)
  | descriptionTooLarge (limit actual : Nat)
  | schemaTooLarge (limit actual : Nat)
  | undeclaredPlacement (name : String)
  | denied (name reason : String)
  | failed (name reason : String)
  | protocolRejected (name reason : String)
  | effectUnknown (name reason : String)
  deriving DecidableEq

def ToolError.display : ToolError → String
  | .invalidName name => s!"invalid tool name: {name}"
  | .unknownTool name => s!"unknown tool: {name}"
  | .duplicateTool name => s!"duplicate tool: {name}"
  | .argumentsTooLarge limit actual =>
    s!"tool arguments of {actual} bytes exceed {limit} byte limit"
  | .resultTooLarge limit actual => s!"tool result of {actual} bytes exceeds {limit} byte limit"
  | .summaryTooLarge limit actual => s!"tool summary of {actual} bytes exceeds {limit} byte limit"
  | .callLimitExceeded limit => s!"tool call limit of {limit} per turn exceeded"
  | .registryFull limit => s!"tool registry full at {limit} tools"
  | .descriptionTooLarge limit actual =>
    s!"tool description of {actual} bytes exceeds {limit} byte limit"
  | .schemaTooLarge limit actual => s!"tool schema of {actual} bytes exceeds {limit} byte limit"
  | .undeclaredPlacement name => s!"undeclared tool placement: {name}"
  | .denied name reason => s!"tool {name} denied: {reason}"
  | .failed name reason => s!"tool {name} failed: {reason}"
  | .protocolRejected name reason => s!"tool {name} protocol rejected: {reason}"
  | .effectUnknown name reason => s!"tool {name} effect unknown: {reason}"

def ToolError.normalized : ToolError → ToolError
  | .invalidName name => .invalidName (boundReason name)
  | .unknownTool name => .unknownTool (boundReason name)
  | .duplicateTool name => .duplicateTool (boundReason name)
  | .undeclaredPlacement name => .undeclaredPlacement (boundReason name)
  | .denied name reason => .denied (boundReason name) (boundReason reason)
  | .failed name reason => .failed (boundReason name) (boundReason reason)
  | .protocolRejected name reason => .protocolRejected (boundReason name) (boundReason reason)
  | .effectUnknown name reason => .effectUnknown (boundReason name) (boundReason reason)
  | e => e

/-! ## Declarations -/

/-- The `^[a-z][a-z0-9_.-]*$` shape of at most 64 bytes. -/
def toolNameShape (name : String) : Bool :=
  !name.isEmpty && decide (name.utf8ByteSize ≤ maxToolNameLen) &&
    (utf8Bytes name).head?.any (fun b => 0x61 ≤ b && b ≤ 0x7a) &&
    (utf8Bytes name).all fun b =>
      (0x61 ≤ b && b ≤ 0x7a) || (0x30 ≤ b && b ≤ 0x39) || b == 0x5f || b == 0x2e || b == 0x2d

def validateToolName (name : String) : Except ToolError Unit :=
  if toolNameShape name then .ok () else .error (.invalidName (boundReason name))

inductive ToolPlacement where
  | mcp
  | native
  deriving DecidableEq

structure NativePlacement where
  reason : String
  backend : String
  deriving DecidableEq

structure ToolSpec where
  name : String
  description : String
  schemaJson : List UInt8
  requiredScope : String
  readOnly : Bool
  placement : Option ToolPlacement
  native : Option NativePlacement
  deriving DecidableEq

def validatePlacement (name : String) (placement : Option ToolPlacement)
    (native : Option NativePlacement) : Except ToolError Unit :=
  match placement, native with
  | some .mcp, none => .ok ()
  | some .native, some detail =>
    if !detail.reason.isEmpty ∧ !detail.backend.isEmpty ∧
        detail.reason.utf8ByteSize ≤ maxNativePlacementBytes ∧
        detail.backend.utf8ByteSize ≤ maxNativePlacementBytes then .ok ()
    else .error (.undeclaredPlacement name)
  | _, _ => .error (.undeclaredPlacement name)

/-- The checks `ToolRegistry::register` makes of the declaration itself. -/
def ToolSpec.check (spec : ToolSpec) : Except ToolError Unit :=
  match validateToolName spec.name with
  | .error e => .error e
  | .ok () =>
    if spec.description.utf8ByteSize > maxToolDescriptionLen then
      .error (.descriptionTooLarge maxToolDescriptionLen spec.description.utf8ByteSize)
    else if spec.schemaJson.length > maxToolSchemaBytes then
      .error (.schemaTooLarge maxToolSchemaBytes spec.schemaJson.length)
    else validatePlacement spec.name spec.placement spec.native

/-- What `register` keeps true of the registered declarations. -/
structure RegistryWf (specs : List ToolSpec) : Prop where
  distinct : (specs.map (·.name)).Nodup
  checked : ∀ spec ∈ specs, spec.check = .ok ()
  cap : specs.length ≤ maxToolsPerSession

structure ToolRegistry where
  specs : List ToolSpec
  wf : RegistryWf specs

namespace ToolRegistry

def new : ToolRegistry where
  specs := []
  wf := ⟨List.nodup_nil, by simp, Nat.zero_le _⟩

theorem wf_push {specs : List ToolSpec} (wf : RegistryWf specs) {spec : ToolSpec}
    (hnew : spec.name ∉ specs.map (·.name)) (hcheck : spec.check = .ok ())
    (hroom : specs.length < maxToolsPerSession) : RegistryWf (specs ++ [spec]) where
  distinct := by
    rw [List.map_append, List.map_singleton, ← List.concat_eq_append]
    exact wf.distinct.concat hnew
  checked := by
    intro s hs
    rcases List.mem_append.mp hs with hs | hs
    · exact wf.checked s hs
    · rw [List.mem_singleton.mp hs, hcheck]
  cap := by simpa using hroom

def register (r : ToolRegistry) (spec : ToolSpec) : Except ToolError Unit × ToolRegistry :=
  if hnew : spec.name ∈ r.specs.map (·.name) then (.error (.duplicateTool spec.name), r)
  else
    match hcheck : spec.check with
    | .error e => (.error e, r)
    | .ok () =>
      if hroom : r.specs.length < maxToolsPerSession then
        (.ok (), ⟨r.specs ++ [spec], wf_push r.wf hnew hcheck hroom⟩)
      else (.error (.registryFull maxToolsPerSession), r)

def lookup (r : ToolRegistry) (name : String) : Option ToolSpec := r.specs.find? (·.name == name)

def names (r : ToolRegistry) : List String := r.specs.map (·.name)

end ToolRegistry

/-! ## Calls and gates -/

structure AuthBase where
  agentInstanceId : AgentInstanceId
  sessionId : SessionId
  level : AgentLevel

structure AuthContext where
  base : AuthBase
  tool : String
  requiredScope : String
  readOnly : Bool

inductive AuthDecision where
  | allow
  | deny (reason : String)

structure ConsentQuery where
  protocolId : String
  agentInstance : AgentInstanceId
  tool : String
  scope : String
  nowMs : Nat

inductive ConsentDecision where
  | allow
  | deny (reason : String)
  deriving DecidableEq

/-- The refusal `ensure_consented_for_dispatch` reports for a ledger denial: the
`Display` text of `BridgeError::ConsentDenied` behind the shared wording. -/
def consentDenial (query : ConsentQuery) (reason : String) : ToolError :=
  let tool := boundReason query.tool
  let text := boundReason reason
  ToolError.normalized
    (.denied (boundReason query.tool)
      (boundReason s!"consent denied: consent denied for '{tool}': {text}"))

structure ToolCall where
  name : String
  arguments : List UInt8
  deriving DecidableEq

structure ExecutionContext where
  executionId : ExecutionId
  nowMs : Nat

/-! ## Outcomes -/

inductive ToolStatus where
  | success
  | failed (reason : String)
  | denied (reason : String)
  | refused (cause : ToolError)
  | unknown (reason : String)

namespace ToolStatus

/-- The `matches!(status, Unknown)` of the agent. -/
def isAckLoss : ToolStatus → Bool
  | .unknown _ => true
  | _ => false

def normalized : ToolStatus → ToolStatus
  | .failed reason => .failed (boundReason reason)
  | .denied reason => .denied (boundReason reason)
  | .unknown reason => .unknown (boundReason reason)
  | .refused cause => .refused cause.normalized
  | .success => .success

end ToolStatus

inductive ResultDisposition where
  | accepted
  | rejected (cause : ToolError)

structure ToolSuccess where
  summary : String
  data : List UInt8
  deriving DecidableEq

def ToolSuccess.new (summary : String) (data : List UInt8) : Except ToolError ToolSuccess :=
  if summary.utf8ByteSize > maxSummaryBytes then
    .error (.summaryTooLarge maxSummaryBytes summary.utf8ByteSize)
  else if data.length > maxToolResultBytes then
    .error (.resultTooLarge maxToolResultBytes data.length)
  else .ok ⟨summary, data⟩

structure ToolExecution where
  executionId : ExecutionId
  tool : String
  status : ToolStatus
  resultDisposition : ResultDisposition
  summary : String
  data : List UInt8
  isUntrustedSurface : Bool

/-- Rust `ExecutionRecord` of `agent.rs`: one attributed dispatch. -/
structure ExecutionRecord where
  executionId : ExecutionId
  tool : String
  status : ToolStatus
  resultDisposition : ResultDisposition

/-! ## The usage ring -/

structure UsageSite where
  placement : Option ToolPlacement
  serverId : Option String
  taskId : Option String

structure UsageEvent where
  executionId : ExecutionId
  tool : String
  scope : String
  protocolId : String
  caller : AuthBase
  occurredAtMs : Nat
  site : UsageSite
  status : ToolStatus
  resultDisposition : ResultDisposition
  reason : String
  argsDigest : UInt64

def argsDigest (args : List UInt8) : UInt64 :=
  args.foldl (fun hash byte => (hash ^^^ byte.toUInt64) * 0x100000001b3) 0xcbf29ce484222325

def boundLabel (label : Option String) : Option String :=
  match label with
  | some text => if (boundReason text).isEmpty then none else some (boundReason text)
  | none => none

/-- What `push_usage` stores of an event. -/
def UsageEvent.bounded (event : UsageEvent) : UsageEvent :=
  { event with
    tool := boundReason event.tool
    scope := boundReason event.scope
    protocolId := boundReason event.protocolId
    status := event.status.normalized
    reason := boundReason event.reason
    site := { event.site with
      serverId := boundLabel event.site.serverId
      taskId := boundLabel event.site.taskId } }

structure UsageRing where
  rows : List UsageEvent
  bounded : rows.length ≤ maxUsageEvents

def UsageRing.new : UsageRing := ⟨[], Nat.zero_le _⟩

/-- Rust `ToolBus::push_usage`: a full ring drops its oldest row. -/
def UsageRing.push (ring : UsageRing) (event : UsageEvent) : UsageRing where
  rows := (if ring.rows.length ≥ maxUsageEvents then ring.rows.tail else ring.rows) ++
    [event.bounded]
  bounded := by
    have := ring.bounded
    split <;> simp [maxUsageEvents] at * <;> omega

def statusReason : ToolStatus → String
  | .success => ""
  | .failed reason => boundReason reason
  | .denied reason => boundReason reason
  | .unknown reason => boundReason reason
  | .refused cause => boundReason cause.display

end BittyAi.Runtime
