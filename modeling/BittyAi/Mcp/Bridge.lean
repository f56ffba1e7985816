/-
BittyAi.Mcp.Bridge — `McpToolAdapter` of `bitty-ai-mcp/src/bridge.rs`: the gates
of one execution and the mapping of a call's outcome onto the executor seam.

The adapter's own authorizer and ledger may keep a state; they are functions of
the number of questions asked before.
-/
import BittyAi.Mcp.Tools

namespace BittyAi.Mcp

open BittyAi.Runtime

structure McpAdapterParams where
  protocolId : String
  base : AuthBase
  cwd : String
  timeoutMs : Nat

structure McpToolAdapter where
  serverId : String
  tools : List ImportedTool
  wire : Wire
  authorizer : Nat → AuthContext → AuthDecision
  consent : Nat → ConsentQuery → ConsentDecision
  asked : Nat
  params : McpAdapterParams
  nextId : Nat
  listVersion : Nat
  listStale : Bool
  protocolPin : Option InitializeResult := none

namespace McpToolAdapter

def markStale (adapter : McpToolAdapter) : McpToolAdapter :=
  { adapter with listVersion := min (adapter.listVersion + 1) (u64Space - 1), listStale := true }

def observeNotification (adapter : McpToolAdapter) (line : Text) : Panicking McpToolAdapter := do
  if ← isToolsListChangedNotification line then pure adapter.markStale else pure adapter

def lookup (adapter : McpToolAdapter) (tool : String) : Option ImportedTool :=
  adapter.tools.find? (·.spec.name = tool)

def narrowingOmits (allowed : Option (List String)) (tool : String) : Bool :=
  match allowed with
  | none => false
  | some list => !list.contains tool

def deny (tool reason : String) : ToolError := ToolError.normalized (.denied tool reason)

def failed (tool reason : String) : ToolError := ToolError.normalized (.failed tool reason)

def protocolRejected (tool : String) (code : Int) (message : String) : ToolError :=
  ToolError.normalized
    (.protocolRejected tool s!"protocol rejected before execution (code {code}): {message}")

def consulted (adapter : McpToolAdapter) (entry : ImportedTool) (tool : String) (nowMs : Nat) :
    Except ToolError Unit × McpToolAdapter :=
  let context : AuthContext :=
    ⟨adapter.params.base, tool, entry.spec.requiredScope, entry.spec.readOnly⟩
  match adapter.authorizer adapter.asked context with
  | .deny reason =>
    (.error (deny tool s!"authorizer denied: {reason}"),
      { adapter with asked := adapter.asked + 1 })
  | .allow =>
    let query : ConsentQuery :=
      ⟨adapter.params.protocolId, adapter.params.base.agentInstanceId, tool,
        entry.spec.requiredScope, nowMs⟩
    match adapter.consent (adapter.asked + 1) query with
    | .deny reason =>
      (.error (consentDenial query reason), { adapter with asked := adapter.asked + 2 })
    | .allow => (.ok (), { adapter with asked := adapter.asked + 2 })

/-- The gates of `execute_inner` before the transport is touched. -/
def gates (adapter : McpToolAdapter) (tool : String) (nowMs : Nat)
    (allowed : Option (List String)) : Except ToolError ImportedTool × McpToolAdapter :=
  if adapter.listStale then (.error (deny tool "tool list stale; re-list required"), adapter)
  else if narrowingOmits allowed tool then
    (.error (deny tool s!"tool '{tool}' omitted by per-call narrowing"), adapter)
  else
    match adapter.lookup tool with
    | none =>
      let server := adapter.serverId
      (.error (deny tool s!"tool '{tool}' is not an allowlisted import of '{server}'"), adapter)
    | some entry =>
      if adapter.params.base.level = .inspect ∧ entry.spec.readOnly = false then
        (.error (deny tool "inspect tier is read-only; elevation required"), adapter)
      else
        match adapter.consulted entry tool nowMs with
        | (.error e, adapter) => (.error e, adapter)
        | (.ok (), adapter) => (.ok entry, adapter)

def seamOutcome (tool : String) : Except McpCallError ToolSuccess → Except ToolError ToolSuccess
  | .ok success => .ok success
  | .error (.transport _) =>
    .error (.effectUnknown tool "transport failed mid-call; reconcile before retry")
  | .error (.argumentsTooLarge limit actual) => .error (.argumentsTooLarge limit actual)
  | .error (.resultRejected limit actual) => .error (.resultTooLarge limit actual)
  | .error (.failed _ reason) => .error (failed tool s!"tool reported failure: {reason}")
  | .error (.protocolRejected _ code message) => .error (protocolRejected tool code message)
  | .error (.unknown _ reason) => .error (.effectUnknown tool reason)

def executeInner (adapter : McpToolAdapter) (tool : String) (arguments : List UInt8)
    (nowMs : Nat) (allowed : Option (List String)) :
    Panicking (Except ToolError ToolSuccess × McpToolAdapter) :=
  match adapter.gates tool nowMs allowed with
  | (.error e, adapter) => .ok (.error e, adapter)
  | (.ok entry, adapter) => do
    let id := max adapter.nextId 2
    let adapter := { adapter with nextId := max ((id + 1) % u64Space) 2 }
    let called ← callTool adapter.wire id entry.rawName tool arguments adapter.params.cwd
      adapter.params.timeoutMs
    let adapter ← called.surfaced.foldlM observeNotification { adapter with wire := called.wire }
    pure (seamOutcome tool called.outcome, adapter)

def execute (adapter : McpToolAdapter) (tool : String) (arguments : List UInt8) (nowMs : Nat) :
    Panicking (Except ToolError ToolSuccess × McpToolAdapter) :=
  adapter.executeInner tool arguments nowMs none

end McpToolAdapter

end BittyAi.Mcp
