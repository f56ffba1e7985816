/-
BittyAi.Runtime.Agent — the agent of `agent.rs`: its configuration, errors and
state, the prompt gate of `prompt.rs` in front of its dispatches, and the world
it shares with the host.

Every entry of a world's trace holds the agent as it stood when the host was
called.
-/
import BittyAi.Runtime.Observation
import BittyAi.Runtime.ToolBus

namespace BittyAi.Runtime

open Lib

/-! ## Configuration and outcomes -/

def defaultMaxRounds : Nat := 4
def maxExecutionsPerAgent : Nat := 32
def defaultMaxUnknownRetries : Nat := 3
def defaultReconcileBaseDelayMs : Nat := 100
def defaultReconcileMaxDelayMs : Nat := 5000

structure AgentConfig where
  maxRounds : Nat := defaultMaxRounds
  maxToolCallsPerTurn : Nat := maxToolCallsPerTurn
  contextBudgetBytes : Nat := defaultContextBudgetBytes
  contextWindowTokens : Option Nat := none
  providerTimeoutMs : Nat := defaultRequestTimeoutMs
  maxTurnCost : Option Nat := none
  inputCostWeight : Nat := 1
  outputCostWeight : Nat := 1
  maxUnknownRetries : Nat := defaultMaxUnknownRetries
  unknownReconcileBaseDelayMs : Nat := defaultReconcileBaseDelayMs
  unknownReconcileMaxDelayMs : Nat := defaultReconcileMaxDelayMs

def AgentConfig.effectiveBudgetBytes (config : AgentConfig) : Nat :=
  match config.contextWindowTokens with
  | some tokens =>
    if tokens > 0 then min config.contextBudgetBytes (tokens * bytesPerTokenEstimate)
    else config.contextBudgetBytes
  | none => config.contextBudgetBytes

def AgentConfig.roundCost (config : AgentConfig) (request : TurnRequest) (turn : ProviderTurn) :
    Nat :=
  estimateCost (roundUsage request turn).1 (roundUsage request turn).2
    (effectiveCostWeight config.inputCostWeight) (effectiveCostWeight config.outputCostWeight)

inductive AgentError where
  | provider (error : ProviderError)
  | context (error : ContextError)
  | tool (error : ToolError)
  | stream (error : StreamError)
  | session (error : SessionError)
  | roundLimitExceeded (limit : Nat)
  | costCeilingExceeded (limit actual : Nat)
  | unknownUnresolved (tool reason : String) (attempts dispatched : Nat)
  deriving DecidableEq

inductive ExecOutcome where
  | completed (text : String)
  | failed (error : AgentError)
  | canceled (dispatched unknown : Nat)
  | unknown (reason : String) (dispatched : Nat)
  deriving DecidableEq

/-! ## The prompt gate -/

structure AssembledPrompt where
  effectiveAllowedTools : Option (List String)
  effectiveDeniedTools : List String

/-- The refusals of `check_dispatch`, a part of Rust `PromptError`. -/
inductive DispatchError where
  | dispatcherDenied (tool : String)
  | promptDenied (tool : String)
  | promptNotAllowed (tool : String)

/-- The `Display` text of a dispatch refusal. -/
def DispatchError.display : DispatchError → String
  | .dispatcherDenied tool => s!"dispatcher denies tool '{tool}': prompt never grants"
  | .promptDenied tool => s!"prompt denies tool '{tool}'"
  | .promptNotAllowed tool => s!"prompt allow-set omits tool '{tool}'"

def checkDispatch (prompt : AssembledPrompt) (tool : String) (dispatcherGrants : Bool) :
    Except DispatchError Unit :=
  if dispatcherGrants = false then .error (.dispatcherDenied tool)
  else if tool ∈ prompt.effectiveDeniedTools then .error (.promptDenied tool)
  else
    match prompt.effectiveAllowedTools with
    | some allowed => if tool ∈ allowed then .ok () else .error (.promptNotAllowed tool)
    | none => .ok ()

def dispatchDenialCause (tool : String) (error : DispatchError) : ToolError :=
  ToolError.normalized (.denied tool error.display)

/-! ## The agent and its world -/

/-- Rust `Agent`. The session and the id counter are shared and live in the
`World`. -/
structure Agent (E : Type) where
  provider : Hook E TurnRequest (Except ProviderError ProviderTurn)
  tools : ToolBus E
  artifacts : ArtifactStore
  config : AgentConfig
  prompt : Option AssembledPrompt
  allowedTools : Option (List String)
  executions : List ExecutionRecord
  toolHistory : List ContextRecord
  pendingUnknown : List ExecutionRecord
  turnCost : Nat
  nextSeq : Nat
  lastAdvisory : Option DirectiveScreenFlags

structure Entry (E : Type) extends Contact where
  agent : Agent E

structure World (E : Type) where
  agent : Agent E
  session : AgentSession
  env : E
  lastId : Nat
  trace : List (Entry E)

variable {E α : Type}

def Agent.new (provider : Hook E TurnRequest (Except ProviderError ProviderTurn))
    (tools : ToolBus E) (config : AgentConfig) : Agent E where
  provider := provider
  tools := tools
  artifacts := .new
  config := config
  prompt := none
  allowedTools := none
  executions := []
  toolHistory := []
  pendingUnknown := []
  turnCost := 0
  nextSeq := 0
  lastAdvisory := none

def Agent.dispatcherGrants (agent : Agent E) (tool : String) : Bool :=
  agent.tools.toolNames.contains tool

def Agent.narrowingDenialForBatch (agent : Agent E) (calls : List ToolCall) :
    Option (String × ToolError) :=
  (calls.find? fun call => ToolBus.narrowingOmits agent.allowedTools call.name).map fun call =>
    (call.name, ToolBus.narrowingDenial call.name)

def Agent.promptGate (agent : Agent E) (call : ToolCall) : Except DispatchError Unit :=
  match agent.prompt with
  | none => .ok ()
  | some prompt => checkDispatch prompt call.name (agent.dispatcherGrants call.name)

def Agent.promptGateDenial (agent : Agent E) (calls : List ToolCall) :
    Option (String × ToolError) :=
  calls.findSome? fun call =>
    match agent.promptGate call with
    | .ok () => none
    | .error error => some (call.name, dispatchDenialCause call.name error)

def AgentSession.authBase (s : AgentSession) : AuthBase where
  agentInstanceId := s.agentInstanceId
  sessionId := s.sessionId
  level := s.level

namespace World

def new (provider : Hook E TurnRequest (Except ProviderError ProviderTurn))
    (tools : ToolBus E) (session : AgentSession) (config : AgentConfig) (env : E) (lastId : Nat) :
    World E where
  agent := .new provider tools config
  session := session
  env := env
  lastId := lastId
  trace := []

def share (w : World E) : Shared E := ⟨w.session, w.env, w.lastId, []⟩

def absorb (w : World E) (s : Shared E) : World E :=
  { w with
    session := s.session
    env := s.env
    lastId := s.lastId
    trace := w.trace ++ s.log.map fun contact => ⟨contact, w.agent⟩ }

def note (w : World E) (event : Event) : World E :=
  { w with trace := w.trace ++ [⟨⟨event, w.session, w.session⟩, w.agent⟩] }

end World

end BittyAi.Runtime
