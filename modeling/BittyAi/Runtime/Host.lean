/-
BittyAi.Runtime.Host — the seam between the runtime and the host code behind its traits.

Every trait object of the turn loop (`ModelProvider`, `ToolAuthorizer`, `ConsentLedger`,
`ToolExecutor`, `StreamSink`, `UnknownReconciler`) is a `Hook`: a function of the host's own
state, the session it may hold a handle of, and the argument. Besides its value a call may
change the host state, act on the shared session and draw ids from the process-wide counter.
Nothing else is assumed of a host.

Each call is logged with the session before and after it, next to two marks the loop itself
leaves: an attributed execution, and a settled one.
-/
import BittyAi.Runtime.Provider

namespace BittyAi.Runtime

inductive ReconcileStatus where
  | resolved (status : ToolStatus)
  | pending (reason : String)

/-! ## The log -/

inductive Event where
  | complete (request : TurnRequest) (answer : Except ProviderError ProviderTurn)
  | authorize (ctx : AuthContext) (decision : AuthDecision)
  | consent (query : ConsentQuery) (decision : ConsentDecision)
  | execute (call : ToolCall) (ctx : ExecutionContext) (answer : Except ToolError ToolSuccess)
  | emit (chunk : StreamChunk) (answer : Except StreamError Unit)
  | reconcile (tool : String) (id : ExecutionId) (nowMs : Nat) (answer : ReconcileStatus)
  | attributed (record : ExecutionRecord)
  | settled (id : ExecutionId)

structure Contact where
  event : Event
  before : AgentSession
  after : AgentSession

/-! ## Hooks -/

structure Reply (E β : Type) where
  value : β
  env : E
  acts : List SessionAct
  minted : Nat

abbrev Hook (E α β : Type) := E → AgentSession → α → Reply E β

/-- What the runtime shares with the host: the session, the host's own state and
the process-wide id counter, with the log of what happened between them. -/
structure Shared (E : Type) where
  session : AgentSession
  env : E
  lastId : Nat
  log : List Contact

variable {E α β : Type}

namespace Shared

/-- Call a hook; `event` says how the answer is logged. -/
def ask (s : Shared E) (hook : Hook E α β) (arg : α) (event : β → Event) : β × Shared E :=
  let reply := hook s.env s.session arg
  let session := s.session.acts reply.acts
  (reply.value,
    { session := session
      env := reply.env
      lastId := s.lastId + reply.minted
      log := s.log ++ [⟨event reply.value, s.session, session⟩] })

def issueExecution (s : Shared E) : ExecutionId × Shared E :=
  (⟨s.lastId + 1⟩, { s with lastId := s.lastId + 1 })

end Shared

/-! ## Kinds of hosts -/

def Hook.NeverFinishes (hook : Hook E α β) : Prop :=
  ∀ (env : E) (session : AgentSession) (arg : α) (failed : Bool),
    SessionAct.finish failed ∉ (hook env session arg).acts

def Hook.KeepsState (hook : Hook E α β) : Prop :=
  ∀ (env : E) (session : AgentSession) (arg : α),
    (session.acts (hook env session arg).acts).state = session.state

end BittyAi.Runtime
