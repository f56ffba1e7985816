/-
BittyAi.Runtime.Reconcile — what a host can do about an uncertain effect:
`Agent::reconcile_unknown` and `Agent::abandon_pending` of `agent.rs` with the
schedule of `reconcile.rs`, and the life of an agent as a list of host calls.

The two query loops of the source differ only in the list the record is read
from; `reconcileQueries` is the loop of both. A resolution and an abandonment
leave a `settled` mark in the trace.
-/
import BittyAi.Runtime.Turn

namespace BittyAi.Runtime

/-! ## The schedule -/

def maxReconcileAttempts : Nat := 16
def maxReconcileDelayMs : Nat := 30000

structure ReconcileConfig where
  maxUnknownRetries : Nat := defaultMaxUnknownRetries
  baseDelayMs : Nat := defaultReconcileBaseDelayMs
  maxDelayMs : Nat := defaultReconcileMaxDelayMs

def ReconcileConfig.effectiveRetries (config : ReconcileConfig) : Nat :=
  min config.maxUnknownRetries maxReconcileAttempts

def ReconcileConfig.effectiveMaxDelayMs (config : ReconcileConfig) : Nat :=
  min config.maxDelayMs maxReconcileDelayMs

def AgentConfig.reconcileConfig (config : AgentConfig) : ReconcileConfig where
  maxUnknownRetries := config.maxUnknownRetries
  baseDelayMs := config.unknownReconcileBaseDelayMs
  maxDelayMs := config.unknownReconcileMaxDelayMs

/-- The doubling loop of `reconcile_delay_ms`; it stops at the ceiling. -/
def doubleDelay (ceiling : Nat) : Nat → Nat → Nat
  | 0, delay => delay
  | left + 1, delay =>
    let doubled := min (satMul delay 2) ceiling
    if doubled ≥ ceiling then doubled else doubleDelay ceiling left doubled

def reconcileDelayMs (attempt baseDelayMs maxDelayMs : Nat) : Nat :=
  let ceiling := min maxDelayMs maxReconcileDelayMs
  min (doubleDelay ceiling (min attempt 30) (min baseDelayMs ceiling)) ceiling

def isReconcileTerminal : ToolStatus → Bool
  | .success => true
  | .failed _ => true
  | .denied _ => true
  | .refused _ => true
  | .unknown _ => false

structure UnknownEscalation where
  tool : String
  reason : String
  attempts : Nat
  dispatched : Nat
  delaysMs : List Nat

inductive ReconcileOutcome where
  | resolved (status : ToolStatus) (attempts : Nat) (delaysMs : List Nat)
  | noUnknown
  | escalated (report : UnknownEscalation)

inductive QueryResult where
  | terminal (status : ToolStatus) (attempts : Nat) (delaysMs : List Nat)
  | exhausted (lastReason : String) (delaysMs : List Nat)

variable {E : Type}

/-- The host side of Rust `UnknownReconciler::reconcile`. -/
abbrev UnknownReconciler (E : Type) := Hook E (String × ExecutionId × Nat) ReconcileStatus

def reconcileQueries (reconciler : UnknownReconciler E) (tool : String) (id : ExecutionId)
    (nowMs base ceiling : Nat) :
    Nat → Nat → List Nat → String → Shared E → QueryResult × Shared E
  | 0, _, delaysMs, lastReason, s => (.exhausted lastReason delaysMs, s)
  | left + 1, attempt, delaysMs, lastReason, s =>
    let delaysMs := delaysMs ++ [reconcileDelayMs attempt base ceiling]
    match s.ask reconciler (tool, id, nowMs) (.reconcile tool id nowMs) with
    | (.pending reason, s) =>
      reconcileQueries reconciler tool id nowMs base ceiling left (attempt + 1) delaysMs
        (boundReason reason) s
    | (.resolved status, s) =>
      if isReconcileTerminal status.normalized then
        (.terminal status.normalized (attempt + 1) delaysMs, s)
      else
        let lastReason :=
          match status.normalized with
          | .unknown reason => boundReason reason
          -- `unreachable!` in the source
          | _ => lastReason
        reconcileQueries reconciler tool id nowMs base ceiling left (attempt + 1) delaysMs
          lastReason s

/-! ## Reconciliation -/

def World.query (w : World E) (reconciler : UnknownReconciler E) (tool : String)
    (id : ExecutionId) (nowMs : Nat) (reason : String) : QueryResult × World E :=
  let config := w.agent.config.reconcileConfig
  let ceiling := config.effectiveMaxDelayMs
  let base := min config.baseDelayMs ceiling
  match reconcileQueries reconciler tool id nowMs base ceiling config.effectiveRetries 0 []
    (boundReason reason) w.share with
  | (result, s) => (result, w.absorb s)

def World.escalate (w : World E) (tool reason : String) (delaysMs : List Nat) :
    ReconcileOutcome × World E :=
  (.escalated ⟨tool, reason, delaysMs.length, w.agent.executions.length, delaysMs⟩,
    { w with session := w.session.finish true })

/-- Write a status into the first record that meets `p`. -/
def setStatus (p : ExecutionRecord → Bool) (status : ToolStatus) :
    List ExecutionRecord → List ExecutionRecord
  | [] => []
  | record :: rest =>
    if p record then { record with status := status } :: rest
    else record :: setStatus p status rest

/-- Whether a record is the one of `id`. -/
def ExecutionRecord.isOf (record : ExecutionRecord) (id : ExecutionId) : Bool :=
  record.executionId = id

/-- `record` is the first pending one of its id. -/
def reconcilePendingAt (reconciler : UnknownReconciler E) (record : ExecutionRecord)
    (nowMs : Nat) (w : World E) : ReconcileOutcome × World E :=
  match record.status with
  | .unknown reason =>
    match w.query reconciler record.tool record.executionId nowMs reason with
    | (.terminal status attempts delaysMs, w) =>
      (.resolved status attempts delaysMs,
        { w with
          agent := { w.agent with
            pendingUnknown := w.agent.pendingUnknown.eraseP (·.isOf record.executionId)
            executions := setStatus (·.isOf record.executionId) status w.agent.executions } }.note
          (.settled record.executionId))
    | (.exhausted lastReason delaysMs, w) => w.escalate record.tool lastReason delaysMs
  | _ => (.noUnknown, w)

/-- `record` is the first uncertain one of `id` in the executions. -/
def reconcileExecutionsAt (reconciler : UnknownReconciler E) (record : ExecutionRecord)
    (id : ExecutionId) (nowMs : Nat) (w : World E) : ReconcileOutcome × World E :=
  match record.status with
  | .unknown reason =>
    match w.query reconciler record.tool id nowMs reason with
    | (.terminal status attempts delaysMs, w) =>
      (.resolved status attempts delaysMs,
        { w with
          agent := { w.agent with
            executions := setStatus (fun r => r.isOf id && r.status.isAckLoss) status
              w.agent.executions
            pendingUnknown := w.agent.pendingUnknown.filter fun r => !r.isOf id } }.note
          (.settled id))
    | (.exhausted lastReason delaysMs, w) => w.escalate record.tool lastReason delaysMs
  -- `unreachable!` in the source
  | _ => (.noUnknown, w)

def reconcileExecutions (reconciler : UnknownReconciler E) (id : ExecutionId) (nowMs : Nat)
    (w : World E) : ReconcileOutcome × World E :=
  match w.agent.executions.find? fun r => r.isOf id && r.status.isAckLoss with
  | some record => reconcileExecutionsAt reconciler record id nowMs w
  | none => (.noUnknown, w)

def reconcileUnknown (reconciler : UnknownReconciler E) (id : ExecutionId) (nowMs : Nat)
    (w : World E) : ReconcileOutcome × World E :=
  match w.agent.pendingUnknown.find? (·.isOf id) with
  | some record =>
    match reconcilePendingAt reconciler record nowMs w with
    | (.noUnknown, w) => reconcileExecutions reconciler id nowMs w
    | done => done
  | none => reconcileExecutions reconciler id nowMs w

def abandonPending (id : ExecutionId) (w : World E) : Bool × World E :=
  let kept := w.agent.pendingUnknown.filter fun r => !r.isOf id
  let after := { w with agent := { w.agent with pendingUnknown := kept } }
  if kept.length ≠ w.agent.pendingUnknown.length then (true, after.note (.settled id))
  else (false, after)

/-! ## The life of an agent -/

/-- The calls of a host on one agent; `host` is whatever it does in between to its
own state, the shared session and the id counter. -/
inductive AgentCall (E : Type) where
  | runTurn (args : TurnArgs E)
  | reconcileUnknown (reconciler : UnknownReconciler E) (id : ExecutionId) (nowMs : Nat)
  | abandonPending (id : ExecutionId)
  | setPrompt (prompt : AssembledPrompt)
  | setAllowedTools (allowed : Option (List String))
  | host (env : E) (acts : List SessionAct) (minted : Nat)

def AgentCall.run : AgentCall E → World E → World E
  | .runTurn args, w => (BittyAi.Runtime.runTurn args w).2
  | .reconcileUnknown reconciler id nowMs, w =>
    (BittyAi.Runtime.reconcileUnknown reconciler id nowMs w).2
  | .abandonPending id, w => (BittyAi.Runtime.abandonPending id w).2
  | .setPrompt prompt, w => { w with agent := { w.agent with prompt := some prompt } }
  | .setAllowedTools allowed, w => { w with agent := { w.agent with allowedTools := allowed } }
  | .host env acts minted, w =>
    { w with env := env, session := w.session.acts acts, lastId := w.lastId + minted }

def runCalls (calls : List (AgentCall E)) (w : World E) : World E :=
  calls.foldl (fun w call => call.run w) w

end BittyAi.Runtime
