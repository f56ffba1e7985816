/-
BittyAi.Runtime.Turn — `Agent::run_turn` of `agent.rs`.

The Rust body has more than twenty `return` statements; it is written in the
early-exit monad of `BittyAi.Lib.EarlyExit`. One definition stands for one
stretch of the body: admission, seed assembly, the carry of uncertain effects,
and per round the provider call, the text, the batch gates and each dispatch.

The loop is recursive in the rounds that are left, `max_rounds - round`. It never
falls through, so its result type is empty and `runTurn` returns the outcome.
-/
import BittyAi.Lib.EarlyExit
import BittyAi.Runtime.Agent

namespace BittyAi.Runtime

open Lib Exiting

variable {E α : Type}

/-- A stretch of `run_turn`: it continues, or the turn ends with an outcome. -/
abbrev Turn (E α : Type) := Exiting (World E) ExecOutcome α

structure TurnArgs (E : Type) where
  executor : ToolExecutor E
  sink : Hook E StreamChunk (Except StreamError Unit)
  model : String
  prompt : String
  seedRecords : List ContextRecord
  nowMs : Nat

namespace Turn

/-! ## Steps -/

def hosting (f : Shared E → α × Shared E) : Turn E α :=
  lift fun w => ((f w.share).1, w.absorb (f w.share).2)

def update (f : Agent E → Agent E) : Turn E Unit := modify fun w => { w with agent := f w.agent }

def note (event : Event) : Turn E Unit := modify fun w => w.note event

def finish (failed : Bool) : Turn E Unit :=
  modify fun w => { w with session := w.session.finish failed }

def issueExecution : Turn E ExecutionId := hosting Shared.issueExecution

def fail (error : AgentError) : Turn E α := do
  finish true
  exit (.failed error)

/-- The outcome of Rust `Agent::reconcile_cancel`. -/
def cancelOutcome (executions : List ExecutionRecord) : ExecOutcome :=
  let unknown := executions.countP (·.status.isAckLoss)
  if unknown > 0 then
    .unknown s!"cancelled with {unknown} unreconciled effects; reconcile before retry"
      executions.length
  else .canceled executions.length 0

def reconcileCancel : Turn E α := do
  let executions ← read (·.agent.executions)
  exit (cancelOutcome executions)

def cancelGate : Turn E Unit := do
  if ← read (·.session.isCancelled) then reconcileCancel else pure ()

def executionsGate : Turn E Unit := do
  if (← read (·.agent.executions.length)) ≥ maxExecutionsPerAgent then
    fail (.tool (.callLimitExceeded maxExecutionsPerAgent))
  else pure ()

def pushRecord (record : ExecutionRecord) : Turn E Unit := do
  update fun agent => { agent with executions := agent.executions ++ [record] }
  note (.attributed record)

def attributeExecution (execution : ToolExecution) : Turn E Unit :=
  pushRecord ⟨execution.executionId, execution.tool, execution.status, execution.resultDisposition⟩

/-- The outcome of Rust `Agent::unknown`. -/
def unknown (reason : String) (tool : String) : Turn E α := do
  let dispatched ← read (·.agent.executions.length)
  let name := boundReason tool
  exit (.unknown s!"{reason} (tool {name})" dispatched)

/-! ## Streaming -/

/-- The emission loop of `emit_fragments`; `total` is the batch water mark. -/
def emitEach (sink : Hook E StreamChunk (Except StreamError Unit)) (total : Nat) :
    Nat → List Fragment → Shared E → Except StreamError (Option Nat) × Shared E
  | _, [], s => (.ok (if s.session.isCancelled then none else some total), s)
  | seq, fragment :: rest, s =>
    if s.session.isCancelled then (.ok none, s)
    else
      let chunk : StreamChunk := ⟨seq, total, rest.isEmpty, fragment⟩
      match s.ask sink chunk (.emit chunk) with
      | (.error e, s) => (.error e, s)
      | (.ok (), s) => emitEach sink total (seq + 1) rest s

def emitFragments (sink : Hook E StreamChunk (Except StreamError Unit))
    (fragments : List Fragment) (startSeq : Nat) (s : Shared E) :
    Except StreamError (Option Nat) × Shared E :=
  if fragments.length ≥ seqSpace then
    (.error (.invalidFraming "fragment batch exceeds the sequence space"), s)
  else if startSeq + fragments.length ≥ seqSpace then
    (.error (.invalidFraming "stream sequence exhausted"), s)
  else emitEach sink (startSeq + fragments.length) startSeq fragments s

/-- Rust `Agent::emit_batch` with the three ways `run_turn` goes on from it. -/
def emitBatch (args : TurnArgs E) (fragments : List Fragment) : Turn E Unit := do
  let startSeq ← read (·.agent.nextSeq)
  match ← hosting (emitFragments args.sink fragments startSeq) with
  | .error e => fail (.stream e)
  | .ok none => reconcileCancel
  | .ok (some nextSeq) => update fun agent => { agent with nextSeq := nextSeq }

/-! ## Admission of the turn -/

def admitTurn : Turn E Unit := do
  let state ← read (·.session.state)
  let timeoutMs ← read (·.agent.config.providerTimeoutMs)
  if state = .canceled then exit (.canceled 0 0)
  else if state ≠ .active then exit (.failed (.session (.alreadyTerminated state)))
  else if timeoutMs = 0 ∨ timeoutMs > maxRequestTimeoutMs then
    fail (.tool (.denied "provider_timeout_ms" (timeoutTooLargeText maxRequestTimeoutMs timeoutMs)))
  else pure ()

def seedFlags (records : List AssembledRecord) : DirectiveScreenFlags :=
  ((records.filter (·.isUntrustedSurface)).map screenAssembledRecord).foldl
    DirectiveScreenFlags.combined .clean

def assembleSeed (args : TurnArgs E) : Turn E (List Message × List String) := do
  update fun agent => { agent with lastAdvisory := none }
  let budget ← read (·.agent.config.effectiveBudgetBytes)
  let generation ← read (·.session.generation)
  let artifacts ← read (·.agent.artifacts)
  match assemble args.seedRecords artifacts ⟨none, some budget, generation⟩ with
  | (.error e, artifacts) =>
    update fun agent => { agent with artifacts := artifacts }
    fail (.context e)
  | (.ok assembled, artifacts) =>
    update fun agent =>
      { agent with artifacts := artifacts, lastAdvisory := some (seedFlags assembled.records) }
    pure (assembled.records.map assembledRecordMessage ++ [⟨.user, args.prompt⟩],
      assembled.contextRefs)

def refreshPending (record : ExecutionRecord) : List ExecutionRecord → List ExecutionRecord
  | [] => []
  | pending :: rest =>
    if pending.executionId = record.executionId then
      { pending with
        status := record.status
        resultDisposition := record.resultDisposition
        tool := record.tool } :: rest
    else pending :: refreshPending record rest

def carryOne (record : ExecutionRecord) : Turn E Unit := do
  let pending ← read (·.agent.pendingUnknown)
  if record.executionId ∈ pending.map (·.executionId) then
    update fun agent => { agent with pendingUnknown := refreshPending record pending }
  else if pending.length ≥ maxExecutionsPerAgent then
    fail (.tool (.callLimitExceeded maxExecutionsPerAgent))
  else update fun agent => { agent with pendingUnknown := pending ++ [record] }

def carryUnknown : Turn E Unit := do
  let executions ← read (·.agent.executions)
  each (fun _ record => carryOne record) (executions.filter (·.status.isAckLoss)) ()

def openTurn : Turn E Unit :=
  update fun agent =>
    { agent with
      tools := agent.tools.beginTurn
      executions := []
      toolHistory := []
      turnCost := 0
      nextSeq := 0 }

/-! ## One round -/

def providerUnknown (provider reason : String) : Turn E α := do
  executionsGate
  let id ← issueExecution
  pushRecord ⟨id, boundReason provider, .unknown (boundReason reason), .accepted⟩
  unknown "provider effect uncertain; reconcile before retry" (boundReason provider)

def chargeRound (request : TurnRequest) (turn : ProviderTurn) : Turn E Unit := do
  update fun agent =>
    { agent with turnCost := satAdd agent.turnCost (agent.config.roundCost request turn) }
  let cost ← read (·.agent.turnCost)
  match ← read (·.agent.config.maxTurnCost) with
  | some limit =>
    if cost > limit then exit (.failed (.costCeilingExceeded limit cost)) else pure ()
  | none => pure ()

def turnRequest (args : TurnArgs E) (agent : Agent E) (messages : List Message)
    (contextRefs : List String) : TurnRequest where
  model := args.model
  messages := messages
  contextRefs := contextRefs
  tools := agent.tools.toolNames
  budgetBytes := agent.config.effectiveBudgetBytes
  timeoutMs := agent.config.providerTimeoutMs
  nowMs := args.nowMs

def askProvider (args : TurnArgs E) (messages : List Message) (contextRefs : List String) :
    Turn E ProviderTurn := do
  let agent ← read (·.agent)
  let request := turnRequest args agent messages contextRefs
  match ← hosting (fun s => s.ask agent.provider request (.complete request)) with
  | .error (.unknown provider reason) => providerUnknown provider reason
  | .error e => fail (.provider e.bounded)
  | .ok turn => do
    chargeRound request turn
    pure turn

def emitText (args : TurnArgs E) (turn : ProviderTurn) : Turn E Unit :=
  if turn.text.isEmpty then cancelGate
  else emitBatch args (fragmentText .markdown turn.text)

def complete (turn : ProviderTurn) : Turn E Unit :=
  if turn.toolCalls.isEmpty then do
    cancelGate
    finish false
    exit (.completed turn.text)
  else pure ()

def deliver (args : TurnArgs E) (turn : ProviderTurn) : Turn E Unit := do
  emitText args turn
  complete turn

def refuseBatch (tool : String) (cause : ToolError) : Turn E α := do
  executionsGate
  let id ← issueExecution
  pushRecord ⟨id, tool, .refused cause, .accepted⟩
  fail (.tool cause)

def admitBatch (calls : List ToolCall) : Turn E Unit := do
  let base ← read (·.session.authBase)
  let agent ← read (·.agent)
  match agent.narrowingDenialForBatch calls with
  | some (tool, cause) => refuseBatch tool cause
  | none =>
    match agent.promptGateDenial calls with
    | some (tool, cause) => refuseBatch tool cause
    | none => do
      match ← hosting (agent.tools.precheckNarrowed calls base agent.config.maxToolCallsPerTurn
          agent.allowedTools) with
      | .error cause => fail (.tool cause)
      | .ok () => pure ()

def historyBody (data : List UInt8) : Turn E RecordBody := do
  let generation ← read (·.session.generation)
  let artifacts ← read (·.agent.artifacts)
  if data.length > externalizeThresholdBytes then
    match artifacts.store data generation with
    | (.error e, _) => fail (.context e)
    | (.ok reference, artifacts) => do
      update fun agent => { agent with artifacts := artifacts }
      pure (.artifact reference)
  else pure (.inline data)

def historyRecord (args : TurnArgs E) (execution : ToolExecution) (owner : StableId)
    (generation : Nat) (body : RecordBody) : ContextRecord where
  id := "exec-" ++ toString execution.executionId.value
  provider := "workspace"
  owner := owner
  generation := generation
  collectedAtMs := args.nowMs
  priority := .normal
  summary := "tool=" ++ execution.tool ++ " " ++ execution.summary
  body := body
  supersedes := none
  isUntrustedSurface := execution.isUntrustedSurface

def recordExecution (args : TurnArgs E) (execution : ToolExecution) : Turn E Unit := do
  attributeExecution execution
  let body ← historyBody execution.data
  let generation ← read (·.session.generation)
  match StableId.new "agent-turn" with
  | .error _ => pure ()
  | .ok owner =>
    update fun agent =>
      { agent with
        toolHistory := agent.toolHistory ++
          [historyRecord args execution owner generation body] }

/-- An executed call: recorded, screened, streamed as a card; an uncertain or
denied effect ends the turn. -/
def recordOutcome (args : TurnArgs E) (execution : ToolExecution) : Turn E Unit := do
  recordExecution args execution
  update fun agent =>
    { agent with
      lastAdvisory := some ((agent.lastAdvisory.getD .clean).combined
        (screenToolExecution execution)) }
  emitBatch args (fragmentText .toolCard execution.card)
  match execution.status with
  | .unknown _ => unknown "tool effect uncertain; reconcile before retry" execution.tool
  | .denied reason => fail (.tool (.denied execution.tool reason))
  | _ => pure ()

/-- An execution a dispatch returned: a refusal and a rejected result end the
turn with their cause. -/
def settleDispatch (args : TurnArgs E) (execution : ToolExecution) : Turn E Unit :=
  match execution.status, execution.resultDisposition with
  | .refused cause, _ => do
    attributeExecution execution
    fail (.tool cause)
  | _, .rejected cause => do
    attributeExecution execution
    fail (.tool cause)
  | _, .accepted => recordOutcome args execution

/-- What `run_turn` does with the result of a dispatch; an error outside the bus
contract is attributed as a failure and ends the turn. -/
def concludeDispatch (args : TurnArgs E) (id : ExecutionId) (call : ToolCall) :
    Except ToolError ToolExecution → Turn E ToolExecution
  | .ok execution => do
    settleDispatch args execution
    pure execution
  | .error e => do
    pushRecord ⟨id, call.name, .failed (boundReason e.normalized.display), .accepted⟩
    fail (.tool e.normalized)

def dispatchCall (args : TurnArgs E) (messages : List Message) (call : ToolCall) :
    Turn E (List Message) := do
  cancelGate
  executionsGate
  let id ← issueExecution
  let base ← read (·.session.authBase)
  let agent ← read (·.agent)
  let (result, tools) ← hosting
    (agent.tools.dispatchNarrowed args.executor call base id args.nowMs agent.allowedTools)
  update fun agent => { agent with tools := tools }
  let execution ← concludeDispatch args id call result
  pure (messages ++ [executionMessage execution])

/-! ## The loop -/

def rounds (args : TurnArgs E) (contextRefs : List String) : Nat → List Message → Turn E Empty
  | 0, _ => do
    cancelGate
    let limit ← read (·.agent.config.maxRounds)
    fail (.roundLimitExceeded limit)
  | left + 1, messages => do
    cancelGate
    let turn ← askProvider args messages contextRefs
    deliver args turn
    admitBatch turn.toolCalls
    let messages ← each (dispatchCall args) turn.toolCalls
      (messages ++ [⟨.assistant, turn.text⟩])
    rounds args contextRefs left messages

def body (args : TurnArgs E) : Turn E Empty := do
  admitTurn
  let (messages, contextRefs) ← assembleSeed args
  carryUnknown
  openTurn
  let left ← read (·.agent.config.maxRounds)
  rounds args contextRefs left messages

end Turn

def runTurn (args : TurnArgs E) (w : World E) : ExecOutcome × World E :=
  match Turn.body args w with
  | (.error outcome, w) => (outcome, w)
  | (.ok never, _) => never.elim

def turnEntries (args : TurnArgs E) (w : World E) : List (Entry E) :=
  (runTurn args w).2.trace.drop w.trace.length

end BittyAi.Runtime
