/-
BittyAi.Slice.PendingHost — `PendingToolExecutor` of `bitty-ai-slice/src/pending_host.rs`: a
row of the pending log is opened before the inner executor is called and closed behind it.

The inner executor is host code over a state `E` of its own; it does not act on the pending
log. `contacts` is the history of the calls made of it, each with the store it was made in.
-/
import BittyAi.Runtime.Tool
import BittyAi.Session.PendingRunTheorems

namespace BittyAi.Slice

open Lib Session
open BittyAi.Runtime (ExecutionContext ExecutionId ToolCall ToolError ToolSuccess)

def maxCallIdMintAttempts : Nat := 1024

/-- The bytes that `mint_pending_call_id` hashes. -/
def mintInput (sessionId : WheelSessionId) (seq : UInt64) : List UInt8 :=
  utf8Bytes ("bitty-pending-v1/" ++ sessionId.text ++ "/" ++ toString seq.toNat)

def mintPendingCallId (sessionId : WheelSessionId) (seq : UInt64) : String :=
  (ContentHash.compute (mintInput sessionId seq)).toHex

def mapBeginErr (tool : String) : PendingError → ToolError
  | .tooManyOpen limit => .callLimitExceeded limit
  | _ => .denied tool "pending log unavailable; refusing before effect"

def mintExhausted (tool : String) : ToolError := .denied tool "pending log call-id mint exhausted"

/-- Rust `PendingToolExecutor`, without the inner executor and the store. -/
structure PendingToolExecutor where
  sessionId : WheelSessionId
  taskId : Option String
  generation : UInt64
  epoch : UInt64
  nextSeq : UInt64

structure JournalCall where
  tool : String
  arguments : List UInt8
  executionId : ExecutionId
  nowMs : UInt64

structure InnerContact where
  call : ToolCall
  context : ExecutionContext
  store : ContentStore
  answer : Except ToolError ToolSuccess

structure JournalHost (E : Type) where
  store : ContentStore
  env : E
  contacts : List InnerContact

/-- Host code behind the inner `ToolExecutor::execute_with_context`. -/
abbrev InnerExecutor (E : Type) :=
  E → ToolCall → ExecutionContext → Except ToolError ToolSuccess × E

variable {E : Type}

namespace PendingToolExecutor

def request (executor : PendingToolExecutor) (call : JournalCall) (seq : UInt64) :
    PendingBegin where
  callId := mintPendingCallId executor.sessionId seq
  sessionId := executor.sessionId
  taskId := executor.taskId
  tool := call.tool
  args := call.arguments
  generation := executor.generation
  epoch := executor.epoch
  nowMs := call.nowMs

/-- How the loop of `begin_guarded` goes on behind an answer of the store: only a taken id is tried
again. -/
def afterBegin (tool : String) (minted : String × UInt64)
    (retry : Exiting ContentStore ToolError (String × UInt64)) :
    Except PendingError PendingEntry → Exiting ContentStore ToolError (String × UInt64)
  | .ok _ => pure minted
  | .error error =>
    if error = .alreadyExists then retry else Exiting.exit (mapBeginErr tool error)

/-- The loop of `begin_guarded`, with the attempts that are left: the id and the next sequence
number. -/
def mintLoop (executor : PendingToolExecutor) (call : JournalCall) :
    Nat → UInt64 → Exiting ContentStore ToolError (String × UInt64)
  | 0, _ => Exiting.exit (mintExhausted call.tool)
  | left + 1, seq => fun store =>
    let answered := PendingStore.begin (executor.request call seq) store
    afterBegin call.tool (mintPendingCallId executor.sessionId seq, seq + 1)
      (mintLoop executor call left (seq + 1)) answered.1 answered.2

def beginGuarded (executor : PendingToolExecutor) (call : JournalCall) :
    Exiting ContentStore ToolError (String × UInt64) :=
  executor.mintLoop call maxCallIdMintAttempts executor.nextSeq

/-- The resolution that `resolve_best_effort` asks for. -/
def resolution (executor : PendingToolExecutor) (callId : String) (disposition : PendingDisposition)
    (nowMs : UInt64) : PendingResolve where
  callId := callId
  disposition := disposition
  claimEpoch := executor.epoch
  expectedGeneration := executor.generation
  nowMs := nowMs

def resolveBestEffort (executor : PendingToolExecutor) (callId : String)
    (disposition : PendingDisposition) (nowMs : UInt64) (store : ContentStore) : ContentStore :=
  (PendingStore.resolve (executor.resolution callId disposition nowMs) store).2

def dispositionOf : Except ToolError ToolSuccess → Option PendingDisposition
  | .ok _ => some .success
  | .error (.effectUnknown _ _) => none
  | .error (.denied _ _) => some .denied
  | .error _ => some .failed

/-- `execute_with_context` behind `begin_guarded`. -/
def executeBegun (inner : InnerExecutor E) (executor : PendingToolExecutor) (call : JournalCall)
    (host : JournalHost E) (store : ContentStore) :
    Except ToolError (String × UInt64) →
      Except ToolError ToolSuccess × PendingToolExecutor × JournalHost E
  | .error error => (.error error, executor, { host with store })
  | .ok (callId, nextSeq) =>
    let toolCall : ToolCall := ⟨call.tool, call.arguments⟩
    let context : ExecutionContext := ⟨call.executionId, call.nowMs.toNat⟩
    let (answer, env) := inner host.env toolCall context
    let contacts := host.contacts ++ [⟨toolCall, context, store, answer⟩]
    let store := match dispositionOf answer with
      | some disposition => executor.resolveBestEffort callId disposition call.nowMs store
      | none => store
    (answer, { executor with nextSeq }, { store, env, contacts })

def executeWithContext (inner : InnerExecutor E) (executor : PendingToolExecutor)
    (call : JournalCall) (host : JournalHost E) :
    Except ToolError ToolSuccess × PendingToolExecutor × JournalHost E :=
  let begun := executor.beginGuarded call host.store
  executor.executeBegun inner call host begun.2 begun.1

end PendingToolExecutor

/-! ## Runs -/

inductive JournalStep where
  | execute (call : JournalCall)
  | setGeneration (generation : UInt64)
  | setEpoch (epoch : UInt64)
  | setTaskId (taskId : Option String)
  | store (call : PendingCall)

structure JournalEvent (E : Type) where
  call : JournalCall
  executor : PendingToolExecutor
  before : JournalHost E
  result : Except ToolError ToolSuccess
  after : JournalHost E

def journal (inner : InnerExecutor E) :
    List JournalStep → PendingToolExecutor → JournalHost E → List (JournalEvent E)
  | [], _, _ => []
  | .execute call :: steps, executor, host =>
    let (result, executor', host') := executor.executeWithContext inner call host
    ⟨call, executor, host, result, host'⟩ :: journal inner steps executor' host'
  | .setGeneration generation :: steps, executor, host =>
    journal inner steps { executor with generation } host
  | .setEpoch epoch :: steps, executor, host => journal inner steps { executor with epoch } host
  | .setTaskId taskId :: steps, executor, host => journal inner steps { executor with taskId } host
  | .store call :: steps, executor, host =>
    journal inner steps executor { host with store := (call.serve host.store).2 }

end BittyAi.Slice
