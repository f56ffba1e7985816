/-
BittyAi.Mcp.AttributionTheorems — an acknowledged effect whose payload is over
a size bound, followed from the answer of the server to the record of the agent.

Two places refuse a payload for its size. `dispatch` refuses an `Ok` result over
the bounds of the bus and attributes it as `Success` with its payload rejected.
`call_tool` refuses a success result of the server over its own bound; the
adapter turns that into `ToolError::ResultTooLarge`, which the bus passes on as
an error, and the agent records the effect as failed.
-/
import BittyAi.Mcp.Bridge
import BittyAi.Mcp.FieldTheorems
import BittyAi.Runtime.TurnAttributionTheorems

namespace BittyAi.Mcp

open Lib BittyAi.Runtime List

/-! ## The refusal of the adapter -/

/-- The gates let the call pass, it was sent, and the server answered it with a
success result of `observed` bytes, over the bound. -/
structure AnsweredOver (adapter : McpToolAdapter) (tool : String) (arguments : List UInt8)
    (nowMs observed : Nat) : Prop where
  small : arguments.length ≤ maxCallArgumentsBytes
  excess : maxCallResultBytes < observed
  answered : ∃ entry gated wire waited line text,
    adapter.gates tool nowMs none = (.ok entry, gated) ∧
    gated.wire.sendLine (callRequest (max gated.nextId 2) entry.rawName arguments) =
      (.ok (), wire) ∧
    waitForResponse (toString (max gated.nextId 2)).toList gated.params.cwd.toList
      (max 1 (min gated.params.timeoutMs maxTimeoutMs)) wire.incoming wire [] = .ok waited ∧
    waited.answer = .ok line ∧ parseCallResult line tool = .ok (.ok (text, observed))

variable {answer : Except ToolError ToolSuccess} {arguments : List UInt8}

theorem callTool_over {wire wire' : Wire} {id : Nat} {rawTool tool cwd : String}
    {timeoutMs observed : Nat} {waited : Waited} {line text : Text}
    (hsmall : arguments.length ≤ maxCallArgumentsBytes)
    (hover : maxCallResultBytes < observed)
    (hsent : wire.sendLine (callRequest id rawTool arguments) = (.ok (), wire'))
    (hwaited : waitForResponse (toString id).toList cwd.toList
      (max 1 (min timeoutMs maxTimeoutMs)) wire'.incoming wire' [] = .ok waited)
    (hanswer : waited.answer = .ok line)
    (hparsed : parseCallResult line tool = .ok (.ok (text, observed))) :
    callTool wire id rawTool tool arguments cwd timeoutMs =
      .ok ⟨.error (.resultRejected maxCallResultBytes observed), waited.wire, waited.surfaced⟩ := by
  simp only [callTool, if_neg (Nat.not_lt.mpr hsmall), hsent, hwaited, bind, Except.bind, hanswer,
    hparsed, acceptResult, if_pos hover]
  rfl

theorem AnsweredOver.execute {adapter adapter' : McpToolAdapter} {tool : String}
    {nowMs observed : Nat}
    (h : AnsweredOver adapter tool arguments nowMs observed)
    (hreturned : adapter.execute tool arguments nowMs = .ok (answer, adapter')) :
    answer = .error (.resultTooLarge maxCallResultBytes observed) := by
  obtain ⟨entry, gated, wire, waited, line, text, hgates, hsent, hwaited, hanswer, hparsed⟩ :=
    h.answered
  have hcalled := callTool_over h.small h.excess hsent hwaited hanswer hparsed
  rw [McpToolAdapter.execute, McpToolAdapter.executeInner, hgates] at hreturned
  simp only [hcalled, bind, Except.bind] at hreturned
  split at hreturned
  · cases hreturned
  · cases hreturned
    rfl

/-! ## Both refusals -/

/-- The tool reported success and `answer`, which the executor returned for this
call, is or stands for a payload that is refused for its size. -/
inductive SizeRefused (call : ToolCall) (ctx : ExecutionContext) :
    Except ToolError ToolSuccess → Prop
  | bus {success : ToolSuccess}
      (excess : maxSummaryBytes < success.summary.utf8ByteSize ∨
        maxToolResultBytes < success.data.length) : SizeRefused call ctx (.ok success)
  | adapter {adapter adapter' : McpToolAdapter} {observed : Nat}
      {answer : Except ToolError ToolSuccess}
      (returned : adapter.execute call.name call.arguments ctx.nowMs = .ok (answer, adapter'))
      (acknowledged : AnsweredOver adapter call.name call.arguments ctx.nowMs observed) :
      SizeRefused call ctx answer

theorem executionOf_over (id : ExecutionId) (call : ToolCall) {success : ToolSuccess}
    (excess : maxSummaryBytes < success.summary.utf8ByteSize ∨
      maxToolResultBytes < success.data.length) :
    ∃ cause, ToolBus.executionOf id call (.ok success) =
      .ok (ToolBus.resultRejected id call cause) := by
  rw [ToolBus.executionOf]
  split
  · exact ⟨_, rfl⟩
  next hsummary =>
    rw [if_pos (excess.resolve_left hsummary)]
    exact ⟨_, rfl⟩

theorem SizeRefused.not_reported {call : ToolCall} {ctx : ExecutionContext}
    (h : SizeRefused call ctx answer) : ¬ ToolBus.Reported answer := by
  cases h with
  | bus excess =>
    rintro ⟨hsummary, hdata⟩
    omega
  | adapter returned acknowledged =>
    rw [acknowledged.execute returned]
    exact id

variable {E : Type}

/-- An acknowledged effect with a payload refused for its size is attributed once, as `Success`
with its payload rejected, exactly if the bus refused the payload. -/
theorem size_refusal_attribution (args : TurnArgs E) (w : World E) (e : Entry E)
    (call : ToolCall) (ctx : ExecutionContext) (answer : Except ToolError ToolSuccess)
    (he : e ∈ turnEntries args w) (hevent : e.event = .execute call ctx answer)
    (hrefused : SizeRefused call ctx answer) :
    (∃ cause, AttributedOnce e (runTurn args w).2 call ctx .success (.rejected cause)) ↔
      ∃ success, answer = .ok success := by
  have hattributed := runTurn_attributes args w e he hevent hrefused.not_reported
  cases hrefused with
  | @bus success excess =>
    obtain ⟨cause, hexecution⟩ := executionOf_over ctx.executionId call excess
    simp only [Attributed, hexecution] at hattributed
    exact ⟨fun _ => ⟨success, rfl⟩, fun _ => ⟨cause, hattributed⟩⟩
  | adapter returned acknowledged =>
    obtain rfl := acknowledged.execute returned
    constructor
    · rintro ⟨cause, honce⟩
      cases honce.status_eq hattributed
    · rintro ⟨success, hanswer⟩
      cases hanswer

/-! ## One call -/

section OneCall

def bigSpec : ToolSpec := ⟨"big", "", [], "scope", true, some .mcp, none⟩

def bigCall : ToolCall := ⟨"big", []⟩

def callingProvider : Hook Unit TurnRequest (Except ProviderError ProviderTurn) :=
  fun env _ _ => ⟨.ok ⟨"", [bigCall], 0, ⟨0, 0, 0, 0⟩⟩, env, [], 0⟩

def callingBus : ToolBus Unit :=
  ((ToolBus.new (ToolRegistry.new.register bigSpec).2).withAuthorizer
    fun env _ _ => ⟨.allow, env, [], 0⟩).withConsent (fun env _ _ => ⟨.allow, env, [], 0⟩) "host"

def callingWorld : World Unit := .new callingProvider callingBus (.new ⟨1⟩ ⟨1⟩ ⟨1⟩) {} () 0

def callingArgs (executor : ToolExecutor Unit) : TurnArgs Unit where
  executor := executor
  sink := fun env _ _ => ⟨.ok (), env, [], 0⟩
  model := "model"
  prompt := "prompt"
  seedRecords := []
  nowMs := 0

def answering (answer : ToolCall → ExecutionContext → Except ToolError ToolSuccess) :
    ToolExecutor Unit :=
  fun env _ arg => ⟨answer arg.1 arg.2, env, [], 0⟩

def executes (p : ToolCall → ExecutionContext → Except ToolError ToolSuccess → Bool) : Event → Bool
  | .execute call ctx answer => p call ctx answer
  | _ => false

theorem exists_of_executes {p : ToolCall → ExecutionContext → Except ToolError ToolSuccess → Bool}
    {entries : List (Entry E)} (h : entries.any (fun e => executes p e.event) = true) :
    ∃ e ∈ entries, ∃ call ctx answer, e.event = .execute call ctx answer ∧
      p call ctx answer = true := by
  obtain ⟨e, he, hp⟩ := any_eq_true.mp h
  refine ⟨e, he, ?_⟩
  cases hevent : e.event <;> rw [hevent] at hp
  case execute call ctx answer => exact ⟨call, ctx, answer, rfl, hp⟩
  all_goals cases hp

def overSuccess : ToolSuccess := ⟨"", replicate 16385 0⟩

def isOver : Except ToolError ToolSuccess → Bool
  | .ok success => decide (maxToolResultBytes < success.data.length)
  | .error _ => false

theorem size_refusal_attribution_overSuccess :
    ∃ e ∈ turnEntries (callingArgs (answering fun _ _ => .ok overSuccess)) callingWorld,
      ∃ call ctx cause,
        AttributedOnce e (runTurn (callingArgs (answering fun _ _ => .ok overSuccess))
          callingWorld).2 call ctx .success (.rejected cause) := by
  obtain ⟨e, he, call, ctx, answer, hevent, hover⟩ :=
    exists_of_executes (p := fun _ _ answer => isOver answer) (show any
      (turnEntries (callingArgs (answering fun _ _ => .ok overSuccess)) callingWorld) _ = true by
        decide +kernel)
  cases answer with
  | error error => cases hover
  | ok success =>
    obtain ⟨cause, hattributed⟩ := (size_refusal_attribution _ callingWorld e call ctx _ he hevent
      (.bus (.inr (of_decide_eq_true hover)))).mpr ⟨success, rfl⟩
    exact ⟨e, he, call, ctx, cause, hattributed⟩

/-! ## A text over the bound -/

/-- The server's answer to request 2, with a text of 4097 characters of four bytes each. -/
def longAnswer : Text :=
  "\x7b\"jsonrpc\":\"2.0\",\"id\":2,".toList ++
    "\"result\":\x7b\"content\":[\x7b\"type\":\"text\",\"text\":\"".toList ++
    (replicate 4097 (Char.ofNat 0x1F600) ++ "\"\x7d]\x7d\x7d".toList)

def longAdapter : McpToolAdapter where
  serverId := "server"
  tools := [⟨bigSpec, "big"⟩]
  wire := ⟨[⟨.ok (some longAnswer), false⟩], [], []⟩
  authorizer := fun _ _ => .allow
  consent := fun _ _ => .allow
  asked := 0
  params := ⟨"host", ⟨⟨1⟩, ⟨1⟩, .inspect⟩, "/", 1000⟩
  nextId := 2
  listVersion := 0
  listStale := false

def throughAdapter (call : ToolCall) (ctx : ExecutionContext) : Except ToolError ToolSuccess :=
  match longAdapter.execute call.name call.arguments ctx.nowMs with
  | .ok (answer, _) => answer
  | .error _ => .error (.effectUnknown call.name "the adapter panicked")

theorem answeredOver_longAdapter : AnsweredOver longAdapter "big" [] 0 16388 := by
  have hmethod : hasMethod longAnswer = .ok false := by decide +kernel
  have hid : responseIdMatches longAnswer (toString 2).toList = true := by decide +kernel
  have hparsed : ∃ text, parseCallResult longAnswer "big" = .ok (.ok (text, 16388)) := by
    have hsize : ((parseCallResult longAnswer "big").toOption.bind Except.toOption).map (·.2) =
        some 16388 := by decide +kernel
    generalize parseCallResult longAnswer "big" = parsed at hsize ⊢
    rcases parsed with panic | (refusal | ⟨text, observed⟩)
    · cases hsize
    · cases hsize
    · obtain rfl : observed = 16388 := Option.some.inj hsize
      exact ⟨text, rfl⟩
  obtain ⟨text, hparsed⟩ := hparsed
  refine ⟨by decide, by decide, ⟨bigSpec, "big"⟩, { longAdapter with asked := 2 },
    { longAdapter.wire with sent := [callRequest 2 "big" []] },
    ⟨.ok longAnswer, ⟨[], [], [callRequest 2 "big" []]⟩, []⟩, longAnswer, text, rfl, rfl, ?_, rfl,
    hparsed⟩
  show waitForResponse (toString 2).toList "/".toList 1000 longAdapter.wire.incoming _ [] = _
  simp only [longAdapter, waitForResponse, hmethod, hid, bind, Except.bind]
  rfl

/-- The server acknowledged the call with a text over the bound. The agent
records the effect as failed with nothing rejected, and no usage row. -/
theorem adapter_refusal_recorded_failed :
    ∃ e ∈ turnEntries (callingArgs (answering throughAdapter)) callingWorld,
      ∃ call ctx answer reason, e.event = .execute call ctx answer ∧
        SizeRefused call ctx answer ∧
        AttributedUnseen e (runTurn (callingArgs (answering throughAdapter))
          callingWorld).2 call ctx (.failed reason) .accepted ∧
        ¬ ∃ cause, AttributedOnce e (runTurn (callingArgs (answering throughAdapter))
          callingWorld).2 call ctx .success (.rejected cause) := by
  have hrun : (turnEntries (callingArgs (answering throughAdapter)) callingWorld).any
      (fun e => executes (fun call ctx answer => decide (call = bigCall ∧ ctx.nowMs = 0 ∧
        answer = .error (.resultTooLarge maxCallResultBytes 16388))) e.event) = true := by
    decide +kernel
  obtain ⟨e, he, call, ctx, answer, hevent, hfound⟩ := exists_of_executes hrun
  obtain ⟨rfl, hnow, rfl⟩ := of_decide_eq_true hfound
  have hreturned : (longAdapter.execute "big" [] 0).isOk = true := by decide +kernel
  have hrefused : SizeRefused bigCall ctx (.error (.resultTooLarge maxCallResultBytes 16388)) := by
    cases hexecute : longAdapter.execute "big" [] 0 with
    | error => rw [hexecute] at hreturned; cases hreturned
    | ok result =>
      obtain ⟨answer, adapter'⟩ := result
      obtain rfl := answeredOver_longAdapter.execute hexecute
      rw [← hnow] at hexecute
      exact .adapter hexecute (hnow ▸ answeredOver_longAdapter)
  have hattributed := runTurn_attributes _ callingWorld e he hevent hrefused.not_reported
  refine ⟨e, he, bigCall, ctx, _, _, hevent, hrefused, hattributed, ?_⟩
  rintro ⟨cause, honce⟩
  cases honce.status_eq hattributed

end OneCall

end BittyAi.Mcp
