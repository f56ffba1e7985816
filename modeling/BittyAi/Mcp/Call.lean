/-
BittyAi.Mcp.Call — one `tools/call` dispatch, from `bitty-ai-mcp/src/call.rs`.
-/
import BittyAi.Lib.Utf8
import BittyAi.Mcp.Handshake

namespace BittyAi.Mcp

open Lib BittyAi.Runtime

def maxCallArgumentsBytes : Nat := 16 * 1024
def maxCallResultBytes : Nat := 16 * 1024
def maxCallSummaryBytes : Nat := 4 * 1024
def maxTimeoutMs : Nat := 30000

inductive McpCallError where
  | transport (error : McpError)
  | argumentsTooLarge (limit actual : Nat)
  | resultRejected (limit actual : Nat)
  | failed (tool reason : String)
  | protocolRejected (tool : String) (code : Int) (message : String)
  | unknown (tool reason : String)

def callRequest (id : Nat) (rawTool : String) (arguments : List UInt8) : Text :=
  let argsText := if arguments.isEmpty then "\x7b\x7d" else lossyText arguments
  "\x7b\"jsonrpc\":\"2.0\",\"id\":".toList ++ (toString id).toList ++
    ",\"method\":\"tools/call\",\"params\":\x7b\"name\":\"".toList ++ escaped rawTool.toList ++
    "\",\"arguments\":".toList ++ argsText.toList ++ "\x7d\x7d".toList

/-! ## Reading the answer -/

structure CollectedText where
  text : Text
  len : Nat

def afterFirst (pattern : Text) : Text → Option Text
  | [] => none
  | c :: rest =>
    if pattern.isPrefixOf (c :: rest) then some ((c :: rest).drop pattern.length)
    else afterFirst pattern rest

def afterString : Text → Text
  | [] => []
  | '"' :: rest => rest
  | ['\\'] => []
  | '\\' :: _ :: rest => afterString rest
  | _ :: rest => afterString rest

def sliceFromOne : Text → Panicking Text
  | [] => .error .outOfRange
  | c :: rest => if c.utf8Size = 1 then .ok rest else .error .midCharacter

/-- The loop of `collect_text_parts`. Every pass uses up a key, so the length of
the text bounds their number. -/
def collectParts : Nat → Text → CollectedText → Panicking CollectedText
  | 0, _, collected => .ok collected
  | fuel + 1, rest, collected =>
    match (afterFirst "\"text\"".toList rest).bind (afterFirst [':']) with
    | none => .ok collected
    | some afterColon =>
      match trimStart afterColon with
      | '"' :: value => do
        let part := (← readString value []).getD []
        let len := collected.len + byteLen part
        let text := if len ≤ maxCallResultBytes + 1 then collected.text ++ part else collected.text
        if len > maxCallResultBytes + 1 then pure ⟨text, len⟩
        else collectParts fuel (afterString value) ⟨text, len⟩
      | value => do collectParts fuel (← sliceFromOne value) collected

def collectTextParts (result : Text) : Panicking CollectedText :=
  match findRawField result "content".toList with
  | none => .ok ⟨[], 0⟩
  | some array => collectParts array.length array ⟨[], 0⟩

def parseDigits (digits : Text) : Option Nat :=
  if digits.isEmpty ∨ digits.all Char.isDigit = false then none
  else some (digits.foldl (fun n c => 10 * n + (c.toNat - 48)) 0)

def parseI32 (text : Text) : Option Int :=
  let value := match text with
    | '-' :: digits => (parseDigits digits).map fun n => -(n : Int)
    | '+' :: digits => (parseDigits digits).map fun n => (n : Int)
    | digits => (parseDigits digits).map fun n => (n : Int)
  value.filter fun n => -(2 ^ 31 : Int) ≤ n ∧ n < 2 ^ 31

/-- The error side of an answer with an `error` object. -/
def errorAnswer (error : Text) (tool : String) : Panicking McpCallError := do
  let codeRaw := (findRawField error "code".toList).getD ['?']
  let message := String.ofList ((← findStringField error "message".toList).getD [])
  let failed := McpCallError.failed tool
    (boundErrorText ("server error " ++ String.ofList codeRaw ++ ": " ++ message) maxErrorTextBytes)
  match parseI32 (trimChars codeRaw) with
  | some code =>
    if -32602 ≤ code ∧ code ≤ -32600 then
      pure (.protocolRejected tool code (boundErrorText message maxErrorTextBytes))
    else pure failed
  | none => pure failed

def resultText (result : Text) : Panicking (Text × Nat) := do
  let collected ← collectTextParts result
  if collected.text.isEmpty = false ∨ collected.len > 0 then pure (collected.text, collected.len)
  else
    match findRawField result "structuredContent".toList with
    | some structured => pure (structured, byteLen structured)
    | none => pure ([], 0)

/-- The error side of a result with `isError: true`. -/
def reportedFailure (result : Text) (tool : String) : Panicking McpCallError := do
  let collected ← collectTextParts result
  let reason :=
    if collected.text.isEmpty then "tool reported error" else String.ofList collected.text
  pure (.failed tool (boundErrorText reason maxErrorTextBytes))

def parseCallResult (line : Text) (tool : String) : Panicking (Except McpCallError (Text × Nat)) :=
  match findObjectField line "error".toList with
  | some error => do pure (.error (← errorAnswer error tool))
  | none =>
    match findObjectField line "result".toList with
    | none => .ok (.error (.failed tool "call answer carries no result"))
    | some result =>
      if findBoolField result "isError".toList = some true then do
        pure (.error (← reportedFailure result tool))
      else do pure (.ok (← resultText result))

/-! ## The call -/

def truncateTo : Text → Nat → Text
  | [], _ => []
  | c :: rest, maxBytes =>
    if c.utf8Size ≤ maxBytes then c :: truncateTo rest (maxBytes - c.utf8Size) else []

structure Called where
  outcome : Except McpCallError ToolSuccess
  wire : Wire
  surfaced : List Text

def waitFailure (tool : String) (boundMs : Nat) (error : McpError) : McpCallError :=
  match error.failure with
  | .timeout _ => .unknown tool (boundErrorText s!"no answer within {boundMs}ms" maxErrorTextBytes)
  | _ =>
    .unknown tool
      (boundErrorText ("transport closed mid-call: " ++ error.display) maxErrorTextBytes)

/-- What a result text of `observed` bytes becomes. -/
def acceptResult (tool : String) (text : Text) (observed : Nat) : Except McpCallError ToolSuccess :=
  if observed > maxCallResultBytes then .error (.resultRejected maxCallResultBytes observed)
  else
    let summary := String.ofList (truncateTo text maxCallSummaryBytes)
    match ToolSuccess.new summary (utf8Bytes (String.ofList text)) with
    | .ok success => .ok success
    | .error (.summaryTooLarge _ _) => .error (.resultRejected maxCallResultBytes observed)
    | .error (.resultTooLarge _ _) => .error (.resultRejected maxCallResultBytes observed)
    | .error e =>
      .error (.failed tool (boundErrorText ("result rejected: " ++ e.display) maxErrorTextBytes))

def callTool (wire : Wire) (id : Nat) (rawTool tool : String) (arguments : List UInt8)
    (cwd : String) (timeoutMs : Nat) : Panicking Called :=
  if arguments.length > maxCallArgumentsBytes then
    .ok ⟨.error (.argumentsTooLarge maxCallArgumentsBytes arguments.length), wire, []⟩
  else
    let bound := max 1 (min timeoutMs maxTimeoutMs)
    match wire.sendLine (callRequest id rawTool arguments) with
    | (.error e, wire) => .ok ⟨.error (.transport e), wire, []⟩
    | (.ok (), wire) => do
      let waited ← waitForResponse (toString id).toList cwd.toList bound wire.incoming wire []
      match waited.answer with
      | .error e => pure ⟨.error (waitFailure tool bound e), waited.wire, waited.surfaced⟩
      | .ok answer =>
        match ← parseCallResult answer tool with
        | .error e => pure ⟨.error e, waited.wire, waited.surfaced⟩
        | .ok (text, observed) =>
          pure ⟨acceptResult tool text observed, waited.wire, waited.surfaced⟩

end BittyAi.Mcp
