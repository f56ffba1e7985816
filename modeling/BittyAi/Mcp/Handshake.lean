/-
BittyAi.Mcp.Handshake — answering the server and waiting for a response, from
`bitty-ai-mcp/src/handshake.rs`.

The transport and the clock are the peer's. `Wire` lists what `recv_line` returns
during one wait, each with whether the deadline had passed when it was handled,
and which sends fail; every terminating wait is one of these. When the list is
used up the deadline has passed.
-/
import BittyAi.Mcp.Error
import BittyAi.Mcp.Json

namespace BittyAi.Mcp

open BittyAi.Runtime

/-! ## Server requests -/

def samplingRefusedMessage : String := "Sampling not supported"
def elicitationRefusedMessage : String := "Elicitation not supported"
def unknownMethodMessage : String := "Method not found"
def maxSurfacedFrames : Nat := 16
def maxIdTokenBytes : Nat := 128

def replyHead (idToken : Text) : Text := "\x7b\"jsonrpc\":\"2.0\",\"id\":".toList ++ idToken

def refusalFrame (idToken : Text) (message : String) : Text :=
  replyHead idToken ++ ",\"error\":\x7b\"code\":-32601,\"message\":\"".toList ++ message.toList ++
    "\"\x7d\x7d".toList

def renderIdToken (token : Text) : Option Text :=
  if token.isEmpty then none
  else if token.all Char.isDigit then some token
  else if token = "true".toList ∨ token = "false".toList ∨ token = "null".toList then some token
  else if byteLen token > maxIdTokenBytes then none
  else if token.all fun c => c.isAlphanum || c = '_' || c = '-' || c = '.' then
    some ('"' :: token ++ ['"'])
  else none

def replyTo (method : Text) (idToken cwd : Text) : Text :=
  if method = "ping".toList then replyHead idToken ++ ",\"result\":\x7b\x7d\x7d".toList
  else if method = "roots/list".toList then
    replyHead idToken ++ ",\"result\":\x7b\"roots\":[\x7b\"uri\":\"".toList ++
      escaped ("file://".toList ++ cwd) ++ "\"\x7d]\x7d\x7d".toList
  else if "sampling/".toList.isPrefixOf method then refusalFrame idToken samplingRefusedMessage
  else if "elicitation/".toList.isPrefixOf method then
    refusalFrame idToken elicitationRefusedMessage
  else refusalFrame idToken unknownMethodMessage

def handleServerRequest (line cwd : Text) : Panicking (Option Text) := do
  match ← findStringField line "method".toList with
  | none => pure none
  | some method =>
    pure do
      let id ← findRawField line "id".toList
      let idToken ← renderIdToken id
      pure (replyTo method idToken cwd)

/-! ## Waiting -/

structure Incoming where
  received : Except McpError (Option Text)
  expired : Bool

structure Wire where
  incoming : List Incoming
  sendErrors : List (Option McpError)
  sent : List Text

def Wire.sendLine (wire : Wire) (line : Text) : Except McpError Unit × Wire :=
  match wire.sendErrors with
  | some e :: rest => (.error e, { wire with sendErrors := rest })
  | none :: rest => (.ok (), { wire with sendErrors := rest, sent := wire.sent ++ [line] })
  | [] => (.ok (), { wire with sent := wire.sent ++ [line] })

def responseIdMatches (line want : Text) : Bool := findRawField line "id".toList = some want

def waitTimeout (budgetMs : Nat) : McpError := ⟨.handshake, .timeout budgetMs⟩

structure Waited where
  answer : Except McpError Text
  wire : Wire
  surfaced : List Text

/-- Rust `wait_for_response`, over what is received. -/
def waitForResponse (want cwd : Text) (budgetMs : Nat) :
    List Incoming → Wire → List Text → Panicking Waited
  | [], wire, surfaced =>
    .ok ⟨.error (waitTimeout budgetMs), { wire with incoming := [] }, surfaced⟩
  | next :: rest, wire, surfaced =>
    -- the checks that follow a frame that is not the answer
    let goOn (wire : Wire) (surfaced : List Text) : Panicking Waited :=
      if next.expired then
        .ok ⟨.error (waitTimeout budgetMs), { wire with incoming := rest }, surfaced⟩
      else waitForResponse want cwd budgetMs rest wire surfaced
    match next.received with
    | .error e => .ok ⟨.error e, { wire with incoming := rest }, surfaced⟩
    | .ok none => goOn wire surfaced
    | .ok (some line) => do
      if ← hasMethod line then
        match ← handleServerRequest line cwd with
        | some reply =>
          match wire.sendLine reply with
          | (.error e, wire) => .ok ⟨.error e, { wire with incoming := rest }, surfaced⟩
          | (.ok (), wire) => goOn wire surfaced
        | none =>
          goOn wire (if surfaced.length < maxSurfacedFrames then surfaced ++ [line] else surfaced)
      else if responseIdMatches line want then
        .ok ⟨.ok line, { wire with incoming := rest }, surfaced⟩
      else goOn wire surfaced

/-! ## The answer to `initialize` -/

def protocolVersion : String := "2025-11-25"

inductive ToolsCapabilityShape where
  | boolTrue
  | object (listChanged : Option Bool)

structure InitializeResult where
  protocolVersion : Text
  toolsSupported : Bool
  toolsShape : ToolsCapabilityShape

def handshakeRejected (detail : String) : McpError := ⟨.handshake, .handshakeRejected detail⟩

def toolsShape (capabilities : Text) : Option ToolsCapabilityShape :=
  if findBoolField capabilities "tools".toList = some true then some .boolTrue
  else
    (findObjectField capabilities "tools".toList).map fun tools =>
      .object (findBoolField tools "listChanged".toList)

def requireTools (result version : Text) : Except McpError InitializeResult :=
  match findObjectField result "capabilities".toList with
  | none => .error ⟨.handshake, .noToolCapability⟩
  | some capabilities =>
    match toolsShape capabilities with
    | none => .error ⟨.handshake, .noToolCapability⟩
    | some shape => .ok ⟨version, true, shape⟩

def requireVersion (result : Text) : Option Text → Except McpError InitializeResult
  | none => .error (handshakeRejected "initialize result carries no protocolVersion")
  | some version =>
    if version = protocolVersion.toList then requireTools result version
    else
      .error ⟨.handshake, .versionMismatch protocolVersion
        (boundErrorText (String.ofList version) maxErrorNameBytes)⟩

def initializeError (error : Text) : Panicking McpError := do
  let code := String.ofList ((findRawField error "code".toList).getD ['?'])
  let message := String.ofList ((← findStringField error "message".toList).getD [])
  pure (handshakeRejected
    (boundErrorText s!"server answered error {code}: {message}" maxErrorTextBytes))

def parseInitializeResult (line : Text) : Panicking (Except McpError InitializeResult) :=
  match findObjectField line "error".toList with
  | some error => do pure (.error (← initializeError error))
  | none =>
    match findObjectField line "result".toList with
    | none => .ok (.error (handshakeRejected "initialize answer carries no result"))
    | some result => do
      pure (requireVersion result (← findStringField result "protocolVersion".toList))

end BittyAi.Mcp
