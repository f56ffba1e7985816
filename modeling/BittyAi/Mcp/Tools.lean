/-
BittyAi.Mcp.Tools — importing the tools of a server, from `bitty-ai-mcp/src/tools.rs`.

The digest of an imported tool is that of its schema at import and is computed where the source
reads it.
-/
import BittyAi.Mcp.Call

namespace BittyAi.Mcp

open Lib BittyAi.Runtime

def maxToolPages : Nat := 5

/-! ## Names -/

def fnv1a64 (bytes : List UInt8) : UInt64 :=
  bytes.foldl (fun hash byte => (hash ^^^ byte.toUInt64) * 0x100000001b3) 0xcbf29ce484222325

/-- One byte of `clean` in `sanitize_mcp_name`. -/
def cleanByte (byte : UInt8) : Char :=
  let lower := if 0x41 ≤ byte && byte ≤ 0x5A then byte + 0x20 else byte
  if (0x61 ≤ lower && lower ≤ 0x7A) || (0x30 ≤ lower && lower ≤ 0x39) || lower = 0x5F then
    Char.ofNat lower.toNat
  else '_'

def clean (value : String) : Text := (utf8Bytes value).map cleanByte

def hexDigits8 (n : Nat) : Text := (Nat.toDigits 16 n).leftpad 8 '0'

def sanitizeMcpName (serverId rawTool : String) : String :=
  let candidate := "mcp_".toList ++ clean serverId ++ '_' :: clean rawTool
  if candidate.length ≤ maxToolNameLen ∧ toolNameShape (String.ofList candidate) then
    String.ofList candidate
  else
    let digest := fnv1a64 (utf8Bytes (String.ofList candidate))
    String.ofList (candidate.take (maxToolNameLen - 1 - 8) ++
      '_' :: hexDigits8 (digest.toNat % 0x100000000))

/-! ## One page -/

structure RawMcpTool where
  name : Text
  description : Text
  schemaJson : List UInt8

def listRejected (detail : String) : McpError := ⟨.listTools, .handshakeRejected detail⟩

/-- The loop of `split_array_objects`; none where an object is not closed. Every pass uses up a
character, so the length of the text bounds their number. -/
def splitObjects : Nat → Text → Option (List Text)
  | 0, _ => some []
  | _ + 1, [] => some []
  | passes + 1, c :: rest =>
    if c = '\x7b' then
      match balanced '\x7b' '\x7d' 0 false (c :: rest) [] with
      | none => none
      | some object => (splitObjects passes ((c :: rest).drop object.length)).map (object :: ·)
    else if c = '"' then splitObjects passes (afterString rest)
    else splitObjects passes rest

def splitArrayObjects (array : Text) : Except McpError (List Text) :=
  match splitObjects array.length array with
  | none => .error (listRejected "tools/list array is unbalanced")
  | some objects => .ok objects

def toolEntry (object : Text) : Panicking (Option RawMcpTool) := do
  match ← findStringField object "name".toList with
  | none => pure none
  | some name =>
    if name.isEmpty then pure none
    else do
      let description := (← findStringField object "description".toList).getD []
      let schema := (findObjectField object "inputSchema".toList).map fun schema =>
        utf8Bytes (String.ofList schema)
      pure (some ⟨name, description, schema.getD []⟩)

def toolEntries : List Text → Panicking (List RawMcpTool)
  | [] => .ok []
  | object :: objects => do
    let entry ← toolEntry object
    let entries ← toolEntries objects
    pure (entry.toList ++ entries)

def pageEntries (result : Text) : Panicking (Except McpError (List RawMcpTool)) :=
  match findRawField result "tools".toList with
  | none => .ok (.ok [])
  | some array =>
    match trimStart array with
    | '[' :: _ =>
      match splitArrayObjects array with
      | .error error => .ok (.error error)
      | .ok objects => do pure (.ok (← toolEntries objects))
    | _ => .ok (.error (listRejected "tools/list result.tools is not an array"))

def pageCursor (result : Text) : Panicking (Option Text) := do
  let token ← findStringField result "nextCursor".toList
  pure (token.filter fun token => !token.isEmpty)

def parseToolsPage (line : Text) : Panicking (Except McpError (List RawMcpTool × Option Text)) :=
  match findObjectField line "error".toList with
  | some error =>
    let code := String.ofList ((findRawField error "code".toList).getD ['?'])
    .ok (.error (listRejected
      (boundErrorText s!"tools/list answered error {code}" maxErrorTextBytes)))
  | none =>
    match findObjectField line "result".toList with
    | none => .ok (.error (listRejected "tools/list answer carries no result"))
    | some result => do
      match ← pageEntries result with
      | .error error => pure (.error error)
      | .ok entries => pure (.ok (entries, ← pageCursor result))

/-! ## The import -/

structure ImportedTool where
  spec : ToolSpec
  rawName : String

def importTool (serverId : String) (raw : RawMcpTool) : Except McpError ImportedTool :=
  let name := String.ofList raw.name
  if raw.schemaJson.length > maxToolSchemaBytes then
    .error (listRejected
      (boundErrorText s!"tool '{name}' schema exceeds 16384 bytes" maxErrorTextBytes))
  else
    let spec : ToolSpec :=
      { name := sanitizeMcpName serverId name
        description := String.ofList (truncateTo raw.description maxToolDescriptionLen)
        schemaJson := raw.schemaJson
        requiredScope := "mcp." ++ serverId
        readOnly := true
        placement := some .mcp
        native := none }
    match spec.check with
    | .error error =>
      let shown := error.display
      .error (listRejected
        (boundErrorText s!"tool '{name}' rejected: {shown}" maxErrorTextBytes))
    | .ok () => .ok ⟨spec, name⟩

def listRequest (id : Nat) (cursor : Option Text) : Text :=
  let params := match cursor with
    | some token => "\"cursor\":\"".toList ++ escaped token ++ ['"']
    | none => []
  "\x7b\"jsonrpc\":\"2.0\",\"id\":".toList ++ (toString id).toList ++
    ",\"method\":\"tools/list\",\"params\":\x7b".toList ++ params ++ "\x7d\x7d".toList

/-- How a listing ended: the outcome, the next id, the transport and the surfaced notifications. -/
structure Listed (α : Type) where
  outcome : Except McpError α
  nextId : Nat
  wire : Wire
  surfaced : List Text

def u64Space : Nat := 2 ^ 64

def listPages (cwd : Text) (bound : Nat) : Nat → Option Text → List Text → List RawMcpTool → Nat →
    Wire → List Text → Panicking (Listed (List RawMcpTool))
  | 0, cursor, _, raws, nextId, wire, surfaced =>
    let outcome :=
      if cursor.isSome then .error ⟨.listTools, .tooManyPages maxToolPages⟩ else .ok raws
    .ok ⟨outcome, nextId, wire, surfaced⟩
  | pages + 1, cursor, used, raws, nextId, wire, surfaced =>
    let id := nextId
    let nextId := (nextId + 1) % u64Space
    match wire.sendLine (listRequest id cursor) with
    | (.error error, wire) => .ok ⟨.error error, nextId, wire, surfaced⟩
    | (.ok (), wire) => do
      let used := used ++ cursor.toList
      let waited ← waitForResponse (toString id).toList cwd bound wire.incoming wire surfaced
      match waited.answer with
      | .error error =>
        pure ⟨.error ⟨.listTools, error.failure⟩, nextId, waited.wire, waited.surfaced⟩
      | .ok answer =>
        match ← parseToolsPage answer with
        | .error error => pure ⟨.error error, nextId, waited.wire, waited.surfaced⟩
        | .ok (entries, none) => pure ⟨.ok (raws ++ entries), nextId, waited.wire, waited.surfaced⟩
        | .ok (entries, some token) =>
          if used.contains token then
            pure ⟨.error ⟨.listTools, .duplicateCursor (boundErrorName (String.ofList token))⟩,
              nextId,
              waited.wire, waited.surfaced⟩
          else
            listPages cwd bound pages (some token) used (raws ++ entries) nextId waited.wire
              waited.surfaced

def importWanted (serverId : String) (raws : List RawMcpTool) :
    List String → List ImportedTool → Except McpError (List ImportedTool)
  | [], imported => .ok imported
  | wanted :: rest, imported =>
    match raws.find? fun entry => entry.name = wanted.toList with
    | none => .error ⟨.listTools, .unknownTool (boundErrorName wanted)⟩
    | some raw => do
      let tool ← importTool serverId raw
      if imported.any fun kept => kept.spec.name = tool.spec.name then
        .error ⟨.listTools, .duplicateTool (boundErrorName tool.spec.name)⟩
      else importWanted serverId raws rest (imported ++ [tool])

def listTools (wire : Wire) (serverId : String) (cwd : Text) (allowlist : List String)
    (nextId : Nat)
    (timeoutMs : Nat) : Panicking (Listed (List ImportedTool)) := do
  let bound := max 1 (min timeoutMs maxTimeoutMs)
  let listed ← listPages cwd bound maxToolPages none [] [] nextId wire []
  let outcome := listed.outcome.bind fun raws => importWanted serverId raws allowlist []
  pure ⟨outcome, listed.nextId, listed.wire, listed.surfaced⟩

/-! ## Notifications -/

/-- A notification of this method: the method is exactly this one and there is no id. -/
def isNotification (method line : Text) : Panicking Bool := do
  if (findRawField line "id".toList).isSome then pure false
  else pure ((← findStringField line "method".toList) = some method)

def isToolsListChangedNotification (line : Text) : Panicking Bool :=
  isNotification "notifications/tools/list_changed".toList line

def isResourcesListChangedNotification (line : Text) : Panicking Bool :=
  isNotification "notifications/resources/list_changed".toList line

def isPromptsListChangedNotification (line : Text) : Panicking Bool :=
  isNotification "notifications/prompts/list_changed".toList line

end BittyAi.Mcp
