/-
BittyAi.Endpoint.Json — the params reader of `bitty-ai-endpoint/src/lib.rs`: a recursive-descent
parser over bytes with a cap on nesting.

A position of the source is the list of bytes left from there. The recursion runs on a number of
steps; a value starts with a byte of its own and an element ends with one, so twice the length of
the input is enough.
-/
import BittyAi.Lib.Bytes
import BittyAi.Lib.EarlyExit

namespace BittyAi.Endpoint

open Lib

/-- Rust `bitty_ipc_api::IpcError`, as far as the endpoint builds it; the validators may return
others. -/
inductive IpcError where
  | notFound (reason : String)
  | scopeDenied (scope action : String)
  | timeout (requestId timeoutMs : Nat)
  | invalidRequest (reason : String)
  | limitExceeded (field : String) (limit actual : Nat)
  | internal (reason : String)
  | denied (code reason : String)
  | other (label : String)
  deriving DecidableEq

def decodeInvalid (reason : String) : IpcError := .invalidRequest reason

def malformed : IpcError := decodeInvalid "params must be well-formed JSON"

inductive JVal where
  | null
  | bool (value : Bool)
  | num (raw : String)
  | str (text : String)
  | arr (items : List JVal)
  | obj (fields : List (String × JVal))

namespace JVal

def asU64 : JVal → Option Nat
  | .num raw =>
    if raw.toList.isEmpty || !raw.toList.all (·.isDigit) then none
    else
      let value := raw.toList.foldl (fun n c => 10 * n + (c.toNat - 48)) 0
      if value ≤ 0xffffffffffffffff then some value else none
  | _ => none

def asStr : JVal → Option String
  | .str text => some text
  | _ => none

def asArr : JVal → Option (List JVal)
  | .arr items => some items
  | _ => none

def asObj : JVal → Option (List (String × JVal))
  | .obj fields => some fields
  | _ => none

def field (name : String) (value : JVal) : Option JVal :=
  value.asObj.bind fun fields => (fields.find? fun member => member.1 == name).map (·.2)

end JVal

/-! ## Tokens -/

def isWs (b : UInt8) : Bool := b == 0x20 || b == 0x09 || b == 0x0A || b == 0x0D

def isAsciiDigit (b : UInt8) : Bool := 0x30 ≤ b && b ≤ 0x39

def ws (bytes : List UInt8) : List UInt8 := bytes.dropWhile isWs

def expectByte (want : UInt8) : List UInt8 → Except IpcError (List UInt8)
  | b :: rest => if b = want then .ok rest else .error malformed
  | [] => .error malformed

def literal (word : String) (value : JVal) (bytes : List UInt8) :
    Except IpcError (JVal × List UInt8) :=
  if (utf8Bytes word).isPrefixOf bytes then .ok (value, bytes.drop word.utf8ByteSize)
  else .error malformed

def someDigits (bytes : List UInt8) : Except IpcError (List UInt8) :=
  if bytes.head?.any isAsciiDigit then .ok (bytes.dropWhile isAsciiDigit) else .error malformed

def unsigned : List UInt8 → List UInt8
  | [] => []
  | b :: rest => if b = 0x2D then rest else b :: rest

def integerPart : List UInt8 → Except IpcError (List UInt8)
  | [] => .error malformed
  | b :: rest =>
    if b = 0x30 then if rest.head?.any isAsciiDigit then .error malformed else .ok rest
    else if isAsciiDigit b then .ok (rest.dropWhile isAsciiDigit)
    else .error malformed

def fractionPart : List UInt8 → Except IpcError (List UInt8)
  | [] => .ok []
  | b :: rest => if b = 0x2E then someDigits rest else .ok (b :: rest)

def exponentPart : List UInt8 → Except IpcError (List UInt8)
  | [] => .ok []
  | b :: rest =>
    if b = 0x65 ∨ b = 0x45 then
      match rest with
      | [] => someDigits []
      | sign :: digits =>
        if sign = 0x2B ∨ sign = 0x2D then someDigits digits else someDigits (sign :: digits)
    else .ok (b :: rest)

def number (bytes : List UInt8) : Except IpcError (String × List UInt8) := do
  let afterInteger ← integerPart (unsigned bytes)
  let afterFraction ← fractionPart afterInteger
  let rest ← exponentPart afterFraction
  -- every byte of the token is ASCII
  let token := (bytes.take (bytes.length - rest.length)).map fun b => Char.ofNat b.toNat
  pure (String.ofList token, rest)

/-! ## Strings -/

/-- Rust `char::to_digit(16)` of a byte. -/
def hexDigit (b : UInt8) : Option Nat :=
  if 0x30 ≤ b && b ≤ 0x39 then some (b.toNat - 0x30)
  else if 0x61 ≤ b && b ≤ 0x66 then some (b.toNat - 0x57)
  else if 0x41 ≤ b && b ≤ 0x46 then some (b.toNat - 0x37)
  else none

def hex4 : List UInt8 → Except IpcError (Nat × List UInt8)
  | a :: b :: c :: d :: rest =>
    match hexDigit a, hexDigit b, hexDigit c, hexDigit d with
    | some a, some b, some c, some d => .ok (((a * 16 + b) * 16 + c) * 16 + d, rest)
    | _, _, _, _ => .error malformed
  | _ => .error malformed

def charOfCode (code : Nat) : Except IpcError Char :=
  if h : code.isValidChar then .ok (Char.ofNatAux code h) else .error malformed

def simpleEscape (b : UInt8) : Option Char :=
  if b = 0x22 then some '"'
  else if b = 0x5C then some '\\'
  else if b = 0x2F then some '/'
  else if b = 0x62 then some '\x08'
  else if b = 0x66 then some '\x0c'
  else if b = 0x6E then some '\n'
  else if b = 0x72 then some '\r'
  else if b = 0x74 then some '\t'
  else none

/-- The character behind `\u`: one code, or a surrogate pair. -/
def unicodeEscape (bytes : List UInt8) : Except IpcError (Char × List UInt8) := do
  let (high, rest) ← hex4 bytes
  if 0xD800 ≤ high ∧ high < 0xDC00 then
    match rest with
    | a :: b :: rest =>
      refuseIf (¬(a = 0x5C ∧ b = 0x75)) malformed
      let (low, rest) ← hex4 rest
      refuseIf (¬(0xDC00 ≤ low ∧ low < 0xE000)) malformed
      let c ← charOfCode (0x10000 + (high - 0xD800) * 0x400 + (low - 0xDC00))
      pure (c, rest)
    | _ => .error malformed
  else
    refuseIf (0xDC00 ≤ high ∧ high < 0xE000) malformed
    let c ← charOfCode high
    pure (c, rest)

/-- The loop of `JsonParser::string`, from behind the opening quote. A character is read from the
bytes left, which must be well-formed text to their end. -/
def stringLoop : Nat → List UInt8 → List Char → Except IpcError (String × List UInt8)
  | 0, _, _ => .error malformed
  | _ + 1, [], _ => .error malformed
  | steps + 1, b :: rest, out =>
    if b = 0x22 then .ok (String.ofList out.reverse, rest)
    else if b = 0x5C then
      match rest with
      | [] => .error malformed
      | e :: rest =>
        match simpleEscape e with
        | some c => stringLoop steps rest (c :: out)
        | none =>
          if e = 0x75 then
            match unicodeEscape rest with
            | .ok (c, rest) => stringLoop steps rest (c :: out)
            | .error error => .error error
          else .error malformed
    else if b < 0x20 then .error malformed
    else
      match (fromUtf8? (b :: rest)).bind (·.toList.head?) with
      | some c => stringLoop steps ((b :: rest).drop c.utf8Size) (c :: out)
      | none => .error malformed

/-- Rust `JsonParser::string`, from behind the opening quote. -/
def string (bytes : List UInt8) : Except IpcError (String × List UInt8) :=
  stringLoop (bytes.length + 1) bytes []

/-! ## Values -/

mutual

/-- Rust `JsonParser::value`, with the openings of `array` and `object`. -/
def value (maxDepth : Nat) : Nat → Nat → List UInt8 → Except IpcError (JVal × List UInt8)
  | 0, _, _ => .error malformed
  | steps + 1, depth, bytes =>
    if depth > maxDepth then .error (decodeInvalid "params nest past the depth bound")
    else
      match ws bytes with
      | [] => .error malformed
      | b :: rest =>
        if b = 0x7B then
          if (ws rest).head? = some 0x7D then .ok (.obj [], (ws rest).tail)
          else fieldsLoop maxDepth steps depth (ws rest) []
        else if b = 0x5B then
          -- an array that ends here is still read as a value one level down, so at the cap the
          -- refusal is the one for nesting
          if (ws rest).head? = some 0x5D then .ok (.arr [], (ws rest).tail)
          else itemsLoop maxDepth steps depth (ws rest) []
        else if b = 0x22 then do
          let (text, rest) ← string rest
          pure (.str text, rest)
        else if b = 0x74 then literal "true" (.bool true) (b :: rest)
        else if b = 0x66 then literal "false" (.bool false) (b :: rest)
        else if b = 0x6E then literal "null" .null (b :: rest)
        else if b = 0x2D ∨ isAsciiDigit b then do
          let (raw, rest) ← number (b :: rest)
          pure (.num raw, rest)
        else .error malformed

def itemsLoop (maxDepth : Nat) :
    Nat → Nat → List UInt8 → List JVal → Except IpcError (JVal × List UInt8)
  | 0, _, _, _ => .error malformed
  | steps + 1, depth, bytes, items =>
    match value maxDepth steps (depth + 1) bytes with
    | .error error => .error error
    | .ok (item, rest) =>
      match ws rest with
      | [] => .error malformed
      | b :: rest =>
        if b = 0x2C then itemsLoop maxDepth steps depth rest (items ++ [item])
        else if b = 0x5D then .ok (.arr (items ++ [item]), rest)
        else .error malformed

def fieldsLoop (maxDepth : Nat) :
    Nat → Nat → List UInt8 → List (String × JVal) → Except IpcError (JVal × List UInt8)
  | 0, _, _, _ => .error malformed
  | steps + 1, depth, bytes, fields =>
    match ws bytes with
    | [] => .error (decodeInvalid "params must be a JSON object")
    | b :: rest =>
      if b = 0x22 then
        match string rest with
        | .error error => .error error
        | .ok (key, rest) =>
          match expectByte 0x3A (ws rest) with
          | .error error => .error error
          | .ok rest =>
            match value maxDepth steps (depth + 1) rest with
            | .error error => .error error
            | .ok (item, rest) =>
              match ws rest with
              | [] => .error malformed
              | b :: rest =>
                if b = 0x2C then fieldsLoop maxDepth steps depth rest (fields ++ [(key, item)])
                else if b = 0x7D then .ok (.obj (fields ++ [(key, item)]), rest)
                else .error malformed
      else .error (decodeInvalid "params must be a JSON object")

end

def parseParamsObject (maxDepth : Nat) (params : List UInt8) : Except IpcError JVal := do
  let (top, rest) ← value maxDepth (2 * params.length + 2) 0 params
  refuseIf (ws rest ≠ []) malformed
  match top with
  | .obj fields => pure (.obj fields)
  | _ => .error (decodeInvalid "params must be a JSON object")

end BittyAi.Endpoint
