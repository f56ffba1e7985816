/-
BittyAi.Runtime.Sse — the incremental `text/event-stream` parser of
`bitty-ai-runtime/src/sse.rs`.

`feed` loops over the lines of its buffer. Each turn uses up a byte, so the loop
gets one turn more than the buffer has bytes.
-/
import BittyAi.Lib.Bytes
import BittyAi.Lib.EarlyExit
import BittyAi.Lib.Text

namespace BittyAi.Runtime

open Lib

/-- Rust `MAX_SSE_LINE_BYTES`, the bound of a stream fragment. -/
def maxSseLineBytes : Nat := 64 * 1024

def maxSseEventBytes : Nat := 64 * 1024

structure SseEvent where
  event : String
  data : String
  id : Option String
  retry : Option UInt64
  deriving DecidableEq

inductive SseError where
  | lineTooLong (max actual : Nat)
  | eventTooLong (max actual : Nat)
  | invalidUtf8
  | invalidRetry (value : String)
  deriving DecidableEq

/-- The fields of `SseParser` other than its buffer: the event that is being collected. -/
structure SseFields where
  currentEvent : Option String := none
  currentData : String := ""
  currentId : Option String := none
  currentRetry : Option UInt64 := none
  lastEventId : Option String := none
  hasEventFields : Bool := false

structure SseParser extends SseFields where
  buffer : List UInt8 := []

def parseU64 (text : List Char) : Option UInt64 :=
  let digits := match text with
    | '+' :: rest => rest
    | _ => text
  if digits.isEmpty ∨ digits.all Char.isDigit = false then none
  else
    let n := digits.foldl (fun n c => 10 * n + (c.toNat - 48)) 0
    if n < 0x10000000000000000 then some (UInt64.ofNat n) else none

/-! ## One line -/

def splitField (line : List Char) : String × String :=
  let field := line.takeWhile (· ≠ ':')
  let value := match line.dropWhile (· ≠ ':') with
    | ':' :: ' ' :: value => value
    | ':' :: value => value
    | _ => []
  (String.ofList field, String.ofList value)

def processLine (line : String) (fields : SseFields) : Except SseError SseFields :=
  let (field, value) := splitField line.toList
  if field = "event" then .ok { fields with currentEvent := some value, hasEventFields := true }
  else if field = "data" then
    let additional :=
      if fields.currentData = "" then value.utf8ByteSize else 1 + value.utf8ByteSize
    let newLen := fields.currentData.utf8ByteSize + additional
    if newLen > maxSseEventBytes then .error (.eventTooLong maxSseEventBytes newLen)
    else
      let data := if fields.currentData = "" then value else fields.currentData ++ "\n" ++ value
      .ok { fields with currentData := data, hasEventFields := true }
  else if field = "id" then
    if '\x00' ∈ value.toList then .ok fields
    else .ok { fields with currentId := some value, hasEventFields := true }
  else if field = "retry" then
    match parseU64 (trim value).toList with
    | some retry => .ok { fields with currentRetry := some retry, hasEventFields := true }
    | none => .error (.invalidRetry value)
  else .ok fields

def dispatchCurrent (fields : SseFields) : SseEvent × SseFields :=
  (⟨fields.currentEvent.getD "message", fields.currentData, fields.currentId, fields.currentRetry⟩,
    { lastEventId := fields.currentId.or fields.lastEventId })

/-- What `feed` does with the bytes of a line: the event it completes, if any. -/
def takeLine (line : List UInt8) (fields : SseFields) :
    Except SseError (List SseEvent × SseFields) :=
  match fromUtf8? line with
  | none => .error .invalidUtf8
  | some text =>
    if text = "" then
      if fields.hasEventFields then
        let (event, fields) := dispatchCurrent fields
        .ok ([event], fields)
      else .ok ([], fields)
    else if text.toList.head? = some ':' then .ok ([], fields)
    else (processLine text fields).map ([], ·)

/-! ## Lines -/

/-- Rust `find_line_break`, from byte `i` on: the end of the line and where the next one begins. -/
def findLineBreakFrom (i : Nat) : List UInt8 → Option (Nat × Nat)
  | [] => none
  | b :: rest =>
    if b = 10 then some (i, i + 1)
    else if b = 13 then
      match rest with
      | next :: _ => if next = 10 then some (i, i + 2) else some (i, i + 1)
      | [] => none
    else findLineBreakFrom (i + 1) rest

def findLineBreak (buffer : List UInt8) : Option (Nat × Nat) := findLineBreakFrom 0 buffer

namespace SseParser

def new : SseParser := {}

/-- The loop of `feed`, with the turns that are left. -/
def feedLoop : Nat → List SseEvent → Exiting SseParser SseError (List SseEvent)
  | 0, events => pure events
  | turns + 1, events => fun parser =>
    match findLineBreak parser.buffer with
    | none =>
      if parser.buffer.length > maxSseLineBytes then
        (.error (.lineTooLong maxSseLineBytes parser.buffer.length), parser)
      else (.ok events, parser)
    | some (lineEnd, advance) =>
      if lineEnd > maxSseLineBytes then (.error (.lineTooLong maxSseLineBytes lineEnd), parser)
      else
        let line := parser.buffer.take lineEnd
        let buffer := parser.buffer.drop advance
        match takeLine line parser.toSseFields with
        | .error error => (.error error, { parser with buffer })
        | .ok (emitted, fields) => feedLoop turns (events ++ emitted) ⟨fields, buffer⟩

def feed (chunk : List UInt8) : Exiting SseParser SseError (List SseEvent) := fun parser =>
  let parser := { parser with buffer := parser.buffer ++ chunk }
  feedLoop (parser.buffer.length + 1) [] parser

/-- What `finish` does with an unfinished line. -/
def finishLine (parser : SseParser) : Except SseError SseFields :=
  if parser.buffer = [] then .ok parser.toSseFields
  else
    match fromUtf8? parser.buffer with
    | none => .error .invalidUtf8
    | some text =>
      if text.toList.head? = some ':' ∨ text = "" then .ok parser.toSseFields
      else processLine text parser.toSseFields

def finish : Exiting SseParser SseError (Option SseEvent) := fun parser =>
  match parser.finishLine with
  | .error error => (.error error, { parser with buffer := [] })
  | .ok fields =>
    if fields.hasEventFields then
      let (event, fields) := dispatchCurrent fields
      (.ok (some event), ⟨fields, []⟩)
    else (.ok none, ⟨fields, []⟩)

/-! ## Streams -/

def feedAll : List (List UInt8) → Exiting SseParser SseError (List SseEvent)
  | [] => pure []
  | chunk :: chunks => do
    let events ← feed chunk
    let more ← feedAll chunks
    pure (events ++ more)

def feedToEnd (chunks : List (List UInt8)) : Exiting SseParser SseError (List SseEvent) := do
  let events ← feedAll chunks
  let last ← finish
  pure (events ++ last.toList)

def parseStream (chunks : List (List UInt8)) : Except SseError (List SseEvent) :=
  (feedToEnd chunks new).1

end SseParser

end BittyAi.Runtime
