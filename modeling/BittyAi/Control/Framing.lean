/-
BittyAi.Control.Framing — `bitty-ai-control/src/framing.rs`: one frame is a four-byte big-endian
length and that many record bytes.

The stream is a script: the bytes the peer has sent, and the answers to each call of `read`,
`write` and `flush`, so that a statement for every script covers short, interrupted and failing
calls in every order. Where a script of writes has ended the write fails: a write that never
returns has put the same bytes on the wire. `written` collects what reached the wire, and
`failedAt` keeps what had reached it when a write or a flush failed first; no function reads
either.
-/
import BittyAi.Lib.Bytes
import BittyAi.Lib.EarlyExit
import BittyAi.Control.Record

namespace BittyAi.Control

open Lib Exiting

def controlFramePrefixBytes : Nat := 4

inductive FrameError where
  | closed
  | truncatedPrefix (received : Nat)
  | truncatedBody (expected received : Nat)
  | zeroLength
  | frameTooLarge
  | frameShorterThanHeader (actual : Nat)
  | smallRecordTooLarge (actual : Nat)
  | record (error : ControlError)
  | allocationFailed (requested : Nat)
  | io
  | writeZero
  | queueFull (limit : Nat)
  | byteBudgetExceeded (limit : Nat)

/-! ## The stream -/

/-- How the stream answers a call of `read`: with at most so many bytes, or with an error. -/
inductive ReadAnswer where
  | upTo (count : Nat)
  | interrupted
  | failed

/-- How the stream answers a call of `write`: by taking at most so many bytes, or with an
error. -/
inductive WriteAnswer where
  | takes (count : Nat)
  | interrupted
  | failed

structure ControlStream where
  incoming : List UInt8
  readAnswers : List ReadAnswer
  allocations : List Bool
  writeAnswers : List WriteAnswer
  flushAnswers : List Bool
  written : List UInt8
  failedAt : Option (List UInt8)

def ControlStream.noteFailure (stream : ControlStream) : ControlStream :=
  { stream with failedAt := some (stream.failedAt.getD stream.written) }

/-! ## Reading -/

inductive ReadStop where
  | endOfStream (received : Nat)
  | io

structure ReadRun where
  result : Except ReadStop (List UInt8)
  incoming : List UInt8
  answers : List ReadAnswer

/-- The loop of `read_prefix` and of `read_body`; `filled` are the bytes read so far. Where the
script has ended the stream gives what it has. -/
def fillBuffer (size : Nat) : List ReadAnswer → List UInt8 → List UInt8 → ReadRun
  | [], incoming, filled =>
    let chunk := incoming.take (size - filled.length)
    let filled := filled ++ chunk
    { result := if filled.length < size then .error (.endOfStream filled.length) else .ok filled
      incoming := incoming.drop chunk.length
      answers := [] }
  | answer :: answers, incoming, filled =>
    if filled.length < size then
      match answer with
      | .interrupted => fillBuffer size answers incoming filled
      | .failed => { result := .error .io, incoming, answers }
      | .upTo count =>
        let chunk := incoming.take (min count (size - filled.length))
        if chunk = [] then { result := .error (.endOfStream filled.length), incoming, answers }
        else fillBuffer size answers (incoming.drop chunk.length) (filled ++ chunk)
    else { result := .ok filled, incoming, answers := answer :: answers }

def ControlStream.fill (size : Nat) (stop : ReadStop → FrameError) :
    Exiting ControlStream FrameError (List UInt8) := fun stream =>
  let run := fillBuffer size stream.readAnswers stream.incoming []
  (run.result.mapError stop, { stream with incoming := run.incoming, readAnswers := run.answers })

def readPrefix : Exiting ControlStream FrameError (List UInt8) :=
  ControlStream.fill controlFramePrefixBytes fun
    | .endOfStream 0 => .closed
    | .endOfStream received => .truncatedPrefix received
    | .io => .io

def readBody (length : Nat) : Exiting ControlStream FrameError (List UInt8) :=
  ControlStream.fill length fun
    | .endOfStream received => .truncatedBody length received
    | .io => .io

def ControlStream.allocate (requested : Nat) : Exiting ControlStream FrameError Unit :=
  fun stream =>
  match stream.allocations with
  | false :: rest => (.error (.allocationFailed requested), { stream with allocations := rest })
  | true :: rest => (.ok (), { stream with allocations := rest })
  | [] => (.ok (), stream)

def enforceSmallRecordBound (api : PublicationApi) (frame : List UInt8) : Except FrameError Unit :=
  if frame.length ≤ api.controlSmallRecordMaxBytes then .ok ()
  else
    match api.kindFromCode (ofBeBytes ((frame.drop 6).take 2)) with
    | some .projection | some .publish | none => .ok ()
    | some _ => .error (.smallRecordTooLarge frame.length)

def readRecord (api : PublicationApi) : Exiting ControlStream FrameError ControlRecord := do
  let framePrefix ← readPrefix
  let length := ofBeBytes framePrefix
  refuse (length = 0) .zeroLength
  refuse (length > api.controlFrameMaxBytes) .frameTooLarge
  refuse (length < api.controlHeaderBytes) (.frameShorterThanHeader length)
  ControlStream.allocate length
  let frame ← readBody length
  attempt fun _ => enforceSmallRecordBound api frame
  attempt fun _ => (api.decode frame).mapError .record

/-! ## Writing -/

structure WriteRun where
  result : Except FrameError Unit
  sent : List UInt8
  answers : List WriteAnswer

/-- The loop of `write_all`; `sent` are the bytes taken so far. -/
def writeLoop : List WriteAnswer → List UInt8 → List UInt8 → WriteRun
  | answers, [], sent => { result := .ok (), sent, answers }
  | [], _ :: _, sent => { result := .error .io, sent, answers := [] }
  | .interrupted :: answers, bytes, sent => writeLoop answers bytes sent
  | .failed :: answers, _, sent => { result := .error .io, sent, answers }
  | .takes 0 :: answers, _, sent => { result := .error .writeZero, sent, answers }
  | .takes count :: answers, bytes, sent =>
    writeLoop answers (bytes.drop count) (sent ++ bytes.take count)

def writeAll (bytes : List UInt8) : Exiting ControlStream FrameError Unit := fun stream =>
  let run := writeLoop stream.writeAnswers bytes []
  let stream := { stream with writeAnswers := run.answers, written := stream.written ++ run.sent }
  match run.result with
  | .ok () => (.ok (), stream)
  | .error e => (.error e, stream.noteFailure)

def writeFrame (api : PublicationApi) (frame : List UInt8) :
    Exiting ControlStream FrameError Unit := do
  refuse (frame = []) .zeroLength
  refuse (frame.length > api.controlFrameMaxBytes) .frameTooLarge
  refuse (frame.length > 0xffffffff) .frameTooLarge
  writeAll (beBytes 4 frame.length)
  writeAll frame

def ControlStream.flush : Exiting ControlStream FrameError Unit := fun stream =>
  match stream.flushAnswers with
  | false :: rest => (.error .io, { stream with flushAnswers := rest }.noteFailure)
  | true :: rest => (.ok (), { stream with flushAnswers := rest })
  | [] => (.ok (), stream)

structure FrameWriter where
  pending : List (List UInt8) := []
  pendingBytes : Nat := 0

namespace FrameWriter

def clear (_ : FrameWriter) : FrameWriter := {}

/-- Rust `FrameWriter::enqueue_frame`. The checked sums cannot overflow: both terms are below
the bounds. -/
def enqueueFrame (api : PublicationApi) (writer : FrameWriter) (frame : List UInt8) :
    Except FrameError FrameWriter := do
  refuseIf (writer.pending.length ≥ api.controlQueueMaxRecords)
    (.queueFull api.controlQueueMaxRecords)
  refuseIf (frame = []) .zeroLength
  refuseIf (frame.length > api.controlFrameMaxBytes) .frameTooLarge
  let total := writer.pendingBytes + (controlFramePrefixBytes + frame.length)
  refuseIf (total > api.controlInflightMaxBytes) (.byteBudgetExceeded api.controlInflightMaxBytes)
  pure { pending := writer.pending ++ [frame], pendingBytes := total }

def enqueue (api : PublicationApi) (writer : FrameWriter) (record : ControlRecord) :
    Except FrameError FrameWriter := do
  refuseIf (writer.pending.length ≥ api.controlQueueMaxRecords)
    (.queueFull api.controlQueueMaxRecords)
  let frame ← (api.encode record).mapError .record
  enqueueFrame api writer frame

def flushLoop (api : PublicationApi) : List (List UInt8) → Nat → ControlStream →
    Except FrameError Unit × FrameWriter × ControlStream
  | [], pendingBytes, stream =>
    let (result, stream) := ControlStream.flush stream
    (result, { pending := [], pendingBytes }, stream)
  | frame :: pending, pendingBytes, stream =>
    match writeFrame api frame stream with
    | (.ok (), stream) =>
      flushLoop api pending (pendingBytes - (controlFramePrefixBytes + frame.length)) stream
    | (.error e, stream) => (.error e, {}, stream)

def flush (api : PublicationApi) (writer : FrameWriter) (stream : ControlStream) :
    Except FrameError Unit × FrameWriter × ControlStream :=
  flushLoop api writer.pending writer.pendingBytes stream

end FrameWriter

end BittyAi.Control
