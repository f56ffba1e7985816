/-
BittyAi.Slice.FragmentTransport — `bitty-ai-slice/src/fragment_transport.rs`: a stream
fragment is cut into transport parts of at most 16 KiB, and put together again.

Sequence numbers are naturals, with the source's checks against the end of `u64` and
`u32`. A slice of the text that is cut inside a character panics. The zone of a part
is passed on as it is, so its type is a parameter.
-/
import BittyAi.Lib.EarlyExit
import BittyAi.Lib.Utf8
import BittyAi.Runtime.Provider

namespace BittyAi.Slice

open Lib
open BittyAi.Runtime (Fragment StreamChunk StreamError maxFragmentBytes)

def maxFragmentTextBytes : Nat := 16 * 1024

def u32Limit : Nat := 0x100000000

def u64Limit : Nat := 0x10000000000000000

structure FragmentData (Z : Type) where
  terminalId : String
  generation : UInt64
  seq : Nat
  zone : Option Z
  text : String

structure TransportPart (Z : Type) where
  data : FragmentData Z
  partIndex : Nat
  partCount : Nat
  sourceSeq : Nat
  isContinuation : Bool

structure FragmentIdentity where
  terminalId : String
  generation : UInt64
  sourceSeq : Nat
  deriving DecidableEq

inductive FragmentTransportError where
  | runtime (reason : String)
  | nonUtf8
  | oversizedFragment (actual limit : Nat)
  | tooManyParts (parts : Nat)
  | sequenceExhausted
  | emptyParts
  | partCountMismatch (expected actual : Nat)
  | inconsistentPartCount (index expected found : Nat)
  | identityMismatch (expected found : FragmentIdentity)
  | partOrder (expectedIndex found : Nat)
  | terminalMismatch (index : Nat) (expected found : String)
  | generationMismatch (index : Nat) (expected found : UInt64)
  | sourceSeqMismatch (index expected found : Nat)
  | sequenceGap (index expected found : Nat)
  | partTooLarge (index actual limit : Nat)

inductive TransportStop where
  | refused (error : FragmentTransportError)
  | panicked

variable {Z : Type}

/-! ## Chunks -/

def streamErrorText : StreamError → String
  | .oversizedFragment limit actual => s!"fragment of {actual} bytes exceeds {limit} byte limit"
  | .invalidFraming reason => s!"invalid stream framing: {reason}"

def validateChunk (chunk : StreamChunk) : Except StreamError Unit :=
  if chunk.total = 0 then .error (.invalidFraming "total must be > 0")
  else if chunk.seq ≥ chunk.total then .error (.invalidFraming "seq must be < total")
  else if chunk.isFinal ≠ decide (chunk.seq + 1 = chunk.total) then
    .error (.invalidFraming "final flag does not match seq/total")
  else if chunk.fragment.bytes.length > maxFragmentBytes then
    .error (.oversizedFragment maxFragmentBytes chunk.fragment.bytes.length)
  else .ok ()

/-! ## Splitting -/

/-- The inner loop of `part_ends`: back to a character boundary. -/
def backOff (bytes : List UInt8) : Nat → Nat
  | 0 => 0
  | stop + 1 => if isBoundary (bytes.drop (stop + 1)) then stop + 1 else backOff bytes stop

/-- The outer loop of `part_ends`. Every turn takes up a byte. -/
def partEndsFrom (bytes : List UInt8) : Nat → Nat → List Nat
  | 0, _ => []
  | turns + 1, start =>
    if start < bytes.length then
      let stop := backOff bytes (min (start + maxFragmentTextBytes) bytes.length)
      stop :: partEndsFrom bytes turns stop
    else []

def partEnds (text : String) : List Nat :=
  let bytes := utf8Bytes text
  let ends := partEndsFrom bytes bytes.length 0
  if ends.isEmpty then [0] else ends

structure PartSource (Z : Type) where
  terminalId : String
  generation : UInt64
  zone : Option Z
  sourceSeq : Nat
  firstSeq : Nat

def PartSource.part (source : PartSource Z) (count index : Nat) (text : String) :
    TransportPart Z where
  data :=
    { terminalId := source.terminalId
      generation := source.generation
      seq := source.firstSeq + index
      zone := source.zone
      text := text }
  partIndex := index
  partCount := count
  sourceSeq := source.sourceSeq
  isContinuation := decide (index > 0)

def cutParts (source : PartSource Z) (bytes : List UInt8) (count : Nat) :
    Nat → Nat → List Nat → Except TransportStop (List (TransportPart Z))
  | _, _, [] => .ok []
  | index, start, stop :: ends =>
    if index ≥ u32Limit then .error (.refused (.tooManyParts count))
    else
      match fromUtf8? ((bytes.take stop).drop start) with
      | none => .error .panicked
      | some text => do
        let parts ← cutParts source bytes count (index + 1) stop ends
        pure (source.part count index text :: parts)

def preSplitFragment (fragment : Fragment) (source : PartSource Z) :
    Except TransportStop (List (TransportPart Z)) :=
  if fragment.bytes.length > maxFragmentBytes then
    .error (.refused (.oversizedFragment fragment.bytes.length maxFragmentBytes))
  else
    match fromUtf8? fragment.bytes with
    | none => .error (.refused .nonUtf8)
    | some text =>
      let ends := partEnds text
      let total := ends.length
      if total ≥ u32Limit then .error (.refused (.tooManyParts total))
      else if source.firstSeq + (total - 1) ≥ u64Limit then .error (.refused .sequenceExhausted)
      else cutParts source (utf8Bytes text) total 0 0 ends

def preSplitChunk (chunk : StreamChunk) (terminalId : String) (generation : UInt64)
    (zone : Option Z) (firstSeq : Nat) : Except TransportStop (List (TransportPart Z)) :=
  match validateChunk chunk with
  | .error error => .error (.refused (.runtime (streamErrorText error)))
  | .ok () => preSplitFragment chunk.fragment ⟨terminalId, generation, zone, chunk.seq, firstSeq⟩

/-! ## Putting together -/

def TransportPart.identity (part : TransportPart Z) : FragmentIdentity :=
  ⟨part.data.terminalId, part.data.generation, part.sourceSeq⟩

/-- The checks of `reassemble_expected` on the part at a position. -/
def checkPart (first : TransportPart Z) (count position : Nat) (part : TransportPart Z) :
    Except FragmentTransportError Unit := do
  refuseIf (position ≥ u32Limit) (.tooManyParts count)
  refuseIf (part.partIndex ≠ position ∨ part.isContinuation ≠ decide (position > 0))
    (.partOrder position part.partIndex)
  refuseIf (part.partCount ≠ first.partCount)
    (.inconsistentPartCount position first.partCount part.partCount)
  refuseIf (part.data.terminalId ≠ first.data.terminalId)
    (.terminalMismatch position first.data.terminalId part.data.terminalId)
  refuseIf (part.data.generation ≠ first.data.generation)
    (.generationMismatch position first.data.generation part.data.generation)
  refuseIf (part.sourceSeq ≠ first.sourceSeq)
    (.sourceSeqMismatch position first.sourceSeq part.sourceSeq)
  refuseIf (first.data.seq + position ≥ u64Limit) .sequenceExhausted
  refuseIf (part.data.seq ≠ first.data.seq + position)
    (.sequenceGap position (first.data.seq + position) part.data.seq)
  refuseIf (part.data.text.utf8ByteSize > maxFragmentTextBytes)
    (.partTooLarge position part.data.text.utf8ByteSize maxFragmentTextBytes)

/-- The loop of `reassemble_expected`: the bytes of all parts, saturating. -/
def checkParts (first : TransportPart Z) (count : Nat) :
    Nat → Nat → List (TransportPart Z) → Except FragmentTransportError Nat
  | _, total, [] => .ok total
  | position, total, part :: parts => do
    checkPart first count position part
    checkParts first count (position + 1)
      (min (total + part.data.text.utf8ByteSize) (u64Limit - 1)) parts

def reassembleExpected (parts : List (TransportPart Z)) (expected : FragmentIdentity) :
    Except FragmentTransportError String :=
  match parts with
  | [] => .error .emptyParts
  | first :: _ =>
    if first.identity ≠ expected then .error (.identityMismatch expected first.identity)
    else if first.partCount ≠ parts.length then
      .error (.partCountMismatch first.partCount parts.length)
    else do
      let total ← checkParts first parts.length 0 0 parts
      refuseIf (total > maxFragmentBytes) (.oversizedFragment total maxFragmentBytes)
      pure (String.join (parts.map (·.data.text)))

def reassemble (parts : List (TransportPart Z)) : Except FragmentTransportError String :=
  match parts with
  | [] => .error .emptyParts
  | first :: _ => reassembleExpected parts first.identity

/-! ## The cursor -/

structure FragmentTransportCursor where
  terminalId : String
  generation : UInt64
  nextSeq : Nat

def FragmentTransportCursor.mapChunk (cursor : FragmentTransportCursor) (chunk : StreamChunk)
    (zone : Option Z) :
    Except TransportStop (List (TransportPart Z)) × FragmentTransportCursor :=
  match preSplitChunk chunk cursor.terminalId cursor.generation zone cursor.nextSeq with
  | .error stop => (.error stop, cursor)
  | .ok parts =>
    if cursor.nextSeq + parts.length ≥ u64Limit then (.error (.refused .sequenceExhausted), cursor)
    else (.ok parts, { cursor with nextSeq := cursor.nextSeq + parts.length })

/-- One call of `map_chunk` and its answer. -/
structure MappedChunk (Z : Type) where
  chunk : StreamChunk
  answer : Except TransportStop (List (TransportPart Z))

def MappedChunk.parts (mapped : MappedChunk Z) : List (TransportPart Z) :=
  match mapped.answer with
  | .ok parts => parts
  | .error _ => []

def FragmentTransportCursor.mapChunks (cursor : FragmentTransportCursor) :
    List (StreamChunk × Option Z) → List (MappedChunk Z)
  | [] => []
  | (chunk, zone) :: chunks =>
    let (answer, cursor) := cursor.mapChunk chunk zone
    ⟨chunk, answer⟩ :: cursor.mapChunks chunks

end BittyAi.Slice
