/-
BittyAi.Runtime.Provider — messages, turn requests and answers of the model
boundary (`provider.rs`), the fallback table and the cost estimate of
`selection.rs`, and the chunks of `stream.rs` that carry an answer to the host.

`TurnRequest::sampling` is left out: the turn loop, the only caller modelled
here, always sends `None`.
-/
import BittyAi.Runtime.Context
import BittyAi.Runtime.Tool

namespace BittyAi.Runtime

open Lib

/-! ## Messages and requests -/

def defaultRequestTimeoutMs : Nat := 5000
def maxRequestTimeoutMs : Nat := 30000

/-- The largest `u64`: where the routing arithmetic saturates. -/
def u64Max : Nat := 2 ^ 64 - 1

inductive Role where
  | user
  | assistant
  | tool
  deriving DecidableEq

structure Message where
  role : Role
  content : String

def Message.byteLen (message : Message) : Nat := message.content.utf8ByteSize

structure TurnRequest where
  model : String
  messages : List Message
  contextRefs : List String
  tools : List String
  budgetBytes : Nat
  timeoutMs : Nat
  nowMs : Nat

def TurnRequest.totalMessageBytes (request : TurnRequest) : Nat :=
  (request.messages.map Message.byteLen).sum

structure ProviderUsage where
  inputTokens : Nat
  outputTokens : Nat
  cachedTokens : Nat
  cacheWriteTokens : Nat

/-- A `ToolCallRequest` has the fields of a `ToolCall`. -/
structure ProviderTurn where
  text : String
  toolCalls : List ToolCall
  latencyMs : Nat
  usage : ProviderUsage

/-! ## Errors -/

inductive ModelCapability where
  | text
  | streaming
  | toolUse
  | imageInput
  | audioInput
  | audioOutput
  | videoInput
  | reasoning
  deriving DecidableEq

inductive ProviderError where
  | unknownModel (name : String)
  | budgetExceeded (limit actual : Nat)
  | timeout (timeoutMs latencyMs : Nat)
  | timeoutTooLarge (max actual : Nat)
  | invalidProviderId (id : String)
  | transport (provider reason : String)
  | auth (provider reason : String)
  | rateLimited (provider : String) (retryAfterMs : Option Nat)
  | capabilityMismatch (provider model : String) (missing : List ModelCapability)
  | modelUnavailable (provider model : String)
  | unknown (provider reason : String)
  | invalidSampling
  | unsupportedSampling (field : String)
  deriving DecidableEq

/-- The `Display` text of `ProviderError::TimeoutTooLarge`, the one the turn
loop renders. -/
def timeoutTooLargeText (max actual : Nat) : String :=
  s!"timeout {actual}ms exceeds ceiling {max}ms"

/-- The conversion `From<ProviderError> for AgentError` bounds the host text. -/
def ProviderError.bounded : ProviderError → ProviderError
  | .transport provider reason => .transport (boundReason provider) (boundReason reason)
  | .auth provider reason => .auth (boundReason provider) (boundReason reason)
  | .rateLimited provider retryAfterMs => .rateLimited (boundReason provider) retryAfterMs
  | .unknown provider reason => .unknown (boundReason provider) (boundReason reason)
  | e => e

/-! ## Fallback -/

inductive FallbackDirective where
  | advance
  | stop
  deriving DecidableEq

def fallbackDirective : ProviderError → FallbackDirective
  | .transport _ _ | .rateLimited _ _ | .modelUnavailable _ _ | .timeout _ _ => .advance
  | .unknownModel _ | .budgetExceeded _ _ | .timeoutTooLarge _ _ | .invalidProviderId _
  | .invalidSampling | .unsupportedSampling _ | .auth _ _ | .capabilityMismatch _ _ _
  | .unknown _ _ => .stop

/-! ## Cost -/

def effectiveCostWeight (weight : Nat) : Nat := if weight = 0 then 1 else weight

/-- Rust `saturating_mul` and `saturating_add` on `u64`. -/
def satMul (a b : Nat) : Nat := min (a * b) u64Max
def satAdd (a b : Nat) : Nat := min (a + b) u64Max

def estimateCost (inputTokens outputTokens inputWeight outputWeight : Nat) : Nat :=
  satAdd (satMul inputTokens (effectiveCostWeight inputWeight))
    (satMul outputTokens (effectiveCostWeight outputWeight))

def roundUsage (request : TurnRequest) (turn : ProviderTurn) : Nat × Nat :=
  if turn.usage.inputTokens ≠ 0 ∨ turn.usage.outputTokens ≠ 0 then
    (turn.usage.inputTokens, turn.usage.outputTokens)
  else (estimateTokens request.totalMessageBytes, estimateTokens turn.text.utf8ByteSize)

/-! ## Stream chunks -/

def maxFragmentBytes : Nat := 64 * 1024

def seqSpace : Nat := 2 ^ 32

inductive FragmentKind where
  | markdown
  | diff
  | toolCard
  deriving DecidableEq

structure Fragment where
  kind : FragmentKind
  bytes : List UInt8

structure StreamChunk where
  seq : Nat
  total : Nat
  isFinal : Bool
  fragment : Fragment

inductive StreamError where
  | oversizedFragment (limit actual : Nat)
  | invalidFraming (reason : String)
  deriving DecidableEq

/-- Cut characters into the longest runs of at most 64 KiB. `taken` is the run so far in reverse
and `size` its bytes. -/
def cutText (taken : List Char) (size : Nat) : List Char → List (List Char)
  | [] => if taken.isEmpty then [] else [taken.reverse]
  | c :: rest =>
    if size + c.utf8Size > maxFragmentBytes then taken.reverse :: cutText [c] c.utf8Size rest
    else cutText (c :: taken) (size + c.utf8Size) rest

def fragmentText (kind : FragmentKind) (text : String) : List Fragment :=
  (cutText [] 0 text.toList).map fun run => ⟨kind, utf8Bytes (String.ofList run)⟩

end BittyAi.Runtime
