/-
BittyAi.Control.Record — the records of the provider-publication control channel.

The records, their codec and their bounds come from `bitty_ipc_api::provider_publication`, which
is outside the repository. The types here carry what `bitty-ai-control` reads of them. The codec,
the bounds and the sequence and session checks are fields of `PublicationApi`: what is proved holds
for every choice of them, and a result that needs more of a check takes it as a hypothesis.
-/
import Mathlib.Logic.Basic

namespace BittyAi.Control

abbrev Bytes32 : Type := Vector UInt8 32

structure SessionId where
  bytes : Bytes32
  deriving DecidableEq

structure LifetimeId where
  bytes : Bytes32
  deriving DecidableEq

structure AckId where
  bytes : Bytes32
  deriving DecidableEq

structure ReceiptId where
  bytes : Bytes32

inductive Sender where
  | core
  | helper
  deriving DecidableEq

inductive Kind where
  | establish
  | established
  | projection
  | publish
  | ack
  | bind
  | bound
  | invalidate
  | lifetime
  | error
  | admitRequest
  | admitted
  deriving DecidableEq

inductive Reason where
  | registryMutation
  | sourceMutation
  | reset
  | supersession
  | grantLoss
  | shutdown
  deriving DecidableEq

inductive ErrorCode where
  | invalidControl
  | unavailable
  | resourceLimit
  | other (code : Nat)

structure ControlError where
  label : String

structure ProviderRoutingProjection where
  canonicalBytes : List UInt8

structure PublicationId where
  launchNonce : SessionId
  version : Nat
  deriving DecidableEq

structure Tuple where
  publicationId : PublicationId
  version : Nat
  digest : Bytes32
  deriving DecidableEq

structure EstablishmentEcho where
  bootstrapFormatVersion : Nat
  controlProtocolVersion : Nat
  coreInstanceNonce : Bytes32
  launchNonce : SessionId
  componentName : String
  descriptorVersion : String
  executableName : String
  executableSha256 : Bytes32
  componentProtocolVersion : Nat
  controlChannelNonce : Bytes32
  dataChannelNonce : Bytes32
  delegationPurpose : String
  controlProfile : String
  keyMaterialProfile : Nat
  keyType : Nat
  coreLeafDigest : Bytes32
  helperLeafDigest : Bytes32

structure ProjectionBody where
  lifetimeId : LifetimeId
  feedRevision : Nat
  payload : ProviderRoutingProjection

structure PublishBody where
  lifetimeId : LifetimeId
  feedRevision : Nat
  tuple : Tuple
  payload : ProviderRoutingProjection

/-- The body of an `Ack` and of the `Bind` that answers it. -/
structure AckBody where
  lifetimeId : LifetimeId
  feedRevision : Nat
  tuple : Tuple
  ackId : AckId

structure BoundBody where
  lifetimeId : LifetimeId
  feedRevision : Nat
  tuple : Tuple
  receipt : ReceiptId

structure InvalidateBody where
  lifetimeId : LifetimeId
  feedRevision : Nat
  reason : Reason

structure LifetimeBody where
  lifetimeId : LifetimeId
  feedRevision : Nat

inductive RecordBody where
  | establish (echo : EstablishmentEcho)
  | established (echo : EstablishmentEcho) (lifetimeId : LifetimeId)
  | projection (body : ProjectionBody)
  | publish (body : PublishBody)
  | ack (body : AckBody)
  | bind (body : AckBody)
  | bound (body : BoundBody)
  | invalidate (body : InvalidateBody)
  | lifetime (body : LifetimeBody)
  | error (code : ErrorCode)
  | admitRequest
  | admitted

def RecordBody.kind : RecordBody → Kind
  | .establish _ => .establish
  | .established _ _ => .established
  | .projection _ => .projection
  | .publish _ => .publish
  | .ack _ => .ack
  | .bind _ => .bind
  | .bound _ => .bound
  | .invalidate _ => .invalidate
  | .lifetime _ => .lifetime
  | .error _ => .error
  | .admitRequest => .admitRequest
  | .admitted => .admitted

structure ControlRecord where
  sender : Sender
  sequence : Nat
  sessionId : SessionId
  body : RecordBody

/-- The codec, the bounds and the checks of `provider_publication`. The two validations tell
whether they pass. -/
structure PublicationApi where
  encode : ControlRecord → Except ControlError (List UInt8)
  decode : List UInt8 → Except ControlError ControlRecord
  kindFromCode : Nat → Option Kind
  controlHeaderBytes : Nat
  controlFrameMaxBytes : Nat
  controlSmallRecordMaxBytes : Nat
  controlInflightMaxBytes : Nat
  controlQueueMaxRecords : Nat
  nextExpectedSequence : Nat → Option Nat
  validateIncomingSequence : Nat → Nat → Bool
  validateSession : SessionId → SessionId → Bool

end BittyAi.Control
