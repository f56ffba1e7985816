/-
BittyAi.Control.State — `bitty-ai-control/src/state.rs`: the helper side of the provider
publication channel.

A call reads at most one record of the peer and runs on the whole state, which survives a refusal.
The registry is any type with a view of it; its answers may change its own state. The source of
secure random bytes is a script of answers kept with the state. `sends` is a history variable: the
records handed to the stream, each with the phase in which it was sent; no function reads it. The
lifetime secret is drawn and not kept, since nothing reads it.
-/
import BittyAi.Control.Framing

namespace BittyAi.Control

open Lib Exiting

/-! ## The registry seam -/

inductive RegistryError where
  | unavailable
  | invalidRevision
  deriving DecidableEq

structure RegistrySnapshot where
  feedRevision : Nat
  projection : ProviderRoutingProjection
  revision_ne_zero : feedRevision ≠ 0

structure RegistryView (ρ : Type) where
  snapshot : ρ → Except RegistryError RegistrySnapshot × ρ
  retainedMatches : Nat → List UInt8 → ρ → Except RegistryError Bool × ρ

/-! ## Expectations of the launch -/

structure EstablishmentExpectations where
  echo : EstablishmentEcho

def EstablishmentExpectations.launchNonce (expected : EstablishmentExpectations) : SessionId :=
  expected.echo.launchNonce

def EstablishmentExpectations.verify (expected : EstablishmentExpectations)
    (echo : EstablishmentEcho) : Except String Unit := do
  let own := expected.echo
  refuseIf (echo.bootstrapFormatVersion ≠ own.bootstrapFormatVersion) "bootstrap_format_version"
  refuseIf (echo.controlProtocolVersion ≠ own.controlProtocolVersion) "control_protocol_version"
  refuseIf (echo.coreInstanceNonce ≠ own.coreInstanceNonce) "core_instance_nonce"
  refuseIf (echo.launchNonce ≠ own.launchNonce) "launch_nonce"
  refuseIf (echo.componentName ≠ own.componentName) "component_name"
  refuseIf (echo.descriptorVersion ≠ own.descriptorVersion) "descriptor_version"
  refuseIf (echo.executableName ≠ own.executableName) "executable_name"
  refuseIf (echo.executableSha256 ≠ own.executableSha256) "executable_sha256"
  refuseIf (echo.componentProtocolVersion ≠ own.componentProtocolVersion)
    "component_protocol_version"
  refuseIf (echo.controlChannelNonce ≠ own.controlChannelNonce) "control_channel_nonce"
  refuseIf (echo.dataChannelNonce ≠ own.dataChannelNonce) "data_channel_nonce"
  refuseIf (echo.delegationPurpose ≠ own.delegationPurpose) "delegation_purpose"
  refuseIf (echo.controlProfile ≠ own.controlProfile) "control_profile"
  refuseIf (echo.keyMaterialProfile ≠ own.keyMaterialProfile) "key_material_profile"
  refuseIf (echo.keyType ≠ own.keyType) "key_type"
  refuseIf (echo.coreLeafDigest ≠ own.coreLeafDigest) "core_leaf_digest"
  refuseIf (echo.helperLeafDigest ≠ own.helperLeafDigest) "helper_leaf_digest"

/-! ## Results -/

inductive ProofState where
  | unestablished
  | unbound
  | acknowledged
  | bound (receipt : ReceiptId)
  | revoked

inductive RevocationReason where
  | controlTransport
  | protocolViolation
  | establishmentMismatch
  | registryUnavailable
  | retainedBytesMismatch
  | resourceLimit
  | randomUnavailable
  | versionExhausted
  | peerError
  | peerWithdrewAuthority
  | localClose
  deriving DecidableEq

inductive Step where
  | published (tuple : Tuple)
  | bound (tuple : Tuple) (receipt : ReceiptId)
  | lifetimeRotated (previous current : LifetimeId) (feedRevision : Nat) (reason : Reason)
  | predecessorCorrelated
  | authorityClosed (reason : Reason)
  | peerError (code : ErrorCode)

/-- Rust `HelperControlError`, without the errors of the constructors. -/
inductive HelperControlError where
  | frame (error : FrameError)
  | record (error : ControlError)
  | establishmentMismatch (field : String)
  | sessionMismatch
  | sequenceMismatch
  | unexpectedRecord (kind : Kind)
  | unexpectedSender (sender : Sender)
  | coreRegistryMutation
  | staleAuthority
  | publicationAlreadyPending
  | publicationIdentityMismatch
  | publicationVersionNotIncreasing
  | noPendingBind
  | bindMismatch
  | retainedBytesMismatch
  | registry (error : RegistryError)
  | randomUnavailable
  | versionExhausted
  | resourceLimit
  | peerError (code : ErrorCode)
  | notEstablished
  | alreadyEstablished
  | closed

/-! ## The state -/

inductive Phase where
  | awaitingEstablish
  | ready
  | awaitingBind
  | revoked
  deriving DecidableEq

structure Lifetime where
  id : LifetimeId
  feedRevision : Nat
  deriving DecidableEq

structure RetiredLifetime where
  id : LifetimeId
  feedRevision : Nat
  deriving DecidableEq

structure PendingPublication where
  lifetimeId : LifetimeId
  feedRevision : Nat
  tuple : Tuple
  retained : List UInt8
  ackId : AckId

structure ActiveReceipt where
  tuple : Tuple
  receipt : ReceiptId

structure RetiredIdentifiers where
  lifetime : Option LifetimeId := none
  receipt : Option ReceiptId := none

namespace RetiredIdentifiers

def noteLifetime (retired : RetiredIdentifiers) (lifetime : LifetimeId) : RetiredIdentifiers :=
  { retired with lifetime := some lifetime }

def noteReceipt (retired : RetiredIdentifiers) (receipt : ReceiptId) : RetiredIdentifiers :=
  { retired with receipt := some receipt }

def lifetimeConflicts (retired : RetiredIdentifiers) (candidate : LifetimeId) : Bool :=
  retired.lifetime == some candidate

def receiptBytesConflict (retired : RetiredIdentifiers) (candidate : Bytes32) : Bool :=
  retired.receipt.any fun receipt => receipt.bytes == candidate

end RetiredIdentifiers

structure Fault where
  error : HelperControlError
  reason : RevocationReason
  code : Option ErrorCode

namespace Fault

def protocol (error : HelperControlError) : Fault :=
  { error, reason := .protocolViolation, code := some .invalidControl }

def establishment (field : String) : Fault :=
  { error := .establishmentMismatch field, reason := .establishmentMismatch
    code := some .invalidControl }

def registry (error : RegistryError) : Fault :=
  { error := .registry error, reason := .registryUnavailable, code := some .unavailable }

def retained : Fault :=
  { error := .retainedBytesMismatch, reason := .retainedBytesMismatch
    code := some .invalidControl }

def version : Fault :=
  { error := .versionExhausted, reason := .versionExhausted, code := some .resourceLimit }

def resource (error : HelperControlError) : Fault :=
  { error, reason := .resourceLimit, code := some .resourceLimit }

def transport (error : HelperControlError) : Fault :=
  { error, reason := .controlTransport, code := none }

def peer (code : ErrorCode) : Fault :=
  { error := .peerError code, reason := .peerError, code := none }

def randomFor (error : HelperControlError) : Fault :=
  { error, reason := .randomUnavailable, code := some .unavailable }

end Fault

def frameError : FrameError → HelperControlError
  | .record error => .record error
  | other => .frame other

def sendFault (error : HelperControlError) : Fault :=
  match error with
  | .versionExhausted => { error, reason := .versionExhausted, code := none }
  | .resourceLimit | .frame (.allocationFailed _) | .frame (.queueFull _)
  | .frame (.byteBudgetExceeded _) =>
    { error, reason := .resourceLimit, code := some .resourceLimit }
  | _ => { error, reason := .controlTransport, code := none }

/-- The classification of a failed read in `read_incoming`. -/
def readFault (error : FrameError) : Fault :=
  match error with
  | .closed | .truncatedPrefix _ | .truncatedBody _ _ | .io | .writeZero =>
    .transport (frameError error)
  | .allocationFailed _ | .queueFull _ | .byteBudgetExceeded _ => .resource (frameError error)
  | _ => .protocol (frameError error)

structure HelperControl (ρ : Type) where
  stream : ControlStream
  writer : FrameWriter
  registry : ρ
  expectations : EstablishmentExpectations
  sessionId : SessionId
  phase : Phase
  inSequence : Nat
  outSequence : Nat
  lifetime : Option Lifetime
  predecessor : Option RetiredLifetime
  retired : RetiredIdentifiers
  pending : Option PendingPublication
  receipt : Option ActiveReceipt
  lastCorePublicationVersion : Nat
  revocation : Option RevocationReason
  random : List (Option Bytes32)
  sends : List (Phase × ControlRecord)

namespace HelperControl

variable {ρ : Type}

def withExpectations (stream : ControlStream) (registry : ρ)
    (expectations : EstablishmentExpectations) (random : List (Option Bytes32)) :
    HelperControl ρ :=
  { stream, writer := {}, registry, expectations
    sessionId := expectations.launchNonce
    phase := .awaitingEstablish
    inSequence := 0
    outSequence := 0
    lifetime := none
    predecessor := none
    retired := {}
    pending := none
    receipt := none
    lastCorePublicationVersion := 0
    revocation := none
    random
    sends := [] }

def proofState (c : HelperControl ρ) : ProofState :=
  if c.phase = .revoked then .revoked
  else if c.lifetime.isNone then .unestablished
  else if c.pending.isSome then .acknowledged
  else
    match c.receipt with
    | some receipt => .bound receipt.receipt
    | none => .unbound

abbrev Op (ρ α : Type) : Type := Exiting (HelperControl ρ) HelperControlError α

/-! ## Sending and failing -/

def clearAuthority (c : HelperControl ρ) : HelperControl ρ :=
  { c with
    lifetime := none
    predecessor := none
    retired := {}
    pending := none
    receipt := none
    writer := c.writer.clear }

variable (api : PublicationApi)

def flushWriter : Op ρ Unit := fun c =>
  let (result, writer, stream) := c.writer.flush api c.stream
  (result.mapError frameError, { c with writer, stream })

def rawSend (body : RecordBody) : Op ρ Unit := do
  let sequence ← attempt fun c =>
    (api.nextExpectedSequence c.outSequence).elim (.error .versionExhausted) .ok
  let record ← read fun c : HelperControl ρ =>
    { sender := .helper, sequence, sessionId := c.sessionId, body : ControlRecord }
  let writer ← attempt fun c => (c.writer.enqueue api record).mapError frameError
  modify fun c => { c with writer, sends := c.sends ++ [(c.phase, record)] }
  flushWriter api
  modify fun c => { c with outSequence := sequence }

def sendErrorBestEffort (code : ErrorCode) (c : HelperControl ρ) : HelperControl ρ :=
  (rawSend api (.error code) c).2

def fail (fault : Fault) (c : HelperControl ρ) : HelperControl ρ :=
  if c.phase = .revoked then c
  else
    let c := { c with phase := .revoked, revocation := some fault.reason }.clearAuthority
    match fault.code with
    | some code => c.sendErrorBestEffort api code
    | none => c

def refuseWith {α : Type} (fault : Fault) : Op ρ α := do
  modify (fail api fault)
  exit fault.error

def refuseIfFault (condition : Prop) [Decidable condition] (fault : Fault) : Op ρ Unit :=
  if condition then refuseWith api fault else pure ()

def emit (body : RecordBody) : Op ρ Unit :=
  (rawSend api body).onExit fun error c => c.fail api (sendFault error)

/-! ## Guards and intake -/

def requireActive : Op ρ Unit :=
  attempt fun c =>
    match c.phase with
    | .revoked => .error .closed
    | .awaitingEstablish => .error .notEstablished
    | .ready | .awaitingBind => .ok ()

def currentIdentity : Op ρ Lifetime := attempt fun c => c.lifetime.elim (.error .notEstablished) .ok

def readStream (c : HelperControl ρ) : Except FrameError ControlRecord × HelperControl ρ :=
  let (result, stream) := readRecord api c.stream
  (result, { c with stream })

def readIncoming : Op ρ ControlRecord := do
  match ← lift (readStream api) with
  | .ok record => pure record
  | .error error => refuseWith api (readFault error)

def validateEnvelope (record : ControlRecord) : Op ρ Unit := do
  refuseIfFault api (record.sender ≠ .core) (.protocol (.unexpectedSender record.sender))
  let sessionId ← read (·.sessionId)
  refuseIfFault api (api.validateSession sessionId record.sessionId = false)
    (.protocol .sessionMismatch)
  let inSequence ← read (·.inSequence)
  refuseIfFault api (api.validateIncomingSequence inSequence record.sequence = false)
    (.protocol .sequenceMismatch)
  modify fun c => { c with inSequence := record.sequence }

variable (view : RegistryView ρ)

def readSnapshot (c : HelperControl ρ) : Except RegistryError RegistrySnapshot × HelperControl ρ :=
  let (result, registry) := view.snapshot c.registry
  (result, { c with registry })

def snapshotOrFail : Op ρ RegistrySnapshot := do
  match ← lift (readSnapshot view) with
  | .ok snapshot => pure snapshot
  | .error error => refuseWith api (.registry error)

/-- And each `secure_random.fill`. -/
def randomId : Op ρ Bytes32 := fun c =>
  match c.random with
  | some bytes :: random => (.ok bytes, { c with random })
  | none :: random => (.error .randomUnavailable, { c with random })
  | [] => (.error .randomUnavailable, c)

def freshLifetime (feedRevision : Nat) : Op ρ Lifetime := do
  let bytes ← randomId
  let _secret ← randomId
  let id : LifetimeId := { bytes }
  let repeated ← read fun c : HelperControl ρ =>
    c.lifetime.any (·.id == id) || c.predecessor.any (·.id == id) || c.retired.lifetimeConflicts id
  refuse (repeated = true) .randomUnavailable
  pure { id, feedRevision }

/-- `fresh_lifetime` with its failure, as every caller writes it. -/
def freshLifetimeOrFail (feedRevision : Nat) : Op ρ Lifetime :=
  (freshLifetime feedRevision).onExit fun error c => c.fail api (.randomFor error)

def retireCurrent (c : HelperControl ρ) : HelperControl ρ :=
  match c.lifetime with
  | some previous =>
    { c with
      lifetime := none
      retired := c.retired.noteLifetime previous.id
      predecessor := some { id := previous.id, feedRevision := previous.feedRevision } }
  | none => c

def clearReceipt (c : HelperControl ρ) : HelperControl ρ :=
  match c.receipt with
  | some receipt => { c with receipt := none, retired := c.retired.noteReceipt receipt.receipt }
  | none => c

def announceLifetime (lifetime : Lifetime) (projection : ProviderRoutingProjection) :
    Op ρ Unit := do
  modify fun c => { c.retireCurrent with lifetime := some lifetime, phase := .ready }
  emit api (.lifetime { lifetimeId := lifetime.id, feedRevision := lifetime.feedRevision })
  emit api (.projection
    { lifetimeId := lifetime.id, feedRevision := lifetime.feedRevision, payload := projection })

/-! ## The calls -/

def establish : Op ρ Unit := do
  let phase ← read (·.phase)
  refuse (phase = .revoked) .closed
  refuseIfFault api (phase ≠ .awaitingEstablish) (.protocol .alreadyEstablished)
  let record ← readIncoming api
  validateEnvelope api record
  match record.body with
  | .establish echo =>
    let expectations ← read (·.expectations)
    match expectations.verify echo with
    | .error field => refuseWith api (.establishment field)
    | .ok () =>
      let snapshot ← snapshotOrFail api view
      let lifetime ← freshLifetimeOrFail api snapshot.feedRevision
      modify fun c => { c with lifetime := some lifetime, phase := .ready }
      emit api (.established echo lifetime.id)
      emit api (.projection
        { lifetimeId := lifetime.id, feedRevision := snapshot.feedRevision
          payload := snapshot.projection })
  | body => refuseWith api (.protocol (.unexpectedRecord body.kind))

def handlePublish (body : PublishBody) : Op ρ Step := do
  let current ← currentIdentity
  refuseIfFault api (body.lifetimeId ≠ current.id ∨ body.feedRevision ≠ current.feedRevision)
    (.protocol .staleAuthority)
  let c ← read id
  refuseIfFault api (c.pending.isSome = true) (.protocol .publicationAlreadyPending)
  refuseIfFault api (body.tuple.publicationId.launchNonce ≠ c.sessionId)
    (.protocol .publicationIdentityMismatch)
  let version := body.tuple.publicationId.version
  refuseIfFault api (version ≤ c.lastCorePublicationVersion)
    (.protocol .publicationVersionNotIncreasing)
  let retained := body.payload.canonicalBytes
  let bytes ← randomId.onExit fun error c => c.fail api (.randomFor error)
  let ackId : AckId := { bytes }
  refuseIfFault api
    (c.receipt.any (·.receipt.bytes == ackId.bytes) ||
      c.retired.receiptBytesConflict ackId.bytes) (.randomFor .randomUnavailable)
  modify clearReceipt
  modify fun c =>
    { c with
      pending := some
        { lifetimeId := current.id, feedRevision := current.feedRevision, tuple := body.tuple
          retained, ackId }
      lastCorePublicationVersion := version
      phase := .awaitingBind }
  emit api (.ack
    { lifetimeId := current.id, feedRevision := current.feedRevision, tuple := body.tuple, ackId })
  pure (.published body.tuple)

def compareRetained (pending : PendingPublication) (c : HelperControl ρ) :
    Except RegistryError Bool × HelperControl ρ :=
  let (result, registry) := view.retainedMatches pending.feedRevision pending.retained c.registry
  (result, { c with registry })

def handleBind (body : AckBody) : Op ρ Step := do
  match ← lift fun c : HelperControl ρ => (c.pending, { c with pending := none }) with
  | none => refuseWith api (.protocol .noPendingBind)
  | some pending =>
    refuseIfFault api
      (body.lifetimeId ≠ pending.lifetimeId ∨ body.feedRevision ≠ pending.feedRevision ∨
        body.tuple ≠ pending.tuple ∨ body.ackId ≠ pending.ackId) (.protocol .bindMismatch)
    match ← lift (compareRetained view pending) with
    | .ok false => refuseWith api .retained
    | .error error => refuseWith api (.registry error)
    | .ok true =>
      let bytes ← randomId.onExit fun error c => c.fail api (.randomFor error)
      let receipt : ReceiptId := { bytes }
      let retired ← read (·.retired)
      refuseIfFault api
        (receipt.bytes == pending.ackId.bytes || retired.receiptBytesConflict receipt.bytes)
        (.randomFor .randomUnavailable)
      modify fun c =>
        { c with receipt := some { tuple := pending.tuple, receipt }, phase := .ready }
      emit api (.bound
        { lifetimeId := pending.lifetimeId, feedRevision := pending.feedRevision
          tuple := pending.tuple, receipt })
      pure (.bound pending.tuple receipt)

/-- The Core withdraws authority in `handle_invalidate`. -/
def withdrawAuthority (reason : Reason) : Op ρ Step := do
  modify fun c =>
    { c with phase := .revoked, revocation := some .peerWithdrewAuthority }.clearAuthority
  pure (.authorityClosed reason)

def handleInvalidate (body : InvalidateBody) : Op ρ Step := do
  refuseIfFault api (body.reason = .registryMutation) (.protocol .coreRegistryMutation)
  let c ← read id
  if c.lifetime = some { id := body.lifetimeId, feedRevision := body.feedRevision } then do
    modify fun c => { c with pending := none }.clearReceipt
    if body.reason = .grantLoss ∨ body.reason = .shutdown then withdrawAuthority body.reason
    else do
      let snapshot ← snapshotOrFail api view
      refuseIfFault api (snapshot.feedRevision ≠ body.feedRevision) (.protocol .staleAuthority)
      let lifetime ← freshLifetimeOrFail api body.feedRevision
      announceLifetime api lifetime snapshot.projection
      pure (.lifetimeRotated body.lifetimeId lifetime.id body.feedRevision body.reason)
  else if c.predecessor = some { id := body.lifetimeId, feedRevision := body.feedRevision } then do
    modify fun c => { c with predecessor := none }
    if body.reason = .grantLoss ∨ body.reason = .shutdown then withdrawAuthority body.reason
    else pure .predecessorCorrelated
  else refuseWith api (.protocol .staleAuthority)

def step : Op ρ Step := do
  requireActive
  let record ← readIncoming api
  validateEnvelope api record
  match record.body with
  | .publish body => handlePublish api body
  | .bind body => handleBind api view body
  | .invalidate body => handleInvalidate api view body
  | .error code => do
    modify (fail api (.peer code))
    pure (.peerError code)
  | body => refuseWith api (.protocol (.unexpectedRecord body.kind))

/-- The closure of `registry_mutated`, on the registry of the state. -/
def runMutation (mutate : ρ → Except RegistryError Unit × ρ) (c : HelperControl ρ) :
    Except RegistryError Unit × HelperControl ρ :=
  let (result, registry) := mutate c.registry
  (result, { c with registry })

def registryMutated (mutate : ρ → Except RegistryError Unit × ρ) : Op ρ Step := do
  requireActive
  let previous ← currentIdentity
  refuseIfFault api (previous.feedRevision ≥ 0xffffffffffffffff) .version
  let newRevision := previous.feedRevision + 1
  let before ← snapshotOrFail api view
  refuseIfFault api (before.feedRevision ≠ previous.feedRevision) (.protocol .staleAuthority)
  modify fun c => { c with pending := none }.clearReceipt
  emit api (.invalidate
    { lifetimeId := previous.id, feedRevision := previous.feedRevision
      reason := .registryMutation })
  match ← lift (runMutation mutate) with
  | .error error => refuseWith api (.registry error)
  | .ok () =>
    let after ← snapshotOrFail api view
    refuseIfFault api (after.feedRevision ≠ newRevision) (.registry .invalidRevision)
    let lifetime ← freshLifetimeOrFail api newRevision
    announceLifetime api lifetime after.projection
    pure (.lifetimeRotated previous.id lifetime.id newRevision .registryMutation)

def reset : Op ρ Step := do
  requireActive
  let previous ← currentIdentity
  modify fun c => { c with pending := none }.clearReceipt
  emit api (.invalidate
    { lifetimeId := previous.id, feedRevision := previous.feedRevision, reason := .reset })
  let snapshot ← snapshotOrFail api view
  refuseIfFault api (snapshot.feedRevision ≠ previous.feedRevision) (.protocol .staleAuthority)
  let lifetime ← freshLifetimeOrFail api previous.feedRevision
  announceLifetime api lifetime snapshot.projection
  pure (.lifetimeRotated previous.id lifetime.id previous.feedRevision .reset)

def close (c : HelperControl ρ) : HelperControl ρ :=
  if c.phase = .revoked then c
  else { c with phase := .revoked, revocation := some .localClose }.clearAuthority

end HelperControl

/-! ## Runs of calls -/

inductive Call (ρ : Type) where
  | establish
  | step
  | registryMutated (mutate : ρ → Except RegistryError Unit × ρ)
  | reset
  | close

inductive Answer where
  | done
  | step (step : Step)

def Call.run {ρ : Type} (api : PublicationApi) (view : RegistryView ρ) :
    Call ρ → HelperControl.Op ρ Answer
  | .establish => (fun _ => Answer.done) <$> HelperControl.establish api view
  | .step => Answer.step <$> HelperControl.step api view
  | .registryMutated mutate => Answer.step <$> HelperControl.registryMutated api view mutate
  | .reset => Answer.step <$> HelperControl.reset api view
  | .close => (fun _ => Answer.done) <$> modify HelperControl.close

def serve {ρ : Type} (api : PublicationApi) (view : RegistryView ρ) (calls : List (Call ρ))
    (c : HelperControl ρ) : HelperControl ρ :=
  calls.foldl (fun c call => (call.run api view c).2) c

end BittyAi.Control
