/-
BittyAi.Control.StateTheorems — what a call on the helper can do, said once.

`Authority` is the part of the state that decides what the peer may use: everything but the
wire, the registry and the source of randomness. `Effect` lists the ways in which a call can
change it, with what each of them has checked; `run_effect` shows that every call, from
every state, is one of them.
-/
import BittyAi.Control.State

namespace BittyAi.Control

open Lib Exiting HelperControl

variable {ρ : Type} {api : PublicationApi} {view : RegistryView ρ} {c c' : HelperControl ρ}

/-! ## Authority -/

structure Authority where
  sessionId : SessionId
  phase : Phase
  inSequence : Nat
  lifetime : Option Lifetime
  predecessor : Option RetiredLifetime
  retired : RetiredIdentifiers
  pending : Option PendingPublication
  receipt : Option ActiveReceipt
  lastCorePublicationVersion : Nat

def HelperControl.authority (c : HelperControl ρ) : Authority where
  sessionId := c.sessionId
  phase := c.phase
  inSequence := c.inSequence
  lifetime := c.lifetime
  predecessor := c.predecessor
  retired := c.retired
  pending := c.pending
  receipt := c.receipt
  lastCorePublicationVersion := c.lastCorePublicationVersion

namespace Authority

def revoked (a : Authority) : Authority :=
  { a with
    phase := .revoked
    lifetime := none
    predecessor := none
    retired := {}
    pending := none
    receipt := none }

def taken : Option ControlRecord → Authority → Authority
  | none, a => a
  | some record, a => { a with inSequence := record.sequence }

def unbound (a : Authority) : Authority :=
  { a with
    pending := none
    receipt := none
    retired := match a.receipt with
      | some receipt => a.retired.noteReceipt receipt.receipt
      | none => a.retired }

def installed (lifetime : Lifetime) (a : Authority) : Authority :=
  match a.lifetime with
  | some previous =>
    { a with
      phase := .ready
      lifetime := some lifetime
      retired := a.retired.noteLifetime previous.id
      predecessor := some { id := previous.id, feedRevision := previous.feedRevision } }
  | none => { a with phase := .ready, lifetime := some lifetime }

def rotated (lifetime : Lifetime) (a : Authority) : Authority := a.unbound.installed lifetime

theorem phase_installed (lifetime : Lifetime) (a : Authority) :
    (a.installed lifetime).phase = .ready := by
  unfold installed
  cases a.lifetime <;> rfl

theorem revoked_installed (lifetime : Lifetime) (a : Authority) :
    (a.installed lifetime).revoked = a.revoked := by
  unfold installed
  cases a.lifetime <;> rfl

theorem rotated_spec (lifetime : Lifetime) (a : Authority) :
    (a.rotated lifetime).sessionId = a.sessionId ∧ (a.rotated lifetime).inSequence = a.inSequence ∧
      (a.rotated lifetime).lastCorePublicationVersion = a.lastCorePublicationVersion ∧
      (a.rotated lifetime).pending = none ∧ (a.rotated lifetime).receipt = none := by
  unfold rotated installed
  cases a.unbound.lifetime <;> exact ⟨rfl, rfl, rfl, rfl, rfl⟩

def Fresh (lifetime : Lifetime) (a : Authority) : Prop :=
  (∀ current, a.lifetime = some current → current.id ≠ lifetime.id) ∧
    (∀ predecessor, a.predecessor = some predecessor → predecessor.id ≠ lifetime.id) ∧
    a.retired.lifetime ≠ some lifetime.id

theorem fresh_unbound {lifetime : Lifetime} {a : Authority} :
    a.unbound.Fresh lifetime ↔ a.Fresh lifetime := by
  unfold Fresh unbound
  cases a.receipt <;> exact Iff.rfl

end Authority

theorem authority_clearReceipt (c : HelperControl ρ) :
    { c with pending := none }.clearReceipt.authority = c.authority.unbound := by
  unfold clearReceipt Authority.unbound authority
  cases c.receipt <;> rfl

theorem sends_clearReceipt (c : HelperControl ρ) : c.clearReceipt.sends = c.sends := by
  unfold clearReceipt
  cases c.receipt <;> rfl

theorem authority_pending (pending : PendingPublication) (version : Nat) (c : HelperControl ρ) :
    { c.clearReceipt with
      pending := some pending
      lastCorePublicationVersion := version
      phase := .awaitingBind }.authority =
    { c.authority.unbound with
      pending := some pending
      lastCorePublicationVersion := version
      phase := .awaitingBind } := by
  cases hreceipt : c.receipt <;>
    simp [clearReceipt, Authority.unbound, authority, hreceipt]

theorem authority_retireCurrent (lifetime : Lifetime) (c : HelperControl ρ) :
    { c.retireCurrent with lifetime := some lifetime, phase := .ready }.authority =
      c.authority.installed lifetime := by
  unfold retireCurrent Authority.installed authority
  cases c.lifetime <;> rfl

/-! ## The wire and the registry leave authority alone -/

variable {R : HelperControlError → HelperControl ρ → Prop}

namespace HelperControl

variable {Q : Unit → HelperControl ρ → Prop}

theorem wp_flushWriter
    (hok : ∀ writer stream, Q () { c with writer, stream })
    (hexit : ∀ error writer stream, R error { c with writer, stream }) :
    wp (flushWriter api) Q R c := by
  refine wp_intro ?_ ?_
  · rintro ⟨⟩ c' h
    obtain ⟨-, rfl⟩ := Prod.mk.inj h
    exact hok _ _
  · intro error c' h
    obtain ⟨-, rfl⟩ := Prod.mk.inj h
    exact hexit _ _ _

def Sent (body : RecordBody) (c c' : HelperControl ρ) : Prop :=
  ∃ (phase : Phase) (record : ControlRecord), record.body = body ∧
    c'.sends = c.sends ++ [(phase, record)]

theorem rawSend_authority (body : RecordBody) : wp (rawSend api body)
      (fun _ c' => c'.authority = c.authority ∧ Sent body c c')
      (fun _ c' => c'.authority = c.authority) c := by
  unfold rawSend
  simp only [wp_bind, wp_attempt, wp_read, wp_modify, implies_true, and_true]
  intro sequence _ writer _
  exact wp_flushWriter (fun _ _ => ⟨rfl, _, _, rfl, rfl⟩) (fun _ _ _ => rfl)

theorem fail_authority (fault : Fault) (h : c.phase ≠ .revoked) :
    (c.fail api fault).authority = c.authority.revoked := by
  unfold fail
  rw [if_neg h]
  cases fault.code with
  | none => rfl
  | some code =>
    exact wp_state.mp (wp_mono (rawSend_authority (.error code)) (fun _ _ hsent => hsent.1)
        (fun _ _ hsent => hsent))

theorem emit_authority (body : RecordBody) (h : c.phase ≠ .revoked) : wp (emit api body)
      (fun _ c' => c'.authority = c.authority ∧ Sent body c c')
      (fun _ c' => c'.authority = c.authority.revoked) c := by
  unfold emit
  rw [wp_onExit]
  refine wp_mono (rawSend_authority body) (fun _ _ hsent => hsent) ?_
  intro error c' hsame
  have hphase : c'.phase = c.phase := congrArg Authority.phase hsame
  rw [fail_authority _ (hphase ▸ h), hsame]

@[simp] theorem wp_refuseWith {α : Type} {fault : Fault} {Q : α → HelperControl ρ → Prop} :
    wp (refuseWith api fault) Q R c ↔ R fault.error (c.fail api fault) := by
  simp [refuseWith]

@[simp] theorem wp_refuseIfFault {condition : Prop} [Decidable condition] {fault : Fault} :
    wp (refuseIfFault api condition fault) Q R c ↔
      (condition → R fault.error (c.fail api fault)) ∧ (¬condition → Q () c) := by
  simp [refuseIfFault]

/-! ## Intake -/

/-- The record passes the checks that `validate_envelope` makes. -/
def Envelope (api : PublicationApi) (record : ControlRecord) (c : HelperControl ρ) : Prop :=
  record.sender = .core ∧ api.validateSession c.sessionId record.sessionId = true ∧
    api.validateIncomingSequence c.inSequence record.sequence = true

instance (record : ControlRecord) (c : HelperControl ρ) : Decidable (Envelope api record c) :=
  inferInstanceAs (Decidable (_ ∧ _ ∧ _))

/-- The record that comes next on the stream, whoever has sent it and whatever its number. -/
def decoded (api : PublicationApi) (c : HelperControl ρ) : Option ControlRecord :=
  (readRecord api c.stream).1.toOption

def incoming (api : PublicationApi) (c : HelperControl ρ) : Option ControlRecord :=
  (c.decoded api).filter fun record => Envelope api record c

theorem intake_spec {α : Type} {next : ControlRecord → Op ρ α} {Q : α → HelperControl ρ → Prop}
    (h : c.phase ≠ .revoked)
    (htaken : ∀ record, c.incoming api = some record → wp (next record) Q R
      { c with stream := (readRecord api c.stream).2, inSequence := record.sequence })
    (hrevoked : ∀ error c', c.incoming api = none → c'.authority = c.authority.revoked →
      R error c') :
    wp (do
      let record ← readIncoming api
      validateEnvelope api record
      next record) Q R c := by
  unfold readIncoming validateEnvelope
  simp only [wp_bind, wp_lift]
  unfold incoming decoded at htaken hrevoked
  cases hread : (readRecord api c.stream).1 with
  | error error =>
    have hresult : (c.readStream api).1 = .error error := hread
    simp only [hresult, wp_refuseWith]
    simp only [hread] at hrevoked
    exact hrevoked _ _ rfl (fail_authority _ h)
  | ok record =>
    have hresult : (c.readStream api).1 = .ok record := hread
    simp only [hread] at htaken hrevoked
    simp only [hresult, wp_pure, wp_read, wp_modify, wp_refuseIfFault]
    have hfail : ∀ fault : Fault, ¬Envelope api record c →
        R fault.error ((c.readStream api).2.fail api fault) :=
      fun fault hbad => hrevoked _ _ (by simp [Except.toOption, hbad]) (fail_authority fault h)
    refine ⟨fun hsender => hfail _ (fun henv => hsender henv.1), fun hsender =>
      ⟨fun hsession => hfail _ (fun henv => Bool.eq_false_iff.mp hsession henv.2.1), fun hsession =>
      ⟨fun hsequence => hfail _ (fun henv => Bool.eq_false_iff.mp hsequence henv.2.2),
        fun hsequence => htaken record ?_⟩⟩⟩
    have henvelope : Envelope api record c :=
      ⟨not_not.mp hsender, Bool.not_eq_false _ ▸ hsession, Bool.not_eq_false _ ▸ hsequence⟩
    simp [Except.toOption, henvelope]

/-! ## Snapshots, random identifiers and rotation -/

theorem snapshotOrFail_spec (h : c.phase ≠ .revoked) : wp (snapshotOrFail api view)
      (fun _ c' => ∃ registry, c' = { c with registry })
      (fun _ c' => c'.authority = c.authority.revoked) c := by
  unfold snapshotOrFail
  simp only [wp_bind, wp_lift]
  cases hread : (c.readSnapshot view).1 with
  | ok snapshot => exact wp_pure.mpr ⟨_, rfl⟩
  | error error => exact wp_refuseWith.mpr (fail_authority _ h)

theorem wp_randomId {Q : Bytes32 → HelperControl ρ → Prop}
    {R : HelperControlError → HelperControl ρ → Prop}
    (hok : ∀ bytes random, Q bytes { c with random })
    (herror : ∀ error random, R error { c with random }) : wp randomId Q R c := by
  unfold wp randomId
  cases hrandom : c.random with
  | nil => exact herror _ c.random
  | cons answer random =>
    cases answer with
    | none => exact herror _ random
    | some bytes => exact hok bytes random

theorem freshLifetimeOrFail_spec (feedRevision : Nat) (h : c.phase ≠ .revoked) :
    wp (freshLifetimeOrFail api feedRevision)
      (fun lifetime c' => lifetime.feedRevision = feedRevision ∧ c.authority.Fresh lifetime ∧
        ∃ random, c' = { c with random })
      (fun _ c' => c'.authority = c.authority.revoked) c := by
  unfold freshLifetimeOrFail freshLifetime
  simp only [wp_onExit, wp_bind, wp_read, wp_refuse, wp_pure]
  have hfail : ∀ error random, ({ c with random }.fail api (.randomFor error)).authority =
      c.authority.revoked := fun error random => fail_authority _ h
  refine wp_randomId (fun bytes _ => ?_) fun _ _ => hfail _ _
  refine wp_randomId (fun _ random => ?_) fun _ _ => hfail _ _
  refine ⟨fun _ => hfail _ _, fun hrepeated => ⟨trivial, ?_, random, rfl⟩⟩
  simp only [Bool.not_eq_true, Bool.or_eq_false_iff, Option.any_eq_false,
    beq_eq_false_iff_ne, RetiredIdentifiers.lifetimeConflicts] at hrepeated
  exact ⟨fun current hcurrent => hrepeated.1.1 current hcurrent,
    fun predecessor hpredecessor => hrepeated.1.2 predecessor hpredecessor, hrepeated.2⟩

theorem announceLifetime_spec {lifetime : Lifetime} {projection : ProviderRoutingProjection} :
    wp (announceLifetime api lifetime projection)
      (fun _ c' => c'.authority = c.authority.installed lifetime)
      (fun _ c' => c'.authority = c.authority.revoked) c := by
  have hinstalled := authority_retireCurrent lifetime c
  have hrevoked := Authority.revoked_installed lifetime c.authority
  unfold announceLifetime
  simp only [wp_bind, wp_modify]
  refine wp_mono (emit_authority _ (by simp)) ?_ ?_
  · rintro ⟨⟩ c₁ ⟨hfirst, -⟩
    rw [hinstalled] at hfirst
    have hphase : c₁.phase = .ready :=
      (congrArg Authority.phase hfirst).trans (Authority.phase_installed ..)
    refine wp_mono (emit_authority _ (by simp [hphase])) ?_ ?_
    · rintro ⟨⟩ c₂ ⟨hsecond, -⟩
      exact hsecond.trans hfirst
    · intro error c₂ hfail
      rw [hfail, hfirst, hrevoked]
  · intro error c' hfail
    rw [hfail, hinstalled, hrevoked]

end HelperControl

/-! ## Effects -/

/-- An `Invalidate` names the live lifetime or the one retired last. -/
def HelperControl.Names (c : HelperControl ρ) (body : InvalidateBody) : Prop :=
  c.lifetime = some { id := body.lifetimeId, feedRevision := body.feedRevision } ∨
    c.predecessor = some { id := body.lifetimeId, feedRevision := body.feedRevision }

/-- The answers of a call that revokes. -/
def Ending (c : HelperControl ρ) (acted : Option ControlRecord) :
    Except HelperControlError Answer → Prop
  | .error _ => True
  | .ok .done => acted = none
  | .ok (.step (.authorityClosed _)) => ∃ record body, acted = some record ∧
      record.body = .invalidate body ∧ c.Names body
  | .ok (.step (.peerError _)) => ∃ record code, acted = some record ∧ record.body = .error code
  | .ok (.step _) => False

/-- A publication version is the last one, or the one of a newer `Publish` that was taken. -/
def KnownVersion (c : HelperControl ρ) (acted : Option ControlRecord) (version : Nat) : Prop :=
  version = c.lastCorePublicationVersion ∨
    c.lastCorePublicationVersion < version ∧ ∃ record body, acted = some record ∧
      record.body = .publish body ∧ body.tuple.publicationId.version = version

/-- What a call can do to authority: `acted` is the record it has taken, and the last index its
answer. -/
inductive Effect (view : RegistryView ρ) (c c' : HelperControl ρ) :
    Option ControlRecord → Except HelperControlError Answer → Prop
  | refused {acted : Option ControlRecord} {error : HelperControlError}
      (idle : error = .notEstablished ∨ error = .closed)
      (inactive : c.phase = .revoked ∨ c.phase = .awaitingEstablish ∨ c.lifetime = none)
      (unread : acted ≠ none → c.phase ≠ .awaitingEstablish)
      (after : c'.authority = c.authority.taken acted) : Effect view c c' acted (.error error)
  | closedAgain (phase : c.phase = .revoked) (after : c'.authority = c.authority) :
      Effect view c c' none (.ok .done)
  | revoked {acted : Option ControlRecord} {answer : Except HelperControlError Answer}
      (version : Nat) (ending : Ending c acted answer) (active : c.phase ≠ .revoked)
      (known : KnownVersion c acted version)
      (after : c'.authority =
        { c.authority.taken acted with lastCorePublicationVersion := version }.revoked) :
      Effect view c c' acted answer
  | established {record : ControlRecord} {echo : EstablishmentEcho} {lifetime : Lifetime}
      (phase : c.phase = .awaitingEstablish) (body : record.body = .establish echo)
      (after : c'.authority =
        { c.authority.taken (some record) with lifetime := some lifetime, phase := .ready }) :
      Effect view c c' (some record) (.ok .done)
  | published {record : ControlRecord} {body : PublishBody} {ackId : AckId}
      (published : record.body = .publish body)
      (live : c.lifetime = some { id := body.lifetimeId, feedRevision := body.feedRevision })
      (idle : c.pending = none) (launch : body.tuple.publicationId.launchNonce = c.sessionId)
      (newer : c.lastCorePublicationVersion < body.tuple.publicationId.version)
      (acknowledged : c.Sent (.ack
        { lifetimeId := body.lifetimeId, feedRevision := body.feedRevision, tuple := body.tuple
          ackId }) c')
      (after : c'.authority =
        { (c.authority.taken (some record)).unbound with
          pending := some
            { lifetimeId := body.lifetimeId, feedRevision := body.feedRevision
              tuple := body.tuple, retained := body.payload.canonicalBytes, ackId }
          lastCorePublicationVersion := body.tuple.publicationId.version
          phase := .awaitingBind }) :
      Effect view c c' (some record) (.ok (.step (.published body.tuple)))
  | bound {record : ControlRecord} {pending : PendingPublication} {receipt : ReceiptId}
      (bind : record.body = .bind
        { lifetimeId := pending.lifetimeId, feedRevision := pending.feedRevision
          tuple := pending.tuple, ackId := pending.ackId })
      (awaited : c.pending = some pending)
      (matched :
        (view.retainedMatches pending.feedRevision pending.retained c.registry).1 = .ok true)
      (after : c'.authority =
        { c.authority.taken (some record) with
          pending := none
          receipt := some { tuple := pending.tuple, receipt }
          phase := .ready }) :
      Effect view c c' (some record) (.ok (.step (.bound pending.tuple receipt)))
  | rotated {acted : Option ControlRecord} {previous lifetime : Lifetime} {reason : Reason}
      (live : c.lifetime = some previous)
      (named : ∀ record, acted = some record → record.body = .invalidate
        { lifetimeId := previous.id, feedRevision := previous.feedRevision, reason })
      (fresh : c.authority.Fresh lifetime)
      (after : c'.authority = (c.authority.taken acted).rotated lifetime) :
      Effect view c c' acted
        (.ok (.step (.lifetimeRotated previous.id lifetime.id lifetime.feedRevision reason)))
  | correlated {record : ControlRecord} {body : InvalidateBody}
      (invalidate : record.body = .invalidate body)
      (named : c.predecessor = some { id := body.lifetimeId, feedRevision := body.feedRevision })
      (spared : body.reason = .sourceMutation ∨ body.reason = .reset ∨ body.reason = .supersession)
      (quiet : c'.sends = c.sends)
      (after : c'.authority = { c.authority.taken (some record) with predecessor := none }) :
      Effect view c c' (some record) (.ok (.step .predecessorCorrelated))

theorem Effect.failed {acted : Option ControlRecord} {error : HelperControlError}
    (active : c.phase ≠ .revoked)
    (after : c'.authority = (c.authority.taken acted).revoked) :
    Effect view c c' acted (.error error) := by
  refine .revoked c.lastCorePublicationVersion trivial active (.inl rfl) ?_
  rw [after]
  cases acted <;> rfl

/-- A stretch of a call on `c`, from a state within it, ends with an effect of the call. -/
def Acts (view : RegistryView ρ) (c : HelperControl ρ) (acted : Option ControlRecord)
    (m : HelperControl.Op ρ Step) : HelperControl ρ → Prop :=
  wp m (fun step c' => Effect view c c' acted (.ok (.step step)))
    (fun error c' => Effect view c c' acted (.error error))

namespace HelperControl

theorem currentIdentity_spec {Q : Lifetime → HelperControl ρ → Prop}
    (hlive : ∀ current, c.lifetime = some current → Q current c)
    (hnone : c.lifetime = none → R .notEstablished c) :
    wp currentIdentity Q R c := by
  unfold currentIdentity
  cases hlifetime : c.lifetime with
  | none => simpa [hlifetime] using hnone hlifetime
  | some current => simpa [hlifetime] using hlive current hlifetime

section Taken

variable {record : ControlRecord} {stream : ControlStream}

theorem handlePublish_effect {body : PublishBody} (active : c.phase ≠ .revoked)
    (begun : c.phase ≠ .awaitingEstablish) (hbody : record.body = .publish body) :
    Acts view c (some record) (handlePublish api body)
      { c with stream, inSequence := record.sequence } := by
  unfold Acts handlePublish
  simp only [wp_bind]
  refine currentIdentity_spec (fun current hlive => ?_) (fun hnone => ?_)
  · simp only [wp_read, wp_modify, wp_pure, wp_onExit,
      wp_refuseIfFault]
    have hfail : ∀ fault : Fault, Effect view c
        ({ c with stream, inSequence := record.sequence }.fail api fault) (some record)
        (.error fault.error) :=
      fun fault => .failed active (fail_authority fault active)
    refine ⟨fun _ => hfail _, fun hcurrent => ⟨fun _ => hfail _, fun hpending =>
      ⟨fun _ => hfail _, fun hlaunch => ⟨fun _ => hfail _, fun hnewer => ?_⟩⟩⟩⟩
    obtain rfl : current = { id := body.lifetimeId, feedRevision := body.feedRevision } := by
      simp only [not_or, not_not] at hcurrent
      rw [hcurrent.1, hcurrent.2]
    refine wp_randomId (fun bytes _ => ?_) fun _ _ => .failed active (fail_authority _ active)
    refine ⟨fun _ => .failed active (fail_authority _ active), fun _ => ?_⟩
    refine wp_mono (emit_authority _ (by simp)) ?_ ?_
    · rintro ⟨⟩ c' ⟨hsame, phase, sent, hsent, hsends⟩
      refine .published hbody hlive (by simpa using hpending) (not_not.mp hlaunch)
        (Nat.lt_of_not_le hnewer) ⟨phase, sent, hsent, ?_⟩ (hsame.trans (authority_pending ..))
      rw [hsends]
      exact congrArg (· ++ _) (sends_clearReceipt _)
    · intro error c' hrevoked
      refine .revoked body.tuple.publicationId.version trivial active
        (.inr ⟨Nat.lt_of_not_le hnewer, record, body, rfl, hbody, rfl⟩) ?_
      rw [hrevoked, authority_pending]
      rfl
  · exact .refused (.inl rfl) (.inr (.inr hnone)) (fun _ => begun) rfl

theorem handleBind_effect {body : AckBody} (active : c.phase ≠ .revoked)
    (hbody : record.body = .bind body) :
    Acts view c (some record) (handleBind api view body)
      { c with stream, inSequence := record.sequence } := by
  unfold Acts handleBind
  simp only [wp_bind, wp_lift]
  cases hpending : c.pending with
  | none => exact wp_refuseWith.mpr (.failed active (fail_authority _ active))
  | some pending =>
    simp only [wp_bind, wp_refuseIfFault, wp_lift]
    refine ⟨fun _ => .failed active (fail_authority _ active), fun hexact => ?_⟩
    obtain rfl : body = { lifetimeId := pending.lifetimeId, feedRevision := pending.feedRevision
                          tuple := pending.tuple, ackId := pending.ackId } := by
      simp only [not_or, not_not] at hexact
      rw [← hexact.1, ← hexact.2.1, ← hexact.2.2.1, ← hexact.2.2.2]
    cases hmatched : (view.retainedMatches pending.feedRevision pending.retained c.registry).1 with
    | error error =>
      simp only [compareRetained, hmatched, wp_refuseWith]
      exact .failed active (fail_authority _ active)
    | ok matched =>
      cases matched with
      | false =>
        simp only [compareRetained, hmatched, wp_refuseWith]
        exact .failed active (fail_authority _ active)
      | true =>
        simp only [compareRetained, hmatched, wp_bind, wp_onExit, wp_read,
          wp_modify, wp_pure, wp_refuseIfFault]
        refine wp_randomId (fun bytes _ => ?_) fun _ _ => .failed active (fail_authority _ active)
        refine ⟨fun _ => .failed active (fail_authority _ active), fun _ => ?_⟩
        refine wp_mono (emit_authority _ (by simp)) ?_ ?_
        · rintro ⟨⟩ c' ⟨hsame, -⟩
          exact .bound hbody hpending hmatched hsame
        · intro error c' hrevoked
          exact .failed active hrevoked

/-- The three verbs that rotate end alike: a snapshot at the old or new revision, a fresh
lifetime, and its announcement. -/
theorem rotation_effect (api : PublicationApi) (view : RegistryView ρ)
    (acted : Option ControlRecord) (reason : Reason) (revision : Nat) (fault : Fault)
    {previous : Lifetime} {c₁ : HelperControl ρ} (active : c.phase ≠ .revoked)
    (live : c.lifetime = some previous)
    (named : ∀ record, acted = some record → record.body = .invalidate
      { lifetimeId := previous.id, feedRevision := previous.feedRevision, reason })
    (hunbound : c₁.authority = (c.authority.taken acted).unbound) :
    Acts view c acted (do
      let snapshot ← snapshotOrFail api view
      refuseIfFault api (snapshot.feedRevision ≠ revision) fault
      let lifetime ← freshLifetimeOrFail api revision
      announceLifetime api lifetime snapshot.projection
      pure (Step.lifetimeRotated previous.id lifetime.id revision reason)) c₁ := by
  have hphase : c₁.phase ≠ .revoked := by
    have hsame : c₁.phase = c.phase :=
      (congrArg Authority.phase hunbound).trans (by cases acted <;> rfl)
    rwa [hsame]
  have hrevoked : c₁.authority.revoked = (c.authority.taken acted).revoked := by
    rw [hunbound]
    rfl
  simp only [Acts, wp_bind, wp_refuseIfFault, wp_pure]
  refine wp_mono (snapshotOrFail_spec hphase) ?_
    (fun error c' hfail => .failed active (hfail.trans hrevoked))
  rintro snapshot _ ⟨registry, rfl⟩
  refine ⟨fun _ => .failed active
    ((fail_authority (c := { c₁ with registry }) fault hphase).trans hrevoked), fun _ => ?_⟩
  refine wp_mono (freshLifetimeOrFail_spec revision hphase) ?_
    (fun error c' hfail => .failed active (hfail.trans hrevoked))
  rintro lifetime _ ⟨rfl, hfresh, random, rfl⟩
  refine wp_mono announceLifetime_spec ?_
    (fun error c' hfail => .failed active (hfail.trans hrevoked))
  rintro ⟨⟩ c' hinstalled
  refine .rotated live named ?_ (hinstalled.trans (congrArg _ hunbound))
  have hfresh' : c₁.authority.Fresh lifetime := hfresh
  rw [hunbound, Authority.fresh_unbound] at hfresh'
  cases acted <;> exact hfresh'

theorem withdrawAuthority_effect {c₁ : HelperControl ρ} {body : InvalidateBody}
    (active : c.phase ≠ .revoked) (hbody : record.body = .invalidate body) (hnames : c.Names body)
    (hrevoked : c₁.authority.revoked = (c.authority.taken (some record)).revoked) :
    Acts view c (some record) (withdrawAuthority body.reason) c₁ := by
  unfold Acts withdrawAuthority
  simp only [wp_bind, wp_modify, wp_pure]
  refine .revoked c.lastCorePublicationVersion ⟨record, body, rfl, hbody, hnames⟩ active
    (.inl rfl) ?_
  have hcleared : { c₁ with
      phase := .revoked, revocation := some .peerWithdrewAuthority }.clearAuthority.authority =
      c₁.authority.revoked := rfl
  rw [hcleared, hrevoked]
  rfl

theorem handleInvalidate_effect {body : InvalidateBody} (active : c.phase ≠ .revoked)
    (hbody : record.body = .invalidate body) :
    Acts view c (some record) (handleInvalidate api view body)
      { c with stream, inSequence := record.sequence } := by
  have hunbound := authority_clearReceipt { c with stream, inSequence := record.sequence }
  unfold Acts handleInvalidate
  simp only [wp_bind, wp_read, wp_ite, wp_modify, wp_pure, wp_refuseIfFault, wp_refuseWith]
  refine ⟨fun _ => .failed active (fail_authority _ active), fun hreason =>
    ⟨fun hcurrent => ⟨fun _ => ?_, fun hrotates => ?_⟩, fun _ =>
      ⟨fun hpredecessor => ⟨fun _ => ?_, fun hspared => ?_⟩, fun _ => ?_⟩⟩⟩
  · exact withdrawAuthority_effect active hbody (.inl hcurrent) (by rw [hunbound]; rfl)
  · have hrotated := rotation_effect api view (some record) body.reason body.feedRevision
      (.protocol .staleAuthority) active hcurrent (fun _ h => Option.some.inj h ▸ hbody) hunbound
    simpa only [Acts, wp_bind, wp_pure, wp_refuseIfFault] using hrotated
  · exact withdrawAuthority_effect active hbody (.inr hpredecessor) rfl
  · refine .correlated hbody hpredecessor ?_ rfl rfl
    cases hcase : body.reason <;> simp_all
  · exact .failed active (fail_authority _ active)

end Taken

theorem requireActive_spec {Q : Unit → HelperControl ρ → Prop}
    (hactive : c.phase = .ready ∨ c.phase = .awaitingBind → c.phase ≠ .revoked → Q () c)
    (hrevoked : c.phase = .revoked → R .closed c)
    (hawaiting : c.phase = .awaitingEstablish → R .notEstablished c) :
    wp requireActive Q R c := by
  unfold requireActive
  rw [wp_attempt]
  cases hphase : c.phase <;> simp [hphase, hactive, hrevoked, hawaiting]

/-! ## The calls -/

def stepped (api : PublicationApi) (c : HelperControl ρ) : Option ControlRecord :=
  if c.phase = .ready ∨ c.phase = .awaitingBind then c.incoming api else none

def establishing (api : PublicationApi) (c : HelperControl ρ) : Option ControlRecord :=
  if c.phase = .awaitingEstablish then c.incoming api else none

theorem step_effect : Acts view c (c.stepped api) (step api view) c := by
  have hidle : c.phase = .revoked ∨ c.phase = .awaitingEstablish → c.stepped api = none := by
    intro hphase
    unfold stepped
    rcases hphase with hphase | hphase <;> simp [hphase]
  rw [Acts, step, wp_bind]
  refine requireActive_spec (fun hphase active => ?_) (fun hphase => ?_) (fun hphase => ?_)
  · rw [show c.stepped api = c.incoming api from if_pos hphase]
    refine intake_spec active (fun record htaken => ?_) (fun error c' hnone hrevoked => ?_)
    · rw [htaken]
      split
      · exact handlePublish_effect active (by rcases hphase with h | h <;> simp [h]) ‹_›
      · exact handleBind_effect active ‹_›
      · exact handleInvalidate_effect active ‹_›
      · case _ code hbody =>
        simp only [wp_bind, wp_modify, wp_pure]
        refine .revoked c.lastCorePublicationVersion ⟨record, code, rfl, hbody⟩ active
          (.inl rfl) ?_
        exact fail_authority _ active
      · exact wp_refuseWith.mpr (.failed active (fail_authority _ active))
    · rw [hnone]
      exact .failed active hrevoked
  · rw [hidle (.inl hphase)]
    exact .refused (.inr rfl) (.inl hphase) (absurd rfl) rfl
  · rw [hidle (.inr hphase)]
    exact .refused (.inl rfl) (.inr (.inl hphase)) (absurd rfl) rfl

theorem currentLifetime_effect {next : Lifetime → Op ρ Step}
    (hnext : ∀ previous, c.phase ≠ .revoked → c.lifetime = some previous →
      Acts view c none (next previous) c) :
    Acts view c none (do
      requireActive
      let previous ← currentIdentity
      next previous) c := by
  rw [Acts, wp_bind]
  refine requireActive_spec (fun _ active => ?_) (fun hphase => ?_) (fun hphase => ?_)
  · rw [wp_bind]
    exact currentIdentity_spec (fun previous live => hnext previous active live)
      (fun hnone => .refused (.inl rfl) (.inr (.inr hnone)) (absurd rfl) rfl)
  · exact .refused (.inr rfl) (.inl hphase) (absurd rfl) rfl
  · exact .refused (.inl rfl) (.inr (.inl hphase)) (absurd rfl) rfl

theorem invalidation_effect {next : Op ρ Step} {body : RecordBody} {c₀ : HelperControl ρ}
    (active : c.phase ≠ .revoked) (hsame : c₀.authority = c.authority)
    (hnext : ∀ c₁ : HelperControl ρ, c₁.authority = c.authority.unbound →
      Acts view c none next c₁) :
    Acts view c none (do
      Exiting.modify fun c => { c with pending := none }.clearReceipt
      emit api body
      next) c₀ := by
  have hunbound : { c₀ with pending := none }.clearReceipt.authority = c.authority.unbound := by
    rw [authority_clearReceipt, hsame]
  have hphase : { c₀ with pending := none }.clearReceipt.phase = c.phase :=
    congrArg Authority.phase hunbound
  rw [Acts, wp_bind, wp_modify, wp_bind]
  refine wp_mono (emit_authority _ (hphase ▸ active)) ?_ ?_
  · rintro ⟨⟩ c₁ ⟨hemitted, -⟩
    exact hnext c₁ (hemitted.trans hunbound)
  · intro error c' hrevoked
    exact .failed active (hrevoked.trans (by rw [hunbound]; rfl))

theorem reset_effect : Acts view c none (reset api view) c := by
  refine currentLifetime_effect (fun previous active live => ?_)
  refine invalidation_effect active rfl (fun c₁ hunbound => ?_)
  exact rotation_effect api view none .reset previous.feedRevision (.protocol .staleAuthority)
    active live nofun hunbound

theorem registryMutated_effect (mutate : ρ → Except RegistryError Unit × ρ) :
    Acts view c none (registryMutated api view mutate) c := by
  refine currentLifetime_effect (fun previous active live => ?_)
  rw [Acts, wp_bind, wp_refuseIfFault]
  refine ⟨fun _ => .failed active (fail_authority _ active), fun _ => ?_⟩
  rw [wp_bind]
  refine wp_mono (snapshotOrFail_spec active) ?_ (fun error c' hrevoked => .failed active hrevoked)
  rintro before _ ⟨registry, rfl⟩
  rw [wp_bind, wp_refuseIfFault]
  refine ⟨fun _ => .failed active (fail_authority _ active), fun _ => ?_⟩
  refine invalidation_effect active rfl (fun c₁ hunbound => ?_)
  have hphase : c₁.phase = c.phase := congrArg Authority.phase hunbound
  rw [Acts, wp_bind, wp_lift]
  cases hmutated : (c₁.runMutation mutate).1 with
  | error error =>
    refine wp_refuseWith.mpr (.failed active ?_)
    rw [fail_authority (c := (c₁.runMutation mutate).2) _ (hphase ▸ active)]
    exact (congrArg Authority.revoked hunbound).trans rfl
  | ok _ =>
    exact rotation_effect api view none .registryMutation (previous.feedRevision + 1)
      (.registry .invalidRevision) active live nofun hunbound

theorem establish_effect : wp (establish api view)
      (fun _ c' => Effect view c c' (c.establishing api) (.ok .done))
      (fun error c' => Effect view c c' (c.establishing api) (.error error)) c := by
  unfold establish
  rw [wp_bind, wp_read, wp_bind, wp_refuse]
  by_cases hrevoked : c.phase = .revoked
  · rw [show c.establishing api = none from if_neg (by simp [hrevoked])]
    exact ⟨fun _ => .refused (.inr rfl) (.inl hrevoked) (absurd rfl) rfl,
      fun hactive => absurd hrevoked hactive⟩
  refine ⟨fun h => absurd h hrevoked, fun _ => ?_⟩
  rw [wp_bind, wp_refuseIfFault]
  refine ⟨fun hphase => ?_, fun hphase => ?_⟩
  · rw [show c.establishing api = none from if_neg hphase]
    exact .failed hrevoked (fail_authority _ hrevoked)
  · rw [show c.establishing api = c.incoming api from if_pos (not_not.mp hphase)]
    refine intake_spec hrevoked (fun record htaken => ?_)
      (fun error c' hnone hcleared => by rw [hnone]; exact .failed hrevoked hcleared)
    rw [htaken]
    split
    · case _ echo hbody =>
      rw [wp_bind, wp_read]
      split
      · exact wp_refuseWith.mpr (.failed hrevoked (fail_authority _ hrevoked))
      · rw [wp_bind]
        refine wp_mono (snapshotOrFail_spec hrevoked) ?_
          (fun error c' hcleared => .failed hrevoked hcleared)
        rintro snapshot _ ⟨registry, rfl⟩
        rw [wp_bind]
        refine wp_mono (freshLifetimeOrFail_spec _ hrevoked) ?_
          (fun error c' hcleared => .failed hrevoked hcleared)
        rintro lifetime _ ⟨-, -, random, rfl⟩
        rw [wp_bind, wp_modify, wp_bind]
        refine wp_mono (emit_authority _ (by simp)) ?_
          (fun error c' hcleared => .failed hrevoked hcleared)
        rintro ⟨⟩ c₁ ⟨hfirst, -⟩
        have hready : c₁.phase = .ready := congrArg Authority.phase hfirst
        refine wp_mono (emit_authority _ (by simp [hready])) ?_ ?_
        · rintro ⟨⟩ c₂ ⟨hsecond, -⟩
          exact .established (not_not.mp hphase) hbody (hsecond.trans hfirst)
        · intro error c₂ hcleared
          exact .failed hrevoked (hcleared.trans (by rw [hfirst]; rfl))
    · exact wp_refuseWith.mpr (.failed hrevoked (fail_authority _ hrevoked))

theorem close_effect : Effect view c c.close none (.ok .done) := by
  unfold close
  split
  · exact .closedAgain ‹_› rfl
  · exact .revoked c.lastCorePublicationVersion rfl ‹_› (.inl rfl) rfl

end HelperControl

def Call.acted (api : PublicationApi) (c : HelperControl ρ) : Call ρ → Option ControlRecord
  | .establish => c.establishing api
  | .step => c.stepped api
  | .registryMutated _ | .reset | .close => none

theorem run_effect (api : PublicationApi) (view : RegistryView ρ) (call : Call ρ)
    (c : HelperControl ρ) :
    Effect view c (call.run api view c).2 (call.acted api c) (call.run api view c).1 := by
  have hspec : wp (call.run api view)
      (fun answer c' => Effect view c c' (call.acted api c) (.ok answer))
      (fun error c' => Effect view c c' (call.acted api c) (.error error)) c := by
    cases call with
    | establish => exact wp_map.mpr establish_effect
    | step => exact wp_map.mpr step_effect
    | registryMutated mutate => exact wp_map.mpr (registryMutated_effect mutate)
    | reset => exact wp_map.mpr reset_effect
    | close => exact wp_map.mpr (wp_modify.mpr close_effect)
  cases hrun : call.run api view c with
  | mk answer c' =>
    cases answer with
    | ok answer => exact of_wp_ok hspec hrun
    | error error => exact of_wp_error hspec hrun

end BittyAi.Control
