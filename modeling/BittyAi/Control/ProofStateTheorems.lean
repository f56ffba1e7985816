/-
BittyAi.Control.ProofStateTheorems — the proof state of the helper over any run of calls.

`Authority.Sound` ties the phase to the lifetime, the pending publication and the receipt;
every effect keeps it. A receipt then has a history.
-/
import BittyAi.Control.StateTheorems

namespace BittyAi.Control

open Lib HelperControl List

variable {ρ : Type} {api : PublicationApi} {view : RegistryView ρ} {c c' : HelperControl ρ}
variable {acted : Option ControlRecord} {body : PublishBody} {receipt : ReceiptId}
  {answer : Except HelperControlError Answer}

/-! ## The invariant of a state -/

structure Authority.Sound (a : Authority) : Prop where
  live : a.phase = .ready ∨ a.phase = .awaitingBind ↔ a.lifetime.isSome = true
  awaiting : a.phase = .awaitingBind ↔ a.pending.isSome = true
  current : ∀ pending, a.pending = some pending →
    a.lifetime = some { id := pending.lifetimeId, feedRevision := pending.feedRevision } ∧
      a.receipt = none
  held : a.receipt.isSome = true → a.lifetime.isSome = true
  cleared : a.phase = .revoked → a.predecessor = none

namespace Authority.Sound

variable {a : Authority}

theorem revoked (a : Authority) : a.revoked.Sound := by constructor <;> simp [Authority.revoked]

theorem taken (h : a.Sound) (acted : Option ControlRecord) : (a.taken acted).Sound := by
  cases acted with
  | none => exact h
  | some record => exact ⟨h.live, h.awaiting, h.current, h.held, h.cleared⟩

theorem rotated (a : Authority) (lifetime : Lifetime) : (a.rotated lifetime).Sound := by
  unfold Authority.rotated Authority.installed
  cases a.unbound.lifetime <;> constructor <;> simp [Authority.unbound]

theorem lifetime_eq_none (h : a.Sound)
    (hidle : a.phase = .revoked ∨ a.phase = .awaitingEstablish ∨ a.lifetime = none) :
    a.lifetime = none := by
  cases hlifetime : a.lifetime with
  | none => rfl
  | some lifetime =>
    have hactive := h.live.mpr (by simp [hlifetime])
    rcases hidle with hphase | hphase | hnone
    · simp [hphase] at hactive
    · simp [hphase] at hactive
    · rw [hlifetime] at hnone
      cases hnone

theorem idle (h : a.Sound)
    (hidle : a.phase = .revoked ∨ a.phase = .awaitingEstablish ∨ a.lifetime = none) :
    a.pending = none ∧ a.receipt = none := by
  have hnone := h.lifetime_eq_none hidle
  constructor
  · cases hpending : a.pending with
    | none => rfl
    | some pending =>
      have hlive := (h.current pending hpending).1
      rw [hnone] at hlive
      cases hlive
  · cases hreceipt : a.receipt with
    | none => rfl
    | some receipt =>
      have hlive := h.held (by simp [hreceipt])
      simp [hnone] at hlive

end Authority.Sound

theorem Effect.sound (h : Effect view c c' acted answer)
    (hsound : c.authority.Sound) : c'.authority.Sound := by
  cases h with
  | refused _ _ _ after => exact after ▸ hsound.taken acted
  | closedAgain phase after => exact after ▸ hsound
  | revoked version ending active known after => exact after ▸ .revoked _
  | established phase body after =>
    rw [after]
    obtain ⟨hpending, hreceipt⟩ := hsound.idle (.inr (.inl phase))
    have hpending' : c.authority.pending = none := hpending
    constructor <;> simp [Authority.taken, hpending']
  | published published live idle launch newer acknowledged after =>
    rw [after]
    have live' : c.authority.lifetime = _ := live
    constructor <;> simp [Authority.taken, Authority.unbound, live']
  | bound bind awaited matched after =>
    rw [after]
    have live : c.authority.lifetime = _ := (hsound.current _ awaited).1
    constructor <;> simp [Authority.taken, live]
  | rotated live named fresh after => exact after ▸ .rotated _ _
  | correlated invalidate named spared quiet after =>
    rw [after]
    obtain ⟨hlive, hawaiting, hcurrent, hheld, hcleared⟩ := hsound
    exact ⟨hlive, hawaiting, hcurrent, hheld, fun _ => rfl⟩

theorem sound_withExpectations (stream : ControlStream) (registry : ρ)
    (expectations : EstablishmentExpectations) (random : List (Option Bytes32)) :
    (withExpectations stream registry expectations random).authority.Sound := by
  constructor <;> simp [withExpectations, authority]

theorem serve_append (calls more : List (Call ρ)) (c : HelperControl ρ) :
    serve api view (calls ++ more) c = serve api view more (serve api view calls c) :=
  foldl_append

theorem serve_invariant {I : HelperControl ρ → Prop}
    (hstep : ∀ c c' acted answer, Effect view c c' acted answer → I c → I c')
    (calls : List (Call ρ)) : ∀ c, I c → I (serve api view calls c) := by
  induction calls with
  | nil => exact fun c h => h
  | cons call calls ih => exact fun c h => ih _ (hstep _ _ _ _ (run_effect api view call c) h)

theorem serve_sound (calls : List (Call ρ)) (h : c.authority.Sound) :
    (serve api view calls c).authority.Sound :=
  serve_invariant (I := fun c => c.authority.Sound) (fun _ _ _ _ heffect => heffect.sound) calls c h

theorem Effect.stays_revoked (h : Effect view c c' acted answer) (hsound : c.authority.Sound)
    (hphase : c.phase = .revoked) : c'.authority = c.authority.taken acted := by
  cases h with
  | refused _ _ _ after | closedAgain _ after => exact after
  | revoked version ending active known after => exact absurd hphase active
  | established phase body after => rw [hphase] at phase; cases phase
  | published _ live | rotated live =>
    have hlive := hsound.live.mpr (by rw [show c.authority.lifetime = _ from live]; rfl)
    simp [authority, hphase] at hlive
  | bound bind awaited matched after =>
    have hidle := (hsound.idle (.inl hphase)).1
    rw [show c.authority.pending = _ from awaited] at hidle
    cases hidle
  | correlated invalidate named spared quiet after =>
    have hcleared := hsound.cleared hphase
    rw [show c.authority.predecessor = _ from named] at hcleared
    cases hcleared

theorem acted_of_revoked (call : Call ρ) (h : c.phase = .revoked) : call.acted api c = none := by
  cases call <;> simp [Call.acted, establishing, stepped, h]

theorem serve_revoked (calls : List (Call ρ)) : ∀ c : HelperControl ρ, c.authority.Sound →
    c.phase = .revoked → (serve api view calls c).authority = c.authority := by
  induction calls with
  | nil => exact fun _ _ _ => rfl
  | cons call calls ih =>
    intro c hsound hphase
    have heffect := run_effect api view call c
    rw [acted_of_revoked call hphase] at heffect
    have hsame : (call.run api view c).2.authority = c.authority :=
      heffect.stays_revoked hsound hphase
    exact (ih _ (hsame ▸ hsound) ((congrArg Authority.phase hsame).trans hphase)).trans hsame

/-! ## The history of a receipt -/

variable (api view)

def Correlates (call : Call ρ) (c : HelperControl ρ) : Prop :=
  (call.run api view c).1 = .ok (.step .predecessorCorrelated)

def Quiet (calls : List (Call ρ)) (c : HelperControl ρ) : Prop :=
  ∀ before call after, calls = before ++ call :: after →
    Correlates api view call (serve api view before c)

/-- A step takes a `Publish` for the live lifetime, retains its bytes and acknowledges it. -/
structure Acknowledges (body : PublishBody) (ackId : AckId) (c : HelperControl ρ) : Prop where
  taken : ∃ record, c.stepped api = some record ∧ record.body = .publish body
  live : c.lifetime = some { id := body.lifetimeId, feedRevision := body.feedRevision }
  sent : c.Sent (.ack
    { lifetimeId := body.lifetimeId, feedRevision := body.feedRevision, tuple := body.tuple,
      ackId })
    (Call.step.run api view c).2
  answer : (Call.step.run api view c).1 = .ok (.step (.published body.tuple))

/-- A step takes the `Bind` that repeats an acknowledgement, finds the retained bytes in the
registry and issues a receipt. -/
structure Binds (body : PublishBody) (ackId : AckId) (receipt : ReceiptId) (c : HelperControl ρ) :
    Prop where
  taken : ∃ record, c.stepped api = some record ∧ record.body = .bind
    { lifetimeId := body.lifetimeId, feedRevision := body.feedRevision, tuple := body.tuple, ackId }
  matched :
    (view.retainedMatches body.feedRevision body.payload.canonicalBytes c.registry).1 = .ok true
  answer : (Call.step.run api view c).1 = .ok (.step (.bound body.tuple receipt))

def EndsAcknowledged (calls : List (Call ρ)) (c : HelperControl ρ) (body : PublishBody)
    (ackId : AckId) : Prop :=
  ∃ before between, calls = before ++ .step :: between ∧
    Acknowledges api view body ackId (serve api view before c) ∧
    Quiet api view between (serve api view (before ++ [.step]) c)

def EndsBound (calls : List (Call ρ)) (c : HelperControl ρ) (body : PublishBody)
    (receipt : ReceiptId) : Prop :=
  ∃ before after ackId, calls = before ++ .step :: after ∧
    EndsAcknowledged api view before c body ackId ∧
    Binds api view body ackId receipt (serve api view before c) ∧
    Quiet api view after (serve api view (before ++ [.step]) c)

variable {api view}

theorem Quiet.nil (c : HelperControl ρ) : Quiet api view [] c := by
  intro before call after h
  simp at h

variable {calls : List (Call ρ)} {call : Call ρ}

theorem Quiet.snoc (h : Quiet api view calls c)
    (hcall : Correlates api view call (serve api view calls c)) :
    Quiet api view (calls ++ [call]) c := by
  intro before call' after hsplit
  rcases eq_nil_or_concat after with rfl | ⟨after, last, rfl⟩
  · obtain ⟨rfl, hlast⟩ := append_inj' hsplit rfl
    obtain rfl : call = call' := by simpa using hlast
    exact hcall
  · rw [concat_eq_append, ← cons_append, ← append_assoc] at hsplit
    exact h before call' after (append_inj' hsplit rfl).1

theorem EndsAcknowledged.snoc {ackId : AckId} (h : EndsAcknowledged api view calls c body ackId)
    (hcall : Correlates api view call (serve api view calls c)) :
    EndsAcknowledged api view (calls ++ [call]) c body ackId := by
  obtain ⟨before, between, rfl, hacknowledges, hquiet⟩ := h
  refine ⟨before, between ++ [call], by simp, hacknowledges, hquiet.snoc ?_⟩
  rw [← serve_append]
  simpa using hcall

theorem EndsBound.snoc (h : EndsBound api view calls c body receipt)
    (hcall : Correlates api view call (serve api view calls c)) :
    EndsBound api view (calls ++ [call]) c body receipt := by
  obtain ⟨before, after, ackId, rfl, hacknowledged, hbinds, hquiet⟩ := h
  refine ⟨before, after ++ [call], ackId, by simp, hacknowledged, hbinds, hquiet.snoc ?_⟩
  rw [← serve_append]
  simpa using hcall

theorem eq_step {record : ControlRecord} {step : Step} (hacted : call.acted api c = some record)
    (hanswer : (call.run api view c).1 = .ok (.step step)) : call = .step := by
  cases call with
  | step => rfl
  | establish =>
    have hdone : Exiting.wp (Call.establish.run api view)
        (fun answer _ => answer = .done) (fun _ _ => True) c := by
      unfold Call.run
      exact Exiting.wp_map.mpr (Exiting.wp_intro (fun _ _ _ => rfl) (fun _ _ _ => trivial))
    cases hrun : Call.establish.run api view c with
    | mk answer c' =>
      rw [hrun] at hanswer
      cases hanswer
      cases Exiting.of_wp_ok hdone hrun
  | registryMutated | reset | close => cases hacted

structure Explained (api : PublicationApi) (view : RegistryView ρ) (calls : List (Call ρ))
    (c₀ c : HelperControl ρ) : Prop where
  pending : ∀ pending, c.pending = some pending → ∃ body ackId,
    EndsAcknowledged api view calls c₀ body ackId ∧
      pending = { lifetimeId := body.lifetimeId, feedRevision := body.feedRevision
                  tuple := body.tuple, retained := body.payload.canonicalBytes, ackId }
  receipt : ∀ receipt, c.receipt = some receipt → ∃ body,
    EndsBound api view calls c₀ body receipt.receipt ∧
      c.lifetime = some { id := body.lifetimeId, feedRevision := body.feedRevision }

variable {c₀ : HelperControl ρ}

theorem Explained.of_idle {authority : Authority} (after : c.authority = authority)
    (idle : authority.pending = none ∧ authority.receipt = none) :
    Explained api view calls c₀ c := by
  subst after
  constructor
  · intro pending h
    cases idle.1.symm.trans h
  · intro receipt h
    cases idle.2.symm.trans h

theorem Explained.snoc (hsound : (serve api view calls c₀).authority.Sound)
    (h : Explained api view calls c₀ (serve api view calls c₀)) :
    Explained api view (calls ++ [call]) c₀ (serve api view (calls ++ [call]) c₀) := by
  have hrun : serve api view (calls ++ [call]) c₀ =
      (call.run api view (serve api view calls c₀)).2 := by
    rw [serve_append]
    rfl
  rw [hrun]
  have heffect := run_effect api view call (serve api view calls c₀)
  generalize hc : serve api view calls c₀ = c at hsound h heffect
  generalize hacted : call.acted api c = acted at heffect
  generalize hanswer : (call.run api view c).1 = answer at heffect
  generalize hc' : (call.run api view c).2 = c' at heffect
  cases heffect with
  | refused _ inactive _ after =>
    exact .of_idle after ((hsound.taken acted).idle (by cases acted <;> exact inactive))
  | closedAgain phase after => exact .of_idle after (hsound.idle (.inl phase))
  | revoked version ending active known after => exact .of_idle after ⟨rfl, rfl⟩
  | established phase body after => exact .of_idle after (hsound.idle (.inr (.inl phase)))
  | rotated live named fresh after =>
    exact .of_idle after (Authority.rotated_spec ..).2.2.2
  | @published record body ackId published live idle launch newer acknowledged after =>
    obtain rfl : call = .step := eq_step hacted hanswer
    constructor
    · intro pending hpending
      obtain rfl := Option.some.inj ((congrArg Authority.pending after).symm.trans hpending)
      refine ⟨body, ackId, ⟨calls, [], rfl, ?_, .nil _⟩, rfl⟩
      rw [hc]
      exact ⟨⟨record, hacted, published⟩, live, hc' ▸ acknowledged, hanswer⟩
    · intro receipt hreceipt
      cases (congrArg Authority.receipt after).symm.trans hreceipt
  | @bound record pending receipt bind awaited matched after =>
    obtain rfl : call = .step := eq_step hacted hanswer
    constructor
    · intro pending' hpending
      cases (congrArg Authority.pending after).symm.trans hpending
    · intro receipt' hreceipt
      obtain rfl := Option.some.inj ((congrArg Authority.receipt after).symm.trans hreceipt)
      obtain ⟨body, ackId, hends, rfl⟩ := h.pending pending awaited
      have hlive : c.lifetime = _ := (hsound.current _ awaited).1
      refine ⟨body, ⟨calls, [], ackId, rfl, hends, ?_, .nil _⟩,
        (congrArg Authority.lifetime after).trans hlive⟩
      rw [hc]
      exact ⟨⟨record, hacted, bind⟩, matched, hanswer⟩
  | correlated invalidate named spared quiet after =>
    have hcorrelates : Correlates api view call (serve api view calls c₀) := by
      rw [hc]
      exact hanswer
    constructor
    · intro pending hpending
      obtain ⟨body, ackId, hends, hbody⟩ := h.pending pending
        ((congrArg Authority.pending after).symm.trans hpending)
      exact ⟨body, ackId, hends.snoc hcorrelates, hbody⟩
    · intro receipt hreceipt
      obtain ⟨body, hends, hlive⟩ := h.receipt receipt
        ((congrArg Authority.receipt after).symm.trans hreceipt)
      exact ⟨body, hends.snoc hcorrelates, (congrArg Authority.lifetime after).trans hlive⟩

theorem explained_serve (calls : List (Call ρ))
    (hsound : c₀.authority.Sound) (hpending : c₀.pending = none) (hreceipt : c₀.receipt = none) :
    Explained api view calls c₀ (serve api view calls c₀) := by
  induction calls using reverseRecOn with
  | nil => exact .of_idle rfl ⟨hpending, hreceipt⟩
  | append_singleton calls call ih => exact ih.snoc (serve_sound calls hsound)

theorem receipt_of_bound (h : c.proofState = .bound receipt) :
    ∃ active, c.receipt = some active ∧ active.receipt = receipt := by
  unfold proofState at h
  split at h
  · cases h
  split at h
  · cases h
  split at h
  · cases h
  cases hreceipt : c.receipt with
  | none => simp [hreceipt] at h
  | some active => exact ⟨active, rfl, by simpa [hreceipt] using h⟩

/-- In every state that calls reach from a fresh helper, the phase tells what is live and pending,
a bound proof has its history, and a revoked state holds nothing and stays as it is. -/
theorem proofState_invariant (api : PublicationApi) (view : RegistryView ρ)
    (stream : ControlStream) (registry : ρ) (expectations : EstablishmentExpectations)
    (random : List (Option Bytes32)) (calls : List (Call ρ)) :
    let c₀ := withExpectations stream registry expectations random
    let c := serve api view calls c₀
    (c.phase = .ready ∨ c.phase = .awaitingBind ↔ c.lifetime.isSome = true) ∧
      (c.phase = .awaitingBind ↔ c.pending.isSome = true) ∧
      (∀ pending, c.pending = some pending →
        c.lifetime = some { id := pending.lifetimeId, feedRevision := pending.feedRevision } ∧
          c.receipt = none) ∧
      (∀ receipt, c.proofState = .bound receipt → ∃ body, EndsBound api view calls c₀ body receipt ∧
        c.lifetime = some { id := body.lifetimeId, feedRevision := body.feedRevision }) ∧
      (c.phase = .revoked → c.lifetime = none ∧ c.predecessor = none ∧ c.pending = none ∧
        c.receipt = none ∧ ∀ more, (serve api view more c).authority = c.authority) := by
  intro c₀ c
  have hfresh : c₀.authority.Sound := sound_withExpectations ..
  have hsound : c.authority.Sound := serve_sound calls hfresh
  have hexplained : Explained api view calls c₀ c := explained_serve calls hfresh rfl rfl
  refine ⟨hsound.live, hsound.awaiting, hsound.current, ?_, ?_⟩
  · intro receipt hbound
    obtain ⟨active, hreceipt, rfl⟩ := receipt_of_bound hbound
    exact hexplained.receipt active hreceipt
  · intro hrevoked
    obtain ⟨hpending, hreceipt⟩ := hsound.idle (.inl hrevoked)
    exact ⟨hsound.lifetime_eq_none (.inl hrevoked), hsound.cleared hrevoked, hpending, hreceipt,
      fun more => serve_revoked more c hsound hrevoked⟩

/-! ## A sample channel -/

def sampleBytes : Bytes32 := .replicate 32 7

def sampleEcho : EstablishmentEcho :=
  ⟨1, 1, sampleBytes, ⟨sampleBytes⟩, "bitty-ai", "1", "bitty-ai-helper", sampleBytes, 1,
    sampleBytes,
    sampleBytes, "control", "helper", 1, 1, sampleBytes, sampleBytes⟩

def sampleTuple (version : Nat) : Tuple := ⟨⟨⟨sampleBytes⟩, version⟩, version, sampleBytes⟩

/-- What the Core sends: it establishes, publishes, binds, and publishes again. -/
def sampleRecords : List RecordBody :=
  [.establish sampleEcho, .publish ⟨⟨sampleBytes⟩, 1, sampleTuple 1, ⟨[]⟩⟩,
    .bind ⟨⟨sampleBytes⟩, 1, sampleTuple 1, ⟨sampleBytes⟩⟩,
    .publish ⟨⟨sampleBytes⟩, 1, sampleTuple 2, ⟨[]⟩⟩]

/-- A record is one byte, its number. -/
def sampleApi : PublicationApi where
  encode record := .ok [.ofNat record.sequence]
  decode frame :=
    let sequence := ofBeBytes frame
    match sampleRecords[sequence - 1]? with
    | some body => .ok { sender := .core, sequence, sessionId := ⟨sampleBytes⟩, body }
    | none => .error ⟨"kind"⟩
  kindFromCode _ := none
  controlHeaderBytes := 1
  controlFrameMaxBytes := 16
  controlSmallRecordMaxBytes := 16
  controlInflightMaxBytes := 64
  controlQueueMaxRecords := 4
  nextExpectedSequence last := some (last + 1)
  validateIncomingSequence last received := received == last + 1
  validateSession own other := other == own

def sampleView : RegistryView Unit where
  snapshot _ := (.ok ⟨1, ⟨[]⟩, by decide⟩, ())
  retainedMatches _ _ _ := (.ok true, ())

def sampleStream : ControlStream where
  incoming := [0, 0, 0, 1, 1, 0, 0, 0, 1, 2, 0, 0, 0, 1, 3, 0, 0, 0, 1, 4]
  readAnswers := []
  allocations := []
  writeAnswers := List.replicate 10 (.takes 4)
  flushAnswers := []
  written := []
  failedAt := none

/-- The second receipt differs from the acknowledgement it answers. -/
def sampleRandom : List (Option Bytes32) :=
  [some sampleBytes, some sampleBytes, some sampleBytes, some (.replicate 32 8), some sampleBytes]

def sampleCalls : List (Call Unit) := [.establish, .step, .step, .step]

end BittyAi.Control
