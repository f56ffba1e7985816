/-
BittyAi.Control.CrossingTheorems — which invalidations of the Core may cross a rotation.

An `Invalidate` that the Core has sent before it heard of a rotation names the lifetime that
is gone. `Crossing` follows a run by its answers alone.
-/
import BittyAi.Control.IntakeTheorems
import BittyAi.Control.WireTheorems

namespace BittyAi.Control

open Lib Exiting HelperControl List Option

variable {ρ : Type} {api : PublicationApi} {view : RegistryView ρ} {c c' : HelperControl ρ}
variable {acted : Option ControlRecord} {answer : Except HelperControlError Answer}
  {call : Call ρ} {record : ControlRecord} {body : InvalidateBody}

/-! ## The window -/

/-- What a run tells about its most recent rotation: the lifetime it has retired, and whether
an `Invalidate` has been correlated with it since. -/
structure Crossing where
  retired : Option Lifetime := none
  correlated : Bool := false

def InvalidateBody.identity (body : InvalidateBody) : Lifetime :=
  { id := body.lifetimeId, feedRevision := body.feedRevision }

namespace Crossing

/-- An `Invalidate` of this identity may still cross the rotation. -/
def Open (x : Crossing) (identity : Lifetime) : Prop :=
  x.retired = some identity ∧ x.correlated = false

/-- The window behind a call on `c`, by its answer. -/
def after (c : HelperControl ρ) (x : Crossing) : Except HelperControlError Answer → Crossing
  | .ok (.step (.lifetimeRotated ..)) => { retired := c.lifetime }
  | .ok (.step .predecessorCorrelated) => { x with correlated := true }
  | _ => x

end Crossing

def crossing (api : PublicationApi) (view : RegistryView ρ) :
    List (Call ρ) → HelperControl ρ → Crossing → Crossing
  | [], _, x => x
  | call :: calls, c, x =>
    crossing api view calls (call.run api view c).2 (x.after c (call.run api view c).1)

structure Tracks (a : Authority) (x : Crossing) : Prop where
  predecessor : a.phase ≠ .revoked → a.predecessor =
    if x.correlated then none else x.retired.map fun l => ⟨l.id, l.feedRevision⟩
  retired : a.phase ≠ .revoked → a.retired.lifetime = x.retired.map (·.id)
  unrotated : a.phase = .awaitingEstablish → x.retired = none

variable {a : Authority} {x : Crossing}

theorem Tracks.taken (h : Tracks a x)
    (acted : Option ControlRecord) : Tracks (a.taken acted) x := by
  cases acted with
  | none => exact h
  | some record => exact ⟨h.predecessor, h.retired, h.unrotated⟩

theorem tracks_revoked (a : Authority) (x : Crossing) : Tracks a.revoked x := by
  constructor <;> simp [Authority.revoked]

theorem retired_unbound (a : Authority) : a.unbound.retired.lifetime = a.retired.lifetime := by
  unfold Authority.unbound
  cases a.receipt <;> rfl

theorem lifetime_taken (acted : Option ControlRecord) (a : Authority) :
    (a.taken acted).lifetime = a.lifetime := by
  cases acted <;> rfl

theorem rotated_of_live {previous : Lifetime} (acted : Option ControlRecord) (lifetime : Lifetime)
    (h : c.lifetime = some previous) :
    let rotated := (c.authority.taken acted).rotated lifetime
    rotated.phase = .ready ∧ rotated.lifetime = some lifetime ∧
      rotated.predecessor = some ⟨previous.id, previous.feedRevision⟩ ∧
      rotated.retired.lifetime = some previous.id := by
  have hlive : (c.authority.taken acted).unbound.lifetime = some previous :=
    (lifetime_taken acted c.authority).trans h
  unfold Authority.rotated Authority.installed
  rw [hlive]
  exact ⟨rfl, rfl, rfl, rfl⟩

theorem active_of_live {lifetime : Lifetime} (hsound : a.Sound)
    (h : a.lifetime = some lifetime) : a.phase ≠ .revoked := by
  intro hphase
  have hready := hsound.live.mpr (by simp [h])
  simp [hphase] at hready

theorem Effect.tracks (h : Effect view c c' acted answer)
    (hsound : c.authority.Sound) (htracks : Tracks c.authority x) :
    Tracks c'.authority (x.after c answer) := by
  cases h with
  | refused _ _ _ after => exact after ▸ htracks.taken acted
  | closedAgain _ after => exact after ▸ htracks
  | revoked _ _ _ _ after => exact after ▸ tracks_revoked _ _
  | established phase _ after =>
    rw [after]
    have active : c.authority.phase ≠ .revoked := by simp [authority, phase]
    exact ⟨fun _ => htracks.predecessor active, fun _ => htracks.retired active, by simp⟩
  | published _ live _ _ _ _ after =>
    rw [after]
    have active := active_of_live hsound live
    exact ⟨fun _ => htracks.predecessor active,
      fun _ => (retired_unbound _).trans (htracks.retired active), by simp⟩
  | bound _ awaited _ after =>
    rw [after]
    have active := active_of_live hsound (hsound.current _ awaited).1
    exact ⟨fun _ => htracks.predecessor active, fun _ => htracks.retired active, by simp⟩
  | rotated live _ _ after =>
    rw [after]
    obtain ⟨hphase, -, hpredecessor, hretired⟩ := rotated_of_live acted _ live
    refine ⟨fun _ => hpredecessor.trans ?_, fun _ => hretired.trans ?_, fun h => ?_⟩
    · simp [Crossing.after, live]
    · simp [Crossing.after, live]
    · rw [hphase] at h
      cases h
  | correlated _ _ _ _ after =>
    rw [after]
    exact ⟨fun _ => rfl, htracks.retired, htracks.unrotated⟩

theorem tracks_serve (calls : List (Call ρ)) : ∀ (c : HelperControl ρ) (x : Crossing),
    c.authority.Sound → Tracks c.authority x →
      Tracks (serve api view calls c).authority (crossing api view calls c x) := by
  induction calls with
  | nil => exact fun c x _ h => h
  | cons call calls ih =>
    intro c x hsound htracks
    have heffect := run_effect api view call c
    exact ih _ _ (heffect.sound hsound) (heffect.tracks hsound htracks)

theorem Tracks.open_iff (h : Tracks a x) (active : a.phase ≠ .revoked)
    (identity : Lifetime) :
    x.Open identity ↔ a.predecessor = some ⟨identity.id, identity.feedRevision⟩ := by
  obtain ⟨retired, correlated⟩ := x
  obtain ⟨id, feedRevision⟩ := identity
  rw [h.predecessor active, Crossing.Open]
  cases correlated with
  | true => simp
  | false =>
    cases retired with
    | none => simp
    | some lifetime =>
      obtain ⟨id', feedRevision'⟩ := lifetime
      simp

/-! ## Invalidations that are taken -/

theorem active_of_acted (h : call.acted api c = some record) : c.phase ≠ .revoked := by
  cases call with
  | establish =>
    obtain ⟨hphase, -⟩ := ite_none_right_eq_some.mp h
    simp [hphase]
  | step =>
    obtain ⟨hphase | hphase, -⟩ := ite_none_right_eq_some.mp h <;> simp [hphase]
  | registryMutated | reset | close => cases h

/-- A call that takes an `Invalidate` succeeds only if it names a lifetime. -/
theorem Effect.named {answer : Answer} (h : Effect view c c' (some record) (.ok answer))
    (hbody : record.body = .invalidate body) : c.Names body := by
  cases h with
  | revoked _ ending =>
    cases answer with
    | done => cases ending
    | step step =>
      cases step with
      | authorityClosed =>
        obtain ⟨_, _, ⟨⟩, hinvalidate, hnames⟩ := ending
        cases hbody.symm.trans hinvalidate
        exact hnames
      | peerError =>
        obtain ⟨_, _, ⟨⟩, herror⟩ := ending
        cases hbody.symm.trans herror
      | _ => exact ending.elim
  | established _ other | published other | bound other => cases hbody.symm.trans other
  | rotated live named =>
    cases hbody.symm.trans (named record rfl)
    exact .inl live
  | correlated invalidate named =>
    cases hbody.symm.trans invalidate
    exact .inr named

def Spared (reason : Reason) : Prop :=
  reason = .sourceMutation ∨ reason = .reset ∨ reason = .supersession

theorem crossed_invalidate (hacted : c.stepped api = some record)
    (hbody : record.body = .invalidate body) (hlive : c.lifetime ≠ some body.identity)
    (hpredecessor : c.predecessor = some ⟨body.lifetimeId, body.feedRevision⟩)
    (hspared : Spared body.reason) :
    Call.step.run api view c = (.ok (.step .predecessorCorrelated),
      { c with
        stream := (readRecord api c.stream).2
        inSequence := record.sequence
        predecessor := none }) := by
  have hreason : body.reason ≠ .registryMutation ∧ ¬(body.reason = .grantLoss ∨
      body.reason = .shutdown) := by
    rcases hspared with h | h | h <;> simp [h]
  obtain ⟨hphase, htaken⟩ := ite_none_right_eq_some.mp hacted
  have active : c.phase ≠ .revoked := by rcases hphase with hphase | hphase <;> simp [hphase]
  refine wp_eq_run.mp (wp_map.mpr ?_)
  rw [step, wp_bind]
  refine requireActive_spec (fun _ _ => ?_) (fun hrevoked => absurd hrevoked active)
    (fun hawaiting => by simp [hawaiting] at hphase)
  refine intake_spec active (fun other hother => ?_) (fun error c' hnone => ?_)
  · cases htaken.symm.trans hother
    rw [hbody]
    unfold handleInvalidate
    simp only [wp_bind, wp_read, wp_ite, wp_modify, wp_pure, wp_refuseIfFault]
    exact ⟨fun h => absurd h hreason.1, fun _ => ⟨fun h => absurd h hlive, fun _ =>
      ⟨fun _ => ⟨fun h => absurd h hreason.2, fun _ => trivial⟩,
        fun h => absurd hpredecessor h⟩⟩⟩
  · cases htaken.symm.trans hnone

/-! ## Runs -/

/-- What a call behind a run may do with an `Invalidate` that it decodes, and which lifetime may
follow. -/
structure OneShot (api : PublicationApi) (view : RegistryView ρ) (c : HelperControl ρ)
    (x : Crossing) (call : Call ρ) (c' : HelperControl ρ) : Prop where
  accepted : ∀ record body answer, call.decoded api c = some record →
    record.body = .invalidate body → c.lifetime ≠ some body.identity →
    (call.run api view c).1 = .ok answer → x.Open body.identity
  spared : ∀ record body, call.decoded api c = some record → Envelope api record c →
    record.body = .invalidate body → c.lifetime ≠ some body.identity → x.Open body.identity →
    Spared body.reason →
    (call.run api view c).1 = .ok (.step .predecessorCorrelated) ∧ c'.lifetime = c.lifetime ∧
      c'.pending = c.pending ∧ c'.receipt = c.receipt ∧ c'.proofState = c.proofState ∧
      c'.sends = c.sends ∧ c'.stream.written = c.stream.written
  stale : ∀ record body, call.decoded api c = some record → record.body = .invalidate body →
    c.lifetime ≠ some body.identity → ¬x.Open body.identity → c'.phase = .revoked
  /-- A rotation brings an identifier that is neither that of the lifetime it ends nor that of
  the one retired last. -/
  fresh : ∀ previous current revision reason,
    (call.run api view c).1 = .ok (.step (.lifetimeRotated previous current revision reason)) →
    c'.lifetime = some ⟨current, revision⟩ ∧ (∃ old, c.lifetime = some ⟨previous, old⟩) ∧
      current ≠ previous ∧ ∀ retired, x.retired = some retired → retired.id ≠ current
  /-- No other call brings a lifetime, the first one of the run apart. -/
  origin : ∀ lifetime, c'.lifetime = some lifetime → c.lifetime = some lifetime ∨
    (c.lifetime = none ∧ x.retired = none) ∨ ∃ previous reason, (call.run api view c).1 =
      .ok (.step (.lifetimeRotated previous lifetime.id lifetime.feedRevision reason))

theorem Effect.fresh {previous current : LifetimeId} {revision : Nat} {reason : Reason}
    (h : Effect view c c' acted
      (.ok (.step (.lifetimeRotated previous current revision reason))))
    (hsound : c.authority.Sound) (htracks : Tracks c.authority x) :
    c'.lifetime = some ⟨current, revision⟩ ∧ (∃ old, c.lifetime = some ⟨previous, old⟩) ∧
      current ≠ previous ∧ ∀ retired, x.retired = some retired → retired.id ≠ current := by
  cases h with
  | revoked _ ending => exact ending.elim
  | rotated live _ fresh after =>
    obtain ⟨-, hlifetime, -⟩ := rotated_of_live acted _ live
    refine ⟨(congrArg Authority.lifetime after).trans hlifetime, ⟨_, live⟩,
      (fresh.1 _ live).symm, fun retired hretired hsame => fresh.2.2 ?_⟩
    rw [htracks.retired (active_of_live hsound live), hretired, map_some, hsame]

theorem Effect.origin {lifetime : Lifetime} (h : Effect view c c' acted answer)
    (hsound : c.authority.Sound) (htracks : Tracks c.authority x)
    (hafter : c'.lifetime = some lifetime) :
    c.lifetime = some lifetime ∨ (c.lifetime = none ∧ x.retired = none) ∨
      ∃ previous reason, answer =
        .ok (.step (.lifetimeRotated previous lifetime.id lifetime.feedRevision reason)) := by
  cases h with
  | refused _ _ _ after =>
    have hsame := (congrArg Authority.lifetime after).trans (lifetime_taken acted c.authority)
    exact .inl (hsame.symm.trans hafter)
  | revoked _ _ _ _ after => cases (congrArg Authority.lifetime after).symm.trans hafter
  | established phase _ after =>
    exact .inr (.inl ⟨hsound.lifetime_eq_none (.inr (.inl phase)), htracks.unrotated phase⟩)
  | closedAgain _ after | published _ _ _ _ _ _ after | bound _ _ _ after
  | correlated _ _ _ _ after => exact .inl ((congrArg Authority.lifetime after).symm.trans hafter)
  | rotated live _ _ after =>
    obtain ⟨-, hlifetime, -⟩ := rotated_of_live acted _ live
    obtain rfl := some.inj
      ((hlifetime.symm.trans (congrArg Authority.lifetime after).symm).trans hafter)
    exact .inr (.inr ⟨_, _, rfl⟩)

/-- Over every run, an `Invalidate` of an identity that is not live is accepted only if the most
recent rotation has retired this identity and no other was correlated with it since. -/
theorem crossed_invalidation_window (stream : ControlStream) (registry : ρ)
    (expectations : EstablishmentExpectations) (random : List (Option Bytes32))
    (calls : List (Call ρ)) (call : Call ρ) :
    let start := withExpectations stream registry expectations random
    let c := serve api view calls start
    OneShot api view c (crossing api view calls start {}) call (call.run api view c).2 := by
  intro start c
  have hstart : start.authority.Sound := sound_withExpectations ..
  have hsound : c.authority.Sound := serve_sound calls hstart
  have htracks : Tracks c.authority (crossing api view calls start {}) :=
    tracks_serve calls start {} hstart ⟨fun _ => rfl, fun _ => rfl, fun _ => rfl⟩
  have hopen : ∀ {record} {body : InvalidateBody}, call.acted api c = some record →
      ((crossing api view calls start {}).Open body.identity ↔
        c.predecessor = some ⟨body.lifetimeId, body.feedRevision⟩) :=
    fun hacted => htracks.open_iff (active_of_acted hacted) _
  have hstale : ∀ record body, call.decoded api c = some record → record.body = .invalidate body →
      c.lifetime ≠ some body.identity → ¬(crossing api view calls start {}).Open body.identity →
      ∃ error, (call.run api view c).1 = .error error ∧
        (call.run api view c).2.phase = .revoked := by
    intro record body hdecoded hbody hlive hclosed
    by_cases henvelope : Envelope api record c
    · have hacted := acted_eq_some.mpr ⟨hdecoded, henvelope⟩
      have heffect := run_effect api view call c
      rw [hacted] at heffect
      cases hrun : (call.run api view c).1 with
      | ok answer =>
        rw [hrun] at heffect
        exact absurd (heffect.named hbody) (not_or.mpr ⟨hlive, (hopen hacted).not.mp hclosed⟩)
      | error error =>
        rw [hrun] at heffect
        exact ⟨error, rfl, (heffect.failed_taken hsound).resolve_left nofun⟩
    · exact exit_of_wp (wp_of_unchecked hdecoded henvelope)
  refine ⟨?_, ?_, ?_, ?_, ?_⟩
  · intro record body answer hdecoded hbody hlive hrun
    by_contra hclosed
    obtain ⟨error, herror, -⟩ := hstale record body hdecoded hbody hlive hclosed
    cases hrun.symm.trans herror
  · intro record body hdecoded henvelope hbody hlive hwindow hspared
    have hacted := acted_eq_some.mpr ⟨hdecoded, henvelope⟩
    cases call with
    | registryMutated | reset | close => cases hacted
    | establish =>
      -- no rotation comes before the channel is established
      have hnone := htracks.unrotated (ite_none_right_eq_some.mp hacted).1
      cases hnone.symm.trans hwindow.1
    | step =>
      rw [crossed_invalidate hacted hbody hlive ((hopen hacted).mp hwindow) hspared]
      exact ⟨rfl, rfl, rfl, rfl, rfl, rfl, (readRecord_written _).1⟩
  · intro record body hdecoded hbody hlive hclosed
    obtain ⟨-, -, hrevoked⟩ := hstale record body hdecoded hbody hlive hclosed
    exact hrevoked
  · intro previous current revision reason hrotated
    have heffect := run_effect api view call c
    rw [hrotated] at heffect
    exact heffect.fresh hsound htracks
  · exact fun lifetime => (run_effect api view call c).origin hsound htracks

end BittyAi.Control
