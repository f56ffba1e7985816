/-
BittyAi.Control.IntakeTheorems — a call that fails revokes, and no record of the Core is
taken twice.

The numbers of the records a run takes and the versions of the publications it accepts are
both read off the effects.
-/
import BittyAi.Control.ProofStateTheorems

namespace BittyAi.Control

open Lib Exiting HelperControl List Option

variable {ρ : Type} {api : PublicationApi} {view : RegistryView ρ} {c c' : HelperControl ρ}
variable {acted : Option ControlRecord} {call : Call ρ} {answer : Except HelperControlError Answer}
  {record : ControlRecord}

/-! ## Failing closed -/

theorem Effect.failed_closed {error : HelperControlError}
    (h : Effect view c c' acted (.error error)) (hestablished : error ≠ .notEstablished)
    (hclosed : error ≠ .closed) :
    c'.phase = .revoked ∧ c'.lifetime = none ∧ c'.predecessor = none ∧ c'.pending = none ∧
      c'.receipt = none := by
  cases h with
  | refused idle _ _ after =>
    rcases idle with rfl | rfl
    · exact absurd rfl hestablished
    · exact absurd rfl hclosed
  | revoked version ending active known after =>
    exact ⟨congrArg Authority.phase after, congrArg Authority.lifetime after,
      congrArg Authority.predecessor after, congrArg Authority.pending after,
      congrArg Authority.receipt after⟩

/-! ## Records decoded -/

/-- The record that a call decodes from the stream. -/
def Call.decoded (api : PublicationApi) (c : HelperControl ρ) : Call ρ → Option ControlRecord
  | .establish => if c.phase = .awaitingEstablish then c.decoded api else none
  | .step => if c.phase = .ready ∨ c.phase = .awaitingBind then c.decoded api else none
  | .registryMutated _ | .reset | .close => none

theorem acted_eq_some : call.acted api c = some record ↔
    call.decoded api c = some record ∧ Envelope api record c := by
  cases call with
  | establish =>
    simp [Call.acted, Call.decoded, establishing, incoming, filter_eq_some_iff, and_assoc]
  | step => simp [Call.acted, Call.decoded, stepped, incoming, filter_eq_some_iff, and_assoc]
  | registryMutated | reset | close => simp [Call.acted, Call.decoded]

/-- A record that does not pass the checks ends the call and revokes. -/
theorem wp_of_unchecked (hdecoded : call.decoded api c = some record)
    (hbad : ¬Envelope api record c) :
    wp (call.run api view) (fun _ _ => False) (fun _ c' => c'.phase = .revoked) c := by
  have hnone : ∀ {P : Prop} {other : ControlRecord}, c.decoded api = some record →
      c.incoming api = some other → P := by
    intro P other hread htaken
    obtain ⟨hother, henvelope⟩ := filter_eq_some_iff.mp htaken
    cases hread.symm.trans hother
    exact absurd (of_decide_eq_true henvelope) hbad
  cases call with
  | registryMutated | reset | close => cases hdecoded
  | establish =>
    obtain ⟨hphase, hread⟩ := ite_none_right_eq_some.mp hdecoded
    have active : c.phase ≠ .revoked := by simp [hphase]
    rw [Call.run, wp_map, establish, wp_bind, wp_read, wp_bind, wp_refuse]
    refine ⟨fun hrevoked => absurd hrevoked active, fun _ => ?_⟩
    rw [wp_bind, wp_refuseIfFault]
    exact ⟨fun hother => absurd hphase hother, fun _ => intake_spec active
      (fun _ => hnone hread) (fun _ _ _ hrevoked => congrArg Authority.phase hrevoked)⟩
  | step =>
    obtain ⟨hphase, hread⟩ := ite_none_right_eq_some.mp hdecoded
    rw [Call.run, wp_map, step, wp_bind]
    exact requireActive_spec
      (fun _ active => intake_spec active (fun _ => hnone hread)
        (fun _ _ _ hrevoked => congrArg Authority.phase hrevoked))
      (fun hrevoked => by simp [hrevoked] at hphase)
      (fun hawaiting => by simp [hawaiting] at hphase)

theorem Effect.counts (h : Effect view c c' acted answer) :
    c'.sessionId = c.sessionId ∧ c'.inSequence = (c.authority.taken acted).inSequence := by
  have hsession : (c.authority.taken acted).sessionId = c.sessionId := by cases acted <;> rfl
  cases h with
  | refused _ _ _ after | revoked _ _ _ _ after =>
    exact ⟨(congrArg Authority.sessionId after).trans hsession, congrArg Authority.inSequence after⟩
  | rotated _ _ _ after =>
    obtain ⟨hid, hnumber, -⟩ := Authority.rotated_spec ..
    exact ⟨(congrArg Authority.sessionId after).trans (hid.trans hsession),
      (congrArg Authority.inSequence after).trans hnumber⟩
  | closedAgain _ after | established _ _ after | published _ _ _ _ _ _ after
  | bound _ _ _ after | correlated _ _ _ _ after =>
    exact ⟨congrArg Authority.sessionId after, congrArg Authority.inSequence after⟩

/-- A failed call of a sound helper that has taken a record leaves it revoked. -/
theorem Effect.failed_taken {error : HelperControlError} (h : Effect view c c' acted (.error error))
    (hsound : c.authority.Sound) : acted = none ∨ c'.phase = .revoked := by
  cases h with
  | refused _ inactive unread after =>
    refine or_iff_not_imp_left.mpr fun htaken => ?_
    have hphase : c'.phase = c.phase :=
      (congrArg Authority.phase after).trans (by cases acted <;> rfl)
    have hlive := hsound.live
    rw [hsound.lifetime_eq_none inactive] at hlive
    have hbegun := unread htaken
    rw [hphase]
    cases hcase : c.phase <;> simp_all [authority]
  | revoked _ _ _ _ after => exact .inr (congrArg Authority.phase after)

variable (hsession : ∀ own other, api.validateSession own other = true → other = own)
  (hsequence : ∀ last received, api.validateIncomingSequence last received = true →
    received = last + 1)

include hsession hsequence in
theorem decoded_cases (h : call.decoded api c = some record) :
    (∃ error, (call.run api view c).1 = .error error ∧ (call.run api view c).2.phase = .revoked) ∨
      record.sender = .core ∧ record.sessionId = c.sessionId ∧
        record.sequence = c.inSequence + 1 ∧
        (call.run api view c).2.inSequence = record.sequence := by
  by_cases henvelope : Envelope api record c
  · have hcounts := (run_effect api view call c).counts.2
    rw [acted_eq_some.mpr ⟨h, henvelope⟩] at hcounts
    obtain ⟨hsender, hid, hnext⟩ := henvelope
    exact .inr ⟨hsender, hsession _ _ hid, hsequence _ _ hnext, hcounts⟩
  · exact .inl (exit_of_wp (wp_of_unchecked h henvelope))

/-! ## Records acted on -/

/-- The record that a call acts on: the one it has decoded, unless the call fails. -/
def Call.actsOn (api : PublicationApi) (view : RegistryView ρ) (c : HelperControl ρ)
    (call : Call ρ) : Option ControlRecord :=
  match (call.run api view c).1 with
  | .ok _ => call.decoded api c
  | .error _ => none

def actedRecords (api : PublicationApi) (view : RegistryView ρ) :
    List (Call ρ) → HelperControl ρ → List ControlRecord
  | [], _ => []
  | call :: calls, c =>
    (call.actsOn api view c).toList ++ actedRecords api view calls (call.run api view c).2

theorem actedRecords_revoked (calls : List (Call ρ)) : ∀ c : HelperControl ρ, c.authority.Sound →
    c.phase = .revoked → actedRecords api view calls c = [] := by
  induction calls with
  | nil => exact fun _ _ _ => rfl
  | cons call calls ih =>
    intro c hsound hphase
    have hnone : call.decoded api c = none := by cases call <;> simp [Call.decoded, hphase]
    have hsame : (call.run api view c).2.authority = c.authority :=
      serve_revoked [call] c hsound hphase
    have hrest := ih _ (hsame ▸ hsound) ((congrArg Authority.phase hsame).trans hphase)
    unfold actedRecords Call.actsOn
    rw [hrest, hnone]
    split <;> rfl

include hsession hsequence in
theorem actedRecords_numbered (calls : List (Call ρ)) : ∀ c : HelperControl ρ, c.authority.Sound →
    (actedRecords api view calls c).map (·.sequence) =
        range' (c.inSequence + 1) (actedRecords api view calls c).length ∧
      ∀ record ∈ actedRecords api view calls c,
        record.sender = .core ∧ record.sessionId = c.sessionId := by
  induction calls with
  | nil => exact fun c _ => ⟨rfl, nofun⟩
  | cons call calls ih =>
    intro c hsound
    have heffect := run_effect api view call c
    obtain ⟨hid, hcounts⟩ := heffect.counts
    obtain ⟨hnumbers, hsenders⟩ := ih _ (heffect.sound hsound)
    rw [hid] at hsenders
    have hidle : call.acted api c = none → (call.run api view c).2.inSequence = c.inSequence := by
      intro hacted
      rw [hcounts, hacted]
      rfl
    unfold actedRecords Call.actsOn
    cases hanswer : (call.run api view c).1 with
    | ok answer =>
      cases hdecoded : call.decoded api c with
      | none =>
        have hacted : call.acted api c = none :=
          eq_none_iff_forall_ne_some.mpr fun record h => by simp [acted_eq_some, hdecoded] at h
        rw [hidle hacted] at hnumbers
        exact ⟨hnumbers, hsenders⟩
      | some record =>
        obtain ⟨error, herror, -⟩ | ⟨hsender, hown, hnumber, htaken⟩ :=
          @decoded_cases _ _ view _ _ _ hsession hsequence hdecoded
        · cases hanswer.symm.trans herror
        rw [htaken, hnumber] at hnumbers
        constructor
        · simp only [toList_some, singleton_append, map_cons, length_cons, range'_succ, hnumbers,
            hnumber]
        · exact forall_mem_cons.mpr ⟨⟨hsender, hown⟩, hsenders⟩
    | error error =>
      rw [hanswer] at heffect
      rcases heffect.failed_taken hsound with hacted | hrevoked
      · rw [hidle hacted] at hnumbers
        exact ⟨hnumbers, hsenders⟩
      · rw [actedRecords_revoked calls _ (heffect.sound hsound) hrevoked]
        exact ⟨rfl, nofun⟩

/-! ## Publications accepted -/

/-- The `Publish` that a call accepts: it decodes the record and makes its version the last one. -/
def Call.accepted (api : PublicationApi) (view : RegistryView ρ) (c : HelperControl ρ)
    (call : Call ρ) : Option PublishBody :=
  match (call.decoded api c).map ControlRecord.body with
  | some (.publish body) =>
    if (call.run api view c).2.lastCorePublicationVersion = c.lastCorePublicationVersion then none
    else some body
  | _ => none

def acceptedPublications (api : PublicationApi) (view : RegistryView ρ) :
    List (Call ρ) → HelperControl ρ → List PublishBody
  | [], _ => []
  | call :: calls, c =>
    (call.accepted api view c).toList ++ acceptedPublications api view calls (call.run api view c).2

theorem Effect.version
    (h : Effect view c c' acted answer) : KnownVersion c acted c'.lastCorePublicationVersion := by
  have htaken : (c.authority.taken acted).lastCorePublicationVersion =
      c.lastCorePublicationVersion := by cases acted <;> rfl
  cases h with
  | refused _ _ _ after =>
    exact .inl ((congrArg Authority.lastCorePublicationVersion after).trans htaken)
  | revoked version _ _ known after =>
    rw [show c'.lastCorePublicationVersion = version from
      congrArg Authority.lastCorePublicationVersion after]
    exact known
  | rotated _ _ _ after =>
    exact .inl ((congrArg Authority.lastCorePublicationVersion after).trans
      ((Authority.rotated_spec ..).2.2.1.trans htaken))
  | @published record body _ published _ _ _ newer _ after =>
    rw [show c'.lastCorePublicationVersion = body.tuple.publicationId.version from
      congrArg Authority.lastCorePublicationVersion after]
    exact .inr ⟨newer, record, body, rfl, published, rfl⟩
  | closedAgain _ after | established _ _ after | bound _ _ _ after | correlated _ _ _ _ after =>
    exact .inl (congrArg Authority.lastCorePublicationVersion after)

theorem accepted_version {body : PublishBody} (h : call.accepted api view c = some body) :
    c.lastCorePublicationVersion < body.tuple.publicationId.version ∧
      (call.run api view c).2.lastCorePublicationVersion = body.tuple.publicationId.version := by
  have hversion := (run_effect api view call c).version
  unfold Call.accepted at h
  cases hdecoded : call.decoded api c with
  | none => simp [hdecoded] at h
  | some record =>
    simp only [hdecoded, map_some] at h
    split at h
    · case _ body' hbody =>
      split at h
      · cases h
      · case _ hmoved =>
        obtain rfl := some.inj h
        rcases hversion with hsame | ⟨hnewer, record', body', hacted, hpublish, heq⟩
        · exact absurd hsame hmoved
        · obtain rfl := some.inj (hdecoded.symm.trans (acted_eq_some.mp hacted).1)
          rw [some.inj hbody] at hpublish
          obtain rfl := RecordBody.publish.inj hpublish
          exact ⟨heq ▸ hnewer, heq.symm⟩
    · cases h

theorem accepted_of_published {tuple : Tuple}
    (h : (call.run api view c).1 = .ok (.step (.published tuple))) :
    ∃ body, call.accepted api view c = some body ∧ body.tuple = tuple := by
  have heffect := run_effect api view call c
  rw [h] at heffect
  unfold Call.accepted
  generalize hacted : call.acted api c = acted at heffect
  generalize (call.run api view c).2 = c' at heffect ⊢
  cases heffect with
  | revoked _ ending => exact ending.elim
  | @published record body _ published _ _ _ newer _ after =>
    have hversion : c'.lastCorePublicationVersion = body.tuple.publicationId.version :=
      congrArg Authority.lastCorePublicationVersion after
    have hmoved : c'.lastCorePublicationVersion ≠ c.lastCorePublicationVersion := by omega
    exact ⟨body, by simp [(acted_eq_some.mp hacted).1, published, hmoved], rfl⟩

theorem acceptedPublications_increasing (calls : List (Call ρ)) : ∀ c : HelperControl ρ,
    ((acceptedPublications api view calls c).map (·.tuple.publicationId.version)).Pairwise (· < ·) ∧
      ∀ body ∈ acceptedPublications api view calls c,
        c.lastCorePublicationVersion < body.tuple.publicationId.version := by
  induction calls with
  | nil => exact fun c => ⟨.nil, nofun⟩
  | cons call calls ih =>
    intro c
    obtain ⟨hpairwise, habove⟩ := ih (call.run api view c).2
    unfold acceptedPublications
    cases haccepted : call.accepted api view c with
    | none =>
      refine ⟨hpairwise, fun body hbody => ?_⟩
      have hkept : c.lastCorePublicationVersion ≤
          (call.run api view c).2.lastCorePublicationVersion := by
        rcases (run_effect api view call c).version with hsame | ⟨hnewer, -⟩
        · exact Nat.le_of_eq hsame.symm
        · exact Nat.le_of_lt hnewer
      exact Nat.lt_of_le_of_lt hkept (habove body hbody)
    | some body =>
      obtain ⟨hnewer, hlast⟩ := accepted_version haccepted
      rw [hlast] at habove
      constructor
      · refine List.Pairwise.cons (fun version hversion => ?_) hpairwise
        obtain ⟨later, hlater, rfl⟩ := mem_map.mp hversion
        exact habove later hlater
      · refine forall_mem_cons.mpr ⟨hnewer, fun other hother => ?_⟩
        exact Nat.lt_trans hnewer (habove other hother)

/-- A call that fails other than for being out of turn revokes, and so does one that decodes a
record of another sender, another session or any number but the next. Along every run of a fresh
helper the records of the calls that succeed are numbered from one, and the versions of the
accepted publications strictly increase. -/
theorem intake_fails_closed_without_replay (api : PublicationApi) (view : RegistryView ρ)
    (hsession : ∀ own other, api.validateSession own other = true → other = own)
    (hsequence : ∀ last received, api.validateIncomingSequence last received = true →
      received = last + 1) :
    (∀ (c : HelperControl ρ) (call : Call ρ) (error : HelperControlError),
      (call.run api view c).1 = .error error → error ≠ .notEstablished → error ≠ .closed →
      let c' := (call.run api view c).2
      c'.phase = .revoked ∧ c'.lifetime = none ∧ c'.predecessor = none ∧ c'.pending = none ∧
        c'.receipt = none) ∧
    (∀ (c : HelperControl ρ) (call : Call ρ) (record : ControlRecord),
      call.decoded api c = some record →
      let (answer, c') := call.run api view c
      (∃ error, answer = .error error ∧ c'.phase = .revoked) ∨
        record.sender = .core ∧ record.sessionId = c.sessionId ∧
          record.sequence = c.inSequence + 1 ∧ c'.inSequence = record.sequence) ∧
    (∀ (c : HelperControl ρ) (call : Call ρ) (tuple : Tuple),
      (call.run api view c).1 = .ok (.step (.published tuple)) →
      ∃ body, call.accepted api view c = some body ∧ body.tuple = tuple) ∧
    ∀ (stream : ControlStream) (registry : ρ) (expectations : EstablishmentExpectations)
      (random : List (Option Bytes32)) (calls : List (Call ρ)),
      let c₀ := HelperControl.withExpectations stream registry expectations random
      let records := actedRecords api view calls c₀
      records.map (·.sequence) = range' 1 records.length ∧
      (∀ record ∈ records, record.sender = .core ∧ record.sessionId = expectations.launchNonce) ∧
      ((acceptedPublications api view calls c₀).map (·.tuple.publicationId.version)).Pairwise
        (· < ·) := by
  refine ⟨?_, fun c call record => decoded_cases hsession hsequence,
    fun c call tuple => accepted_of_published, ?_⟩
  · intro c call error herror hestablished hclosed
    have heffect := run_effect api view call c
    rw [herror] at heffect
    exact heffect.failed_closed hestablished hclosed
  · intro stream registry expectations random calls c₀ records
    obtain ⟨hnumbered, hsenders⟩ := @actedRecords_numbered _ _ view hsession hsequence calls c₀
      (sound_withExpectations ..)
    exact ⟨hnumbered, hsenders, (acceptedPublications_increasing calls c₀).1⟩

theorem intake_fails_closed_without_replay_sample :
    let c₀ := HelperControl.withExpectations sampleStream () ⟨sampleEcho⟩ sampleRandom
    let records := actedRecords sampleApi sampleView sampleCalls c₀
    let versions := (acceptedPublications sampleApi sampleView sampleCalls c₀).map
      (·.tuple.publicationId.version)
    records.length = 4 ∧ versions = [1, 2] ∧ records.map (·.sequence) = range' 1 records.length ∧
      versions.Pairwise (· < ·) := by
  obtain ⟨-, -, -, hruns⟩ := intake_fails_closed_without_replay sampleApi sampleView
    (fun _ _ h => eq_of_beq h) (fun _ _ h => eq_of_beq h)
  obtain ⟨hnumbered, -, hincreasing⟩ := hruns sampleStream () ⟨sampleEcho⟩ sampleRandom sampleCalls
  exact ⟨by decide +kernel, by decide +kernel, hnumbered, hincreasing⟩

end BittyAi.Control
