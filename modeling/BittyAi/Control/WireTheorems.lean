/-
BittyAi.Control.WireTheorems — what the helper puts on the wire, over any run and any
behaviour of the stream.

While the helper is not revoked the wire is `Clean`: exactly the frames of the records sent
so far, numbered from one, with nothing queued and no write failed.
-/
import Mathlib.Data.List.Forall2
import BittyAi.Control.ProofStateTheorems

namespace BittyAi.Control

open Lib Exiting ControlStream List Prod

variable {ρ : Type} {api : PublicationApi} {view : RegistryView ρ} {c c' : HelperControl ρ}
variable {w : Wire} {record : ControlRecord}

/-! ## The loop of writes -/

theorem writeLoop_sent (answers : List WriteAnswer) : ∀ (bytes sent : List UInt8),
    let run := writeLoop answers bytes sent
    (run.result = .ok () → run.sent = sent ++ bytes) ∧
      (∀ error, run.result = .error error → (error = .io ∨ error = .writeZero) ∧
        ∃ part, part <+: bytes ∧ run.sent = sent ++ part) := by
  induction answers with
  | nil =>
    intro bytes sent
    cases bytes with
    | nil => simp [writeLoop]
    | cons byte bytes =>
      exact ⟨nofun, fun _ h =>
        ⟨.inl (Except.error.inj h).symm, [], nil_prefix, by simp [writeLoop]⟩⟩
  | cons answer answers ih =>
    intro bytes sent
    cases bytes with
    | nil => simp [writeLoop]
    | cons byte bytes =>
      cases answer with
      | interrupted => exact ih (byte :: bytes) sent
      | failed =>
        exact ⟨nofun, fun _ h =>
          ⟨.inl (Except.error.inj h).symm, [], nil_prefix, by simp [writeLoop]⟩⟩
      | takes count =>
        cases count with
        | zero =>
          exact ⟨nofun, fun _ h =>
            ⟨.inr (Except.error.inj h).symm, [], nil_prefix, by simp [writeLoop]⟩⟩
        | succ count =>
          have hall := take_append_drop (count + 1) (byte :: bytes)
          obtain ⟨hok, herror⟩ := ih ((byte :: bytes).drop (count + 1))
            (sent ++ (byte :: bytes).take (count + 1))
          refine ⟨fun h => (hok h).trans ?_, fun error h => ?_⟩
          · rw [append_assoc, hall]
          · obtain ⟨hkind, part, hpart, hsent⟩ := herror error h
            have hlonger := (prefix_append_right_inj ((byte :: bytes).take (count + 1))).mpr hpart
            rw [hall] at hlonger
            exact ⟨hkind, _, hlonger, hsent.trans (append_assoc ..)⟩

structure Broken (bytes : List UInt8) (stream stream' : ControlStream) : Prop where
  partly : ∃ part, part <+: bytes ∧ stream'.written = stream.written ++ part
  noted : stream.failedAt = none → ∀ written, stream'.failedAt = some written →
    stream'.written = written

theorem noteFailure_noted {stream : ControlStream} (h : stream.failedAt = none)
    {written : List UInt8} (hnoted : stream.noteFailure.failedAt = some written) :
    stream.noteFailure.written = written := by
  simpa [noteFailure, h] using hnoted

theorem writeAll_spec (bytes : List UInt8) (stream : ControlStream) : wp (writeAll bytes)
      (fun _ stream' => stream'.written = stream.written ++ bytes ∧
        stream'.failedAt = stream.failedAt)
      (fun error stream' => (sendFault (frameError error)).code = none ∧
        Broken bytes stream stream') stream := by
  obtain ⟨hok, herror⟩ := writeLoop_sent stream.writeAnswers bytes []
  refine wp_intro (fun _ stream' hrun => ?_) (fun error stream' hrun => ?_)
  · simp only [writeAll] at hrun
    split at hrun
    · obtain rfl := (mk.inj hrun).2
      exact ⟨congrArg (stream.written ++ ·) (hok ‹_›), rfl⟩
    · cases (mk.inj hrun).1
  · simp only [writeAll] at hrun
    split at hrun
    · cases (mk.inj hrun).1
    · obtain ⟨herr, rfl⟩ := mk.inj hrun
      obtain rfl := Except.error.inj herr
      obtain ⟨hkind, part, hpart, hsent⟩ := herror _ ‹_›
      refine ⟨?_, ⟨part, hpart, congrArg (stream.written ++ ·) hsent⟩,
        fun hunbroken written hnoted => noteFailure_noted (by exact hunbroken) hnoted⟩
      rcases hkind with rfl | rfl <;> rfl

def frameBytes (frame : List UInt8) : List UInt8 := beBytes 4 frame.length ++ frame

theorem writeFrame_spec (frame : List UInt8) (stream : ControlStream) (hframe : frame ≠ []) :
    wp (writeFrame api frame)
      (fun _ stream' => stream'.written = stream.written ++ frameBytes frame ∧
        stream'.failedAt = stream.failedAt)
      (fun error stream' => (sendFault (frameError error)).code = none ∧
        Broken (frameBytes frame) stream stream') stream := by
  have huntouched : Broken (frameBytes frame) stream stream :=
    ⟨⟨[], nil_prefix, (append_nil _).symm⟩, fun h _ hsome => by simp [h] at hsome⟩
  unfold writeFrame
  simp only [wp_bind, wp_refuse]
  refine ⟨fun h => absurd h hframe, fun _ => ⟨fun _ => ⟨rfl, huntouched⟩, fun _ =>
    ⟨fun _ => ⟨rfl, huntouched⟩, fun _ => ?_⟩⟩⟩
  refine wp_mono (writeAll_spec _ stream) ?_ ?_
  · rintro ⟨⟩ middle ⟨hwritten, hfailedAt⟩
    refine wp_mono (writeAll_spec _ middle) ?_ ?_
    · rintro ⟨⟩ last ⟨hlast, hfailedAt'⟩
      exact ⟨by rw [hlast, hwritten, append_assoc, frameBytes], hfailedAt'.trans hfailedAt⟩
    · rintro error last ⟨hcode, ⟨part, hpart, hlast⟩, hnoted⟩
      refine ⟨hcode, ⟨beBytes 4 frame.length ++ part, ?_, ?_⟩, ?_⟩
      · exact (prefix_append_right_inj _).mpr hpart
      · rw [hlast, hwritten, append_assoc]
      · exact fun hunbroken => hnoted (hfailedAt.trans hunbroken)
  · rintro error last ⟨hcode, ⟨part, hpart, hlast⟩, hnoted⟩
    exact ⟨hcode, ⟨part, hpart.trans (prefix_append ..), hlast⟩, hnoted⟩

theorem flush_spec (stream : ControlStream) : wp flush
      (fun _ stream' => stream'.written = stream.written ∧ stream'.failedAt = stream.failedAt)
      (fun error stream' => error = .io ∧ Broken [] stream stream') stream := by
  refine wp_intro (fun _ stream' hrun => ?_) (fun error stream' hrun => ?_)
  · unfold flush at hrun
    split at hrun
    · cases (mk.inj hrun).1
    · obtain rfl := (mk.inj hrun).2
      exact ⟨rfl, rfl⟩
    · obtain rfl := (mk.inj hrun).2
      exact ⟨rfl, rfl⟩
  · unfold flush at hrun
    split at hrun
    · obtain ⟨herr, rfl⟩ := mk.inj hrun
      refine ⟨(Except.error.inj herr).symm, ⟨[], nil_prefix, (append_nil _).symm⟩,
        fun hunbroken written hnoted => noteFailure_noted (by exact hunbroken) hnoted⟩
    · cases (mk.inj hrun).1
    · cases (mk.inj hrun).1

/-! ## One send -/

structure Wire where
  sends : List (Phase × ControlRecord)
  written : List UInt8
  failedAt : Option (List UInt8)
  queued : List (List UInt8)
  outSequence : Nat

def HelperControl.wire (c : HelperControl ρ) : Wire where
  sends := c.sends
  written := c.stream.written
  failedAt := c.stream.failedAt
  queued := c.writer.pending
  outSequence := c.outSequence

namespace HelperControl

theorem flushWriter_spec {frame : List UInt8} (hframe : frame ≠ [])
    (hqueued : c.writer.pending = [frame]) :
    wp (flushWriter api)
      (fun _ c' => c'.wire =
        { c.wire with written := c.stream.written ++ frameBytes frame, queued := [] })
      (fun error c' => (sendFault error).code = none ∧
        Broken (frameBytes frame) c.stream c'.stream ∧
        c'.wire = { c.wire with
          written := c'.stream.written, failedAt := c'.stream.failedAt, queued := [] }) c := by
  have hwrites : ∀ middle, writeFrame api frame c.stream = (.ok (), middle) → flushWriter api c =
      ((flush middle).1.mapError frameError,
        { c with
          writer := { pending := []
                      pendingBytes := c.writer.pendingBytes -
                        (controlFramePrefixBytes + frame.length) }
          stream := (flush middle).2 }) := by
    intro middle hwrite
    unfold flushWriter FrameWriter.flush
    rw [hqueued]
    unfold FrameWriter.flushLoop
    rw [hwrite]
    rfl
  have hbreaks : ∀ error middle, writeFrame api frame c.stream = (.error error, middle) →
      flushWriter api c =
        (.error (frameError error), { c with writer := {}, stream := middle }) := by
    intro error middle hwrite
    unfold flushWriter FrameWriter.flush
    rw [hqueued]
    unfold FrameWriter.flushLoop
    rw [hwrite]
    rfl
  cases hwrite : writeFrame api frame c.stream with
  | mk result middle =>
    cases result with
    | error error =>
      obtain ⟨hcode, hbroken⟩ := of_wp_error (writeFrame_spec frame c.stream hframe) hwrite
      exact wp_of_error (hbreaks error middle hwrite) ⟨hcode, hbroken, rfl⟩
    | ok _ =>
      have hrun := hwrites middle hwrite
      obtain ⟨hwritten, hfailedAt⟩ := of_wp_ok (writeFrame_spec frame c.stream hframe) hwrite
      cases hflush : flush middle with
      | mk result last =>
        simp only [hflush] at hrun
        cases result with
        | ok _ =>
          obtain ⟨hsame, hfailedAt'⟩ := of_wp_ok (flush_spec middle) hflush
          refine wp_of_ok hrun ?_
          simp only [wire, hsame, hwritten, hfailedAt', hfailedAt]
        | error error =>
          obtain ⟨rfl, ⟨part, hpart, hsame⟩, hnoted⟩ := of_wp_error (flush_spec middle) hflush
          obtain rfl := prefix_nil.mp hpart
          refine wp_of_error hrun ⟨rfl, ⟨⟨_, prefix_refl _, ?_⟩, ?_⟩, rfl⟩
          · rw [hsame, hwritten, append_nil]
          · exact fun hunbroken => hnoted (hfailedAt.trans hunbroken)

end HelperControl

def SendsAs (api : PublicationApi) (record : ControlRecord) (bytes : List UInt8) : Prop :=
  ∃ frame, api.encode record = .ok frame ∧ bytes = frameBytes frame

/-- The number that `provider_publication` gives next is the one after the last. -/
class PublicationApi.Counts (api : PublicationApi) : Prop where
  next_eq : ∀ {last next}, api.nextExpectedSequence last = some next → next = last + 1

/-- What stands on the wire is the start of the frames of the records sent, which are numbered
from one, and it has not grown since a write failed. -/
structure Wire.Ordered (api : PublicationApi) (w : Wire) : Prop where
  framed : ∃ frames, List.Forall₂ (fun send => SendsAs api send.2) w.sends frames ∧
    w.written <+: frames.flatten
  numbered : w.sends.map (·.2.sequence) = range' 1 w.sends.length
  stopped : ∀ written, w.failedAt = some written → w.written = written

structure Wire.Clean (api : PublicationApi) (w : Wire) : Prop where
  framed : ∃ frames, List.Forall₂ (fun send => SendsAs api send.2) w.sends frames ∧
    w.written = frames.flatten
  numbered : w.sends.map (·.2.sequence) = range' 1 w.sends.length
  counted : w.outSequence = w.sends.length
  idle : w.queued = []
  unbroken : w.failedAt = none

theorem Wire.Clean.ordered (h : w.Clean api) : w.Ordered api := by
  obtain ⟨frames, hframes, hwritten⟩ := h.framed
  refine ⟨⟨frames, hframes, hwritten ▸ prefix_refl _⟩, h.numbered, fun written hnoted => ?_⟩
  rw [h.unbroken] at hnoted
  cases hnoted

theorem Wire.Clean.append (h : w.Clean api) (phase : Phase) {frame : List UInt8}
    (hframe : api.encode record = .ok frame) (hnumber : record.sequence = w.sends.length + 1) :
    (∃ frames, List.Forall₂ (fun send => SendsAs api send.2) (w.sends ++ [(phase, record)]) frames ∧
      frames.flatten = w.written ++ frameBytes frame) ∧
    (w.sends ++ [(phase, record)]).map (·.2.sequence) =
      range' 1 (w.sends ++ [(phase, record)]).length := by
  obtain ⟨frames, hframes, hall⟩ := h.framed
  constructor
  · refine ⟨frames ++ [frameBytes frame], ?_, ?_⟩
    · exact rel_append hframes (.cons ⟨frame, hframe, rfl⟩ .nil)
    · rw [hall, flatten_append, flatten_singleton]
  · rw [map_append, h.numbered, length_append, length_singleton,
      range'_concat, Nat.one_mul]
    simp [hnumber, Nat.add_comm]

theorem enqueue_spec {writer writer' : FrameWriter} (h : writer.enqueue api record = .ok writer') :
    ∃ frame, api.encode record = .ok frame ∧ frame ≠ [] ∧
      writer'.pending = writer.pending ++ [frame] := by
  simp only [FrameWriter.enqueue, FrameWriter.enqueueFrame, bind_eq_ok, refuseIf_eq_ok,
    mapError_eq_ok, pure_eq_ok, exists_const] at h
  obtain ⟨-, frame, hencode, -, hframe, -, -, rfl⟩ := h
  exact ⟨frame, hencode, hframe, rfl⟩

namespace HelperControl

variable [api.Counts]

/-- A send on a clean wire keeps it clean, or hands nothing to the stream, or leaves a part of the
frame and an error that no error record answers. -/
theorem rawSend_wire (body : RecordBody) (h : c.wire.Clean api) : wp (rawSend api body)
      (fun _ c' => c'.wire.Clean api ∧ ∃ record : ControlRecord, record.body = body ∧
        c'.sends = c.sends ++ [(c.phase, record)])
      (fun error c' => c'.wire = c.wire ∨ (sendFault error).code = none ∧ c'.wire.Ordered api ∧
        ∃ record : ControlRecord, record.body = body ∧ c'.sends = c.sends ++ [(c.phase, record)])
      c := by
  unfold rawSend
  simp only [wp_bind, wp_attempt, wp_read, wp_modify]
  refine ⟨fun sequence hsequence => ⟨fun writer hwriter => ?_, fun _ _ => .inl trivial⟩,
    fun _ _ => .inl trivial⟩
  have hnumber : sequence = c.sends.length + 1 := by
    have hcounted : c.outSequence = c.sends.length := h.counted
    rw [← hcounted]
    cases hnext : api.nextExpectedSequence c.outSequence with
    | none => simp [hnext] at hsequence
    | some next =>
      simp only [hnext, Option.elim_some, Except.ok.injEq] at hsequence
      exact hsequence ▸ PublicationApi.Counts.next_eq hnext
  obtain ⟨frame, hencode, hframe, hqueued⟩ := enqueue_spec (mapError_eq_ok.mp hwriter)
  rw [show c.writer.pending = [] from h.idle] at hqueued
  obtain ⟨⟨frames, hframes, hflat⟩, hnumbered⟩ := h.append c.phase hencode hnumber
  refine wp_mono (flushWriter_spec hframe hqueued) ?_ ?_
  · intro _ c' hwire
    have hsends : c'.wire.sends = c.wire.sends ++ [(c.phase, _)] := congrArg Wire.sends hwire
    have hwritten : c'.wire.written = c.wire.written ++ frameBytes frame :=
      congrArg Wire.written hwire
    have hclean : { c' with outSequence := sequence }.wire.Clean api := by
      refine ⟨⟨frames, ?_, hwritten.trans hflat.symm⟩, ?_, ?_, congrArg Wire.queued hwire,
        (congrArg Wire.failedAt hwire).trans h.unbroken⟩
      · rw [← hsends] at hframes
        exact hframes
      · rw [← hsends] at hnumbered
        exact hnumbered
      · show sequence = c'.wire.sends.length
        rw [hsends, hnumber, length_append, length_singleton]
        rfl
    exact ⟨hclean, _, rfl, hsends⟩
  · rintro error c' ⟨hcode, ⟨⟨part, hpart, hwritten⟩, hnoted⟩, hwire⟩
    have hsends : c'.wire.sends = c.wire.sends ++ [(c.phase, _)] := congrArg Wire.sends hwire
    rw [← hsends] at hframes hnumbered
    refine .inr ⟨hcode, ⟨⟨frames, hframes, ?_⟩, hnumbered, hnoted h.unbroken⟩, _, rfl, hsends⟩
    rw [hflat, show c'.wire.written = c.wire.written ++ part from hwritten]
    exact (prefix_append_right_inj _).mpr hpart

end HelperControl

/-! ## Failing and emitting -/

def Wire.Unrevoked (w : Wire) : Prop := ∀ send ∈ w.sends, send.1 ≠ .revoked

theorem Wire.Unrevoked.append {w' : Wire} (h : w.Unrevoked) {phase : Phase}
    (hphase : phase ≠ .revoked)
    (hsends : w'.sends = w.sends ++ [(phase, record)]) : w'.Unrevoked := by
  rw [Unrevoked, hsends]
  exact forall_mem_append.mpr ⟨h, forall_mem_singleton.mpr hphase⟩

/-- The wire at every point of a run: in order, and a record sent by a revoked helper is an error
record and the last one. -/
structure Wire.Disciplined (api : PublicationApi) (w : Wire) : Prop extends w.Ordered api where
  last : ∀ before record after, w.sends = before ++ (.revoked, record) :: after →
    (∃ code, record.body = .error code) ∧ after = []

theorem Wire.Ordered.disciplined (h : w.Ordered api) (hunrevoked : w.Unrevoked) :
    w.Disciplined api := by
  refine ⟨h, fun before record after hsends => ?_⟩
  exact absurd rfl (hunrevoked (.revoked, record) (by simp [hsends]))

theorem Wire.Ordered.disciplined_error {w' : Wire} (h : w'.Ordered api) (hunrevoked : w.Unrevoked)
    {code : ErrorCode} (hbody : record.body = .error code)
    (hsends : w'.sends = w.sends ++ [(.revoked, record)]) : w'.Disciplined api := by
  refine ⟨h, fun before other after hsplit => ?_⟩
  rw [hsends] at hsplit
  rcases eq_nil_or_concat after with rfl | ⟨after, last, rfl⟩
  · obtain ⟨-, hlast⟩ := append_inj' hsplit rfl
    obtain rfl : record = other := by simpa using hlast
    exact ⟨⟨code, hbody⟩, rfl⟩
  · rw [concat_eq_append, ← cons_append, ← append_assoc] at hsplit
    have hearlier := (append_inj' hsplit rfl).1
    exact absurd rfl (hunrevoked (.revoked, other) (by simp [hearlier]))

namespace HelperControl

variable (api) in
structure Live (c : HelperControl ρ) : Prop where
  clean : c.wire.Clean api
  unrevoked : c.wire.Unrevoked
  active : c.phase ≠ .revoked

variable (api) in
structure Good (c : HelperControl ρ) : Prop where
  disciplined : c.wire.Disciplined api
  live : c.phase ≠ .revoked → c.Live api

theorem Live.good (h : c.Live api) : c.Good api :=
  ⟨h.clean.ordered.disciplined h.unrevoked, fun _ => h⟩

theorem Good.of_revoked (hphase : c.phase = .revoked) (h : c.wire.Disciplined api) : c.Good api :=
  ⟨h, fun hactive => absurd hphase hactive⟩

theorem fail_silent {fault : Fault} (hactive : c.phase ≠ .revoked) (hcode : fault.code = none) :
    (c.fail api fault).wire = { c.wire with queued := [] } := by
  unfold HelperControl.fail
  rw [if_neg hactive, hcode]
  rfl

variable [api.Counts]

theorem Live.fail (h : c.Live api) (fault : Fault) : (c.fail api fault).Good api := by
  have hphase : (c.fail api fault).phase = .revoked :=
    congrArg Authority.phase (fail_authority fault h.active)
  refine .of_revoked hphase ?_
  unfold HelperControl.fail
  rw [if_neg h.active]
  have hclean : { c with
      phase := .revoked, revocation := some fault.reason }.clearAuthority.wire.Clean api :=
    ⟨h.clean.framed, h.clean.numbered, h.clean.counted, rfl, h.clean.unbroken⟩
  cases fault.code with
  | none => exact hclean.ordered.disciplined h.unrevoked
  | some code =>
    refine (wp_state (P := fun c => c.wire.Disciplined api)).mp
      (wp_mono (rawSend_wire (.error code) hclean) ?_ ?_)
    · rintro _ c' ⟨hclean', record, hbody, hsends⟩
      exact hclean'.ordered.disciplined_error h.unrevoked hbody hsends
    · rintro error c' (hsame | ⟨-, hordered, record, hbody, hsends⟩)
      · rw [hsame]
        exact hclean.ordered.disciplined h.unrevoked
      · exact hordered.disciplined_error h.unrevoked hbody hsends

theorem emit_wire (body : RecordBody) :
    Leads (Live api) (Live api) (Good api) (emit (ρ := ρ) api body) := by
  intro c h
  unfold emit
  rw [wp_onExit]
  have hspec := wp_and (rawSend_wire body h.clean) (rawSend_authority body)
  refine wp_mono hspec ?_ ?_
  · rintro _ c' ⟨⟨hclean, record, hbody, hsends⟩, hsame, -⟩
    have hphase : c'.phase = c.phase := congrArg Authority.phase hsame
    exact ⟨hclean, h.unrevoked.append h.active hsends, hphase ▸ h.active⟩
  · rintro error c' ⟨hwire, hsame⟩
    have hphase : c'.phase = c.phase := congrArg Authority.phase hsame
    have hactive : c'.phase ≠ .revoked := hphase ▸ h.active
    rcases hwire with hwire | ⟨hcode, hordered, record, hbody, hsends⟩
    · have hlive : c'.Live api := ⟨hwire ▸ h.clean, hwire ▸ h.unrevoked, hactive⟩
      exact hlive.fail _
    · refine .of_revoked (congrArg Authority.phase (fail_authority _ hactive)) ?_
      rw [fail_silent hactive hcode]
      exact Wire.Ordered.disciplined ⟨hordered.framed, hordered.numbered, hordered.stopped⟩
        (h.unrevoked.append h.active hsends)

/-! ## The calls keep the wire -/

theorem refuseWith_wire {α : Type} {J : HelperControl ρ → Prop} (fault : Fault) :
    Leads (Live api) J (Good api) (refuseWith (ρ := ρ) (α := α) api fault) :=
  fun _ h => wp_refuseWith.mpr (h.fail fault)

theorem refuseIfFault_wire {condition : Prop} [Decidable condition] (fault : Fault) :
    Leads (Live api) (Live api) (Good api) (refuseIfFault (ρ := ρ) api condition fault) :=
  fun _ h => wp_refuseIfFault.mpr ⟨fun _ => h.fail fault, fun _ => h⟩

omit [api.Counts] in
theorem readRecord_written (stream : ControlStream) :
    (readRecord api stream).2.written = stream.written ∧
      (readRecord api stream).2.failedAt = stream.failedAt := by
  let I : ControlStream → Prop := fun stream' =>
    stream'.written = stream.written ∧ stream'.failedAt = stream.failedAt
  have hfill : ∀ size stop, Leads I I I (fill size stop) :=
    fun size stop stream' h => wp_state.mpr h
  have hallocate : ∀ requested, Leads I I I (allocate requested) := by
    intro requested stream' h
    refine wp_state.mpr ?_
    unfold allocate
    split <;> exact h
  have hread : Leads I I I (readRecord api) :=
    .bind (hfill _ _) fun _ => .bind (.refuse fun _ h => h) fun _ =>
      .bind (.refuse fun _ h => h) fun _ => .bind (.refuse fun _ h => h) fun _ =>
      .bind (hallocate _) fun _ => .bind (hfill _ _) fun _ => .bind (.attempt fun _ h => h) fun _ =>
      .attempt fun _ h => h
  exact (wp_state (P := I)).mp (hread stream ⟨rfl, rfl⟩)

theorem readIncoming_wire : Leads (Live api) (Live api) (Good api) (readIncoming (ρ := ρ) api) := by
  refine .bind (J := Live api) (.lift fun c h => ?_) fun result => ?_
  · obtain ⟨hwritten, hfailedAt⟩ := @readRecord_written api c.stream
    have hwire : (c.readStream api).2.wire = c.wire := by
      show { c.wire with
        written := (readRecord api c.stream).2.written
        failedAt := (readRecord api c.stream).2.failedAt } = c.wire
      rw [hwritten, hfailedAt]
      rfl
    exact ⟨hwire ▸ h.clean, hwire ▸ h.unrevoked, h.active⟩
  · cases result with
    | ok record => exact .pure (fun _ h => h) record
    | error error => exact refuseWith_wire _

theorem validateEnvelope_wire (record : ControlRecord) :
    Leads (Live api) (Live api) (Good api) (validateEnvelope (ρ := ρ) api record) :=
  .bind (refuseIfFault_wire _) fun _ => .bind .read fun _ => .bind (refuseIfFault_wire _) fun _ =>
    .bind .read fun _ => .bind (refuseIfFault_wire _) fun _ =>
    .modify fun _ h => ⟨h.clean, h.unrevoked, h.active⟩

theorem snapshotOrFail_wire : Leads (Live api) (Live api) (Good api) (snapshotOrFail api view) := by
  refine .bind (J := Live api) (.lift fun _ h => ⟨h.clean, h.unrevoked, h.active⟩) fun result => ?_
  cases result with
  | ok snapshot => exact .pure (fun _ h => h) snapshot
  | error error => exact refuseWith_wire _

omit [api.Counts] in
theorem randomId_wire : Leads (Live api) (Live api) (Live api) (randomId (ρ := ρ)) := by
  intro c h
  exact wp_randomId (fun _ _ => ⟨h.clean, h.unrevoked, h.active⟩)
    fun _ _ => ⟨h.clean, h.unrevoked, h.active⟩

theorem onExit_wire {α : Type} {m : Op ρ α} {fault : HelperControlError → Fault}
    (h : Leads (Live api) (Live api) (Live api) m) :
    Leads (Live api) (Live api) (Good api)
      (m.onExit fun error c => c.fail api (fault error)) :=
  fun c hlive => wp_onExit.mpr
    (wp_mono (h c hlive) (fun _ _ hok => hok) (fun _ _ hexit => hexit.fail _))

theorem freshLifetimeOrFail_wire (feedRevision : Nat) :
    Leads (Live api) (Live api) (Good api) (freshLifetimeOrFail (ρ := ρ) api feedRevision) :=
  onExit_wire (.bind randomId_wire fun _ => .bind randomId_wire fun _ => .bind .read fun _ =>
    .bind (.refuse fun _ h => h) fun _ => .pure (fun _ h => h) _)

theorem announceLifetime_wire (lifetime : Lifetime) (projection : ProviderRoutingProjection) :
    Leads (Live api) (Live api) (Good api)
      (announceLifetime (ρ := ρ) api lifetime projection) := by
  refine .bind (J := Live api) (.modify fun c h => ?_) fun _ =>
    .bind (emit_wire _) fun _ => emit_wire _
  have hwire :
      { c.retireCurrent with lifetime := some lifetime, phase := .ready }.wire = c.wire := by
    unfold retireCurrent
    cases c.lifetime <;> rfl
  exact ⟨hwire ▸ h.clean, hwire ▸ h.unrevoked, nofun⟩

omit [api.Counts] in
theorem Live.clearReceipt (h : c.Live api) : c.clearReceipt.Live api := by
  unfold HelperControl.clearReceipt
  split <;> exact ⟨h.clean, h.unrevoked, h.active⟩

omit [api.Counts] in
theorem withdrawAuthority_wire (reason : Reason) :
    Leads (Live api) (Good api) (Good api) (withdrawAuthority (ρ := ρ) reason) := by
  refine .bind (J := Good api) (.modify fun c h => .of_revoked rfl ?_) fun _ =>
    .pure (fun _ h => h) _
  exact Wire.Ordered.disciplined
    ⟨h.clean.ordered.framed, h.clean.numbered, h.clean.ordered.stopped⟩ h.unrevoked

omit [api.Counts] in
theorem currentIdentity_wire : Leads (Live api) (Live api) (Good api) (currentIdentity (ρ := ρ)) :=
  .attempt fun _ h => h.good

theorem handlePublish_wire (body : PublishBody) :
    Leads (Live api) (Good api) (Good api) (handlePublish (ρ := ρ) api body) := by
  refine .bind currentIdentity_wire fun _ => .bind (refuseIfFault_wire _) fun _ =>
    .bind .read fun _ => .bind (refuseIfFault_wire _) fun _ => .bind (refuseIfFault_wire _) fun _ =>
    .bind (refuseIfFault_wire _) fun _ => .bind (onExit_wire randomId_wire) fun _ =>
    .bind (refuseIfFault_wire _) fun _ => ?_
  exact .bind (.modify fun _ h => h.clearReceipt) fun _ =>
    .bind (J := Live api) (.modify fun _ h => ⟨h.clean, h.unrevoked, nofun⟩) fun _ =>
    .bind (emit_wire _) fun _ => .pure (fun _ h => h.good) _

theorem handleBind_wire (body : AckBody) :
    Leads (Live api) (Good api) (Good api) (handleBind api view body) := by
  refine .bind (J := Live api) (.lift fun _ h => ⟨h.clean, h.unrevoked, h.active⟩) fun pending => ?_
  cases pending with
  | none => exact refuseWith_wire _
  | some pending =>
    refine .bind (refuseIfFault_wire _) fun _ =>
      .bind (J := Live api) (.lift fun _ h => ⟨h.clean, h.unrevoked, h.active⟩) fun matched => ?_
    rcases matched with error | (_ | _)
    · exact refuseWith_wire _
    · exact refuseWith_wire _
    · exact .bind (onExit_wire randomId_wire) fun _ => .bind .read fun _ =>
        .bind (refuseIfFault_wire _) fun _ =>
        .bind (J := Live api) (.modify fun _ h => ⟨h.clean, h.unrevoked, nofun⟩) fun _ =>
        .bind (emit_wire _) fun _ => .pure (fun _ h => h.good) _

theorem rotation_wire (fault : Fault) (revision : Nat) (previous : LifetimeId) (reason : Reason) :
    Leads (Live api) (Good api) (Good api) (do
      let snapshot ← snapshotOrFail api view
      refuseIfFault api (snapshot.feedRevision ≠ revision) fault
      let lifetime ← freshLifetimeOrFail api revision
      announceLifetime api lifetime snapshot.projection
      pure (Step.lifetimeRotated previous lifetime.id revision reason)) :=
  .bind snapshotOrFail_wire fun _ => .bind (refuseIfFault_wire _) fun _ =>
    .bind (freshLifetimeOrFail_wire _) fun _ => .bind (announceLifetime_wire _ _) fun _ =>
    .pure (fun _ h => h.good) _

theorem handleInvalidate_wire (body : InvalidateBody) :
    Leads (Live api) (Good api) (Good api) (handleInvalidate api view body) :=
  .bind (refuseIfFault_wire _) fun _ => .bind .read fun _ => .ite
    (.bind (J := Live api)
      (.modify fun _ h => Live.clearReceipt ⟨h.clean, h.unrevoked, h.active⟩) fun _ =>
      .ite (withdrawAuthority_wire _) (rotation_wire _ _ _ _))
    (.ite
      (.bind (J := Live api) (.modify fun _ h => ⟨h.clean, h.unrevoked, h.active⟩) fun _ =>
        .ite (withdrawAuthority_wire _) (.pure (fun _ h => h.good) _))
      (refuseWith_wire _))

omit [api.Counts] in
theorem requireActive_wire : Leads (Good api) (Live api) (Good api) (requireActive (ρ := ρ)) :=
  fun _ h => requireActive_spec (fun _ => h.live) (fun _ => h) (fun _ => h)

theorem step_wire : Leads (Good api) (Good api) (Good api) (step api view) := by
  refine .bind requireActive_wire fun _ => .bind readIncoming_wire fun record =>
    .bind (validateEnvelope_wire _) fun _ => ?_
  split
  · exact handlePublish_wire _
  · exact handleBind_wire _
  · exact handleInvalidate_wire _
  · exact .bind (.modify fun _ h => h.fail _) fun _ => .pure (fun _ h => h) _
  · exact refuseWith_wire _

theorem invalidation_wire (body : RecordBody) {next : Op ρ Step}
    (h : Leads (Live api) (Good api) (Good api) next) :
    Leads (Live api) (Good api) (Good api) (do
      Exiting.modify fun c => { c with pending := none }.clearReceipt
      emit api body
      next) :=
  .bind (.modify fun _ h => Live.clearReceipt ⟨h.clean, h.unrevoked, h.active⟩) fun _ =>
    .bind (emit_wire _) fun _ => h

theorem reset_wire : Leads (Good api) (Good api) (Good api) (reset api view) :=
  .bind requireActive_wire fun _ => .bind currentIdentity_wire fun _ =>
    invalidation_wire _ (rotation_wire _ _ _ _)

theorem registryMutated_wire (mutate : ρ → Except RegistryError Unit × ρ) :
    Leads (Good api) (Good api) (Good api) (registryMutated api view mutate) := by
  refine .bind requireActive_wire fun _ => .bind currentIdentity_wire fun _ =>
    .bind (refuseIfFault_wire _) fun _ => .bind snapshotOrFail_wire fun _ =>
    .bind (refuseIfFault_wire _) fun _ => invalidation_wire _ ?_
  refine .bind (J := Live api) (.lift fun _ h => ⟨h.clean, h.unrevoked, h.active⟩) fun mutated => ?_
  cases mutated with
  | error error => exact refuseWith_wire _
  | ok _ => exact rotation_wire _ _ _ _

theorem establish_wire : Leads (Good api) (Good api) (Good api) (establish api view) := by
  intro c h
  unfold establish
  rw [wp_bind, wp_read, wp_bind, wp_refuse]
  refine ⟨fun _ => h, fun hactive => ?_⟩
  refine Leads.bind (I := Live api) (refuseIfFault_wire _) (fun _ =>
    .bind readIncoming_wire fun record => .bind (validateEnvelope_wire _) fun _ => ?_) c
    (h.live hactive)
  split
  · refine .bind .read fun expectations => ?_
    split
    · exact refuseWith_wire _
    · exact .bind snapshotOrFail_wire fun _ => .bind (freshLifetimeOrFail_wire _) fun _ =>
        .bind (J := Live api) (.modify fun _ h => ⟨h.clean, h.unrevoked, nofun⟩) fun _ =>
        .bind (emit_wire _) fun _ => (emit_wire _).mono fun _ h => h.good
  · exact refuseWith_wire _

omit [api.Counts] in
theorem close_wire (h : c.Good api) : c.close.Good api := by
  unfold close
  split
  · exact h
  · case _ hactive =>
    have hlive := h.live hactive
    refine .of_revoked rfl (Wire.Ordered.disciplined ?_ hlive.unrevoked)
    exact ⟨hlive.clean.ordered.framed, hlive.clean.numbered, hlive.clean.ordered.stopped⟩

end HelperControl

open HelperControl

section Runs

variable [api.Counts]

theorem run_wire (call : Call ρ) (h : c.Good api) : (call.run api view c).2.Good api := by
  refine (wp_state (P := Good api)).mp ?_
  cases call with
  | establish => exact wp_map.mpr (establish_wire c h)
  | step => exact wp_map.mpr (step_wire c h)
  | registryMutated mutate => exact wp_map.mpr (registryMutated_wire mutate c h)
  | reset => exact wp_map.mpr (reset_wire c h)
  | close => exact wp_map.mpr (wp_modify.mpr (close_wire h))

theorem serve_wire (calls : List (Call ρ)) : ∀ c : HelperControl ρ, c.Good api →
    (serve api view calls c).Good api := by
  induction calls with
  | nil => exact fun c h => h
  | cons call calls ih => exact fun c h => ih _ (run_wire call h)

end Runs

/-- Over any run of a fresh helper on an unused stream: the wire holds the start of the numbered
frames of the records sent, it does not grow after a failed write, and a record sent by a revoked
helper is an error record and the last one. -/
theorem wire_discipline (api : PublicationApi)
    (hnext : ∀ last next, api.nextExpectedSequence last = some next → next = last + 1)
    (view : RegistryView ρ) (stream : ControlStream) (registry : ρ)
    (expectations : EstablishmentExpectations) (random : List (Option Bytes32))
    (calls : List (Call ρ)) :
    let unwritten := { stream with written := [], failedAt := none }
    let c := serve api view calls
      (HelperControl.withExpectations unwritten registry expectations random)
    (∃ frames, List.Forall₂ (fun send => SendsAs api send.2) c.sends frames ∧
        c.stream.written <+: frames.flatten) ∧
      c.sends.map (·.2.sequence) = range' 1 c.sends.length ∧
      (∀ written, c.stream.failedAt = some written → c.stream.written = written) ∧
      ∀ before record after, c.sends = before ++ (.revoked, record) :: after →
        (∃ code, record.body = .error code) ∧ after = [] := by
  intro unwritten c
  have : api.Counts := ⟨hnext _ _⟩
  have hfresh : (HelperControl.withExpectations unwritten registry expectations random).Live api :=
    ⟨⟨⟨[], .nil, rfl⟩, rfl, rfl, rfl, rfl⟩, nofun, nofun⟩
  have hgood : c.Good api := serve_wire calls _ hfresh.good
  exact ⟨hgood.disciplined.framed, hgood.disciplined.numbered, hgood.disciplined.stopped,
    hgood.disciplined.last⟩

/-- `Established`, a projection, the two acknowledgements and the `Bound` between them. -/
theorem wire_discipline_sample :
    let c := serve sampleApi sampleView sampleCalls
      (HelperControl.withExpectations sampleStream () ⟨sampleEcho⟩ sampleRandom)
    c.sends.length = 5 ∧ c.stream.written.length = 25 ∧
      (∃ frames, List.Forall₂ (fun send => SendsAs sampleApi send.2) c.sends frames ∧
        c.stream.written <+: frames.flatten) ∧
      c.sends.map (·.2.sequence) = range' 1 c.sends.length := by
  obtain ⟨hframed, hnumbered, -⟩ := wire_discipline sampleApi
    (fun _ _ h => (Option.some.inj h).symm)
    sampleView sampleStream () ⟨sampleEcho⟩ sampleRandom sampleCalls
  exact ⟨by decide +kernel, by decide +kernel, hframed, hnumbered⟩

end BittyAi.Control
