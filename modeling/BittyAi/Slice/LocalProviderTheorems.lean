/-
BittyAi.Slice.LocalProviderTheorems — when an error of the local provider lets a fallback repeat a
request whose effect is uncertain.

`NoBlindFallback` says of one behaviour of the network that an error after a byte of the body was
taken, and before the head of a response arrived, stops the fallback chain.
It fails for every timeout, for an expired deadline and for a server that closes without an
answer, all of which advance the chain.
-/
import BittyAi.Slice.LocalProvider

namespace BittyAi.Slice

open Lib Exiting List
open BittyAi.Runtime (ProviderError fallbackDirective)

variable {answers : List ReadAnswer} {R : ProviderError → Wire → Prop} (provider : String)

/-! ## What the socket does with the request -/

theorem writeLoop_taken (answers : List WriteAnswer) (bytes : List UInt8) :
    (writeLoop answers bytes).taken.length ≤ bytes.length ∧
      ((writeLoop answers bytes).error = none → (writeLoop answers bytes).taken = bytes) := by
  induction answers generalizing bytes with
  | nil => cases bytes <;> simp [writeLoop]
  | cons answer answers ih =>
    cases bytes with
    | nil => simp [writeLoop]
    | cons b bytes =>
      cases answer with
      | fails kind =>
        by_cases hkind : kind = .interrupted
        · subst hkind
          simpa [writeLoop] using ih (b :: bytes)
        · have hstop :
              writeLoop (.fails kind :: answers) (b :: bytes) = ⟨[], some kind, answers⟩ := by
            cases kind <;> first | rfl | exact absurd rfl hkind
          simp [hstop]
      | takes count =>
        cases count with
        | zero => simp [writeLoop]
        | succ count =>
          obtain ⟨hle, hall⟩ := ih (bytes.drop count)
          simp only [writeLoop, drop_succ_cons, take_succ_cons]
          refine ⟨?_, fun hok => ?_⟩
          · rw [length_append, length_cons, length_take, length_cons]
            rw [length_drop] at hle
            omega
          · rw [hall hok, cons_append, take_append_drop]

variable {Q : Unit → Wire → Prop} {wire : Wire}

theorem wp_writeAll {bytes : List UInt8} {R : IoKind → Wire → Prop} : wp (writeAll bytes) Q R wire ↔
      let run := writeLoop wire.writes bytes
      let after := { wire with writes := run.answers, sent := wire.sent ++ run.taken }
      (run.error = none → Q () after) ∧ ∀ kind, run.error = some kind → R kind after := by
  unfold wp writeAll
  cases herror : (writeLoop wire.writes bytes).error <;> simp [herror]

theorem wp_scripted {answer : Option IoKind} {f : IoKind → ProviderError} :
    wp (scripted answer f) Q R wire ↔
      (answer = none → Q () wire) ∧ ∀ kind, answer = some kind → R (f kind) wire := by
  unfold scripted
  cases answer <;> simp

theorem wp_readBounded {provider : String} {readMs : Nat} {Q : List UInt8 → Wire → Prop} :
    wp (readBounded provider readMs) Q R wire ↔
      let run := readLoop wire.reads []
      let after := { wire with reads := [], received := run.delivered }
      (∀ raw, readOutcome provider readMs run = .ok raw → Q raw after) ∧
        ∀ error, readOutcome provider readMs run = .error error → R error after := by
  unfold wp readBounded
  cases houtcome : readOutcome provider readMs (readLoop wire.reads []) <;> simp [houtcome]

theorem operationAllowanceMs_eq_ok {endpointMs deadlineEndMs nowMs allowance : Nat} :
    operationAllowanceMs endpointMs deadlineEndMs nowMs = .ok allowance ↔
      nowMs < deadlineEndMs ∧
        allowance = effectiveAllowanceMs endpointMs (deadlineEndMs - nowMs) := by
  unfold operationAllowanceMs
  by_cases h : deadlineEndMs - nowMs = 0
  · simp only [h, if_true, reduceCtorEq, false_iff, not_and]
    omega
  · simp only [h, if_false, Except.ok.injEq]
    constructor
    · rintro rfl
      exact ⟨by omega, rfl⟩
    · rintro ⟨-, rfl⟩
      rfl

/-! ## The head of the response -/

variable {raw : List UInt8}

theorem findTerminator_eq_none : findTerminator raw = none ↔ ¬headTerminator <:+: raw := by
  induction raw with
  | nil => simp [findTerminator, headTerminator]
  | cons b rest ih =>
    rw [findTerminator, infix_cons_iff, ← isPrefixOf_iff_prefix]
    split
    · simp [*]
    · simp [*]

/-! ## Which errors stop the chain -/

theorem fallback_mapWriteError (kind : IoKind) (writeMs : Nat) {bodyLen : Nat}
    (hlen : 0 < bodyLen) :
    fallbackDirective (mapWriteError provider kind writeMs bodyLen true) = .stop ↔
      isUncertainKind kind = true := by
  unfold mapWriteError
  cases kind <;> simp [isTimeoutKind, isUncertainKind, remainingTimeout, fallbackDirective, hlen]

/-- The ways a response may end before its head that stop the chain: behind at least one byte of
text that is shorter than a head may be. -/
def Truncated (run : ReadRun) : Prop :=
  run.raw ≠ [] ∧
    match run.stop with
    | .overflow => False
    | .failed kind => isTimeoutKind kind = false
    | .closed => (∃ text, run.raw = utf8Bytes text) ∧ run.raw.length < maxLocalHeadersBytes

theorem readLoop_delivered (answers : List ReadAnswer) (raw : List UInt8)
    (h : (readLoop answers raw).stop ≠ .overflow) :
    (readLoop answers raw).delivered = (readLoop answers raw).raw := by
  induction answers generalizing raw with
  | nil => rfl
  | cons answer answers ih =>
    cases answer with
    | fails kind => rfl
    | delivers bytes =>
      simp only [readLoop] at h ⊢
      by_cases hnone : bytes.take localReadChunk = []
      · rw [if_pos hnone]
      · rw [if_neg hnone] at h ⊢
        by_cases hover : raw.length + (bytes.take localReadChunk).length > receiveCap
        · rw [if_pos hover] at h
          exact absurd rfl h
        · rw [if_neg hover] at h ⊢
          exact ih _ h

theorem findTerminator_of_readOutcome {provider : String} {readMs : Nat}
    (hhead : ¬headTerminator <:+: (readLoop answers []).delivered)
    (h : readOutcome provider readMs (readLoop answers []) = .ok raw) :
    findTerminator raw = none := by
  have hdelivered := readLoop_delivered answers []
  generalize readLoop answers [] = run at hhead hdelivered h ⊢
  unfold readOutcome at h
  cases hstop : run.stop with
  | overflow => simp [hstop] at h
  | failed kind =>
    simp only [hstop] at h
    split at h
    · cases h
    · split at h <;> cases h
  | closed =>
    simp only [hstop] at h
    split at h
    · cases h
    · obtain rfl := Except.ok.inj h
      rw [findTerminator_eq_none, ← hdelivered (by simp [hstop])]
      exact hhead

theorem fallback_splitResponse (hnone : findTerminator raw = none) :
    ∃ error, splitResponse provider raw = .error error ∧
      (fallbackDirective error = .stop ↔
        (∃ text, raw = utf8Bytes text) ∧ raw.length < maxLocalHeadersBytes) := by
  unfold splitResponse
  cases hread : fromUtf8? raw with
  | none =>
    have hbinary : ¬∃ text, raw = utf8Bytes text := by
      rintro ⟨text, rfl⟩
      exact absurd (hread.symm.trans (fromUTF8?_utf8Bytes text)) (by simp)
    exact ⟨_, rfl, by simp [fallbackDirective, hbinary]⟩
  | some text =>
    have htext : ∃ text, raw = utf8Bytes text := ⟨text, eq_utf8Bytes_of_fromUtf8? hread⟩
    simp only [hnone]
    by_cases hlong : raw.length ≥ maxLocalHeadersBytes
    · exact ⟨_, if_pos hlong, by simp [fallbackDirective, hlong]⟩
    · exact ⟨_, if_neg hlong, by simp [fallbackDirective, htext, Nat.lt_of_not_le hlong]⟩

theorem fallback_response (readMs : Nat)
    (hhead : ¬headTerminator <:+: (readLoop answers []).delivered) :
    ((∀ raw, readOutcome provider readMs (readLoop answers []) = .ok raw →
        ∀ error, splitResponse provider raw = .error error → fallbackDirective error = .stop) ∧
      ∀ error, readOutcome provider readMs (readLoop answers []) = .error error →
        fallbackDirective error = .stop) ↔ Truncated (readLoop answers []) := by
  have hkept : ∀ raw, readOutcome provider readMs (readLoop answers []) = .ok raw →
      findTerminator raw = none :=
    fun raw h => findTerminator_of_readOutcome hhead h
  generalize readLoop answers [] = run at hhead hkept ⊢
  unfold Truncated
  cases hstop : run.stop with
  | overflow => simp [readOutcome, hstop, fallbackDirective]
  | failed kind =>
    by_cases htimeout : isTimeoutKind kind = true
    · simp [readOutcome, hstop, htimeout, remainingTimeout, fallbackDirective]
    · by_cases hraw : run.raw = [] <;>
        simp [readOutcome, hstop, htimeout, hraw, fallbackDirective]
  | closed =>
    by_cases hraw : run.raw = []
    · simp [readOutcome, hstop, hraw, fallbackDirective]
    · have hok : readOutcome provider readMs run = .ok run.raw := by
        simp [readOutcome, hstop, hraw]
      obtain ⟨error, herror, hstops⟩ := fallback_splitResponse provider (hkept _ hok)
      simp [hok, herror, hstops, hraw]

/-! ## The round trip -/

section RoundTrip

variable (parseIp : String → Option Bool) (respond : List UInt8 → Nat → Except ProviderError String)
variable (endpoint : LocalEndpoint) (body : List UInt8) (deadlineEndMs : Nat) (net : Network)

def headBytes : List UInt8 := utf8Bytes (requestHead endpoint body.length)

def headRun : WriteRun := writeLoop net.writes (headBytes endpoint body)

def bodyRun : WriteRun := writeLoop (headRun endpoint body net).answers body

def Cautious (error : ProviderError) (wire : Wire) : Prop :=
  (headBytes endpoint body).length < wire.sent.length → ¬headTerminator <:+: wire.received →
    fallbackDirective error = .stop

def NoBlindFallback : Prop :=
  let after := httpRoundTrip parseIp respond endpoint body deadlineEndMs net net.wire
  ∀ error, after.1 = .error error → Cautious endpoint body error after.2

structure HeadTaken : Prop where
  address : endpoint.socketAddr parseIp = .ok ()
  connectTime : net.connectNow < deadlineEndMs
  connects : net.connect = none
  writeTime : net.writeNow < deadlineEndMs
  armed : net.armWrite = none
  head : (headRun endpoint body net).error = none

/-- The network answers a sent request in a way that the provider can tell from a request without
effect. -/
def AnswersDiscernibly : Prop :=
  net.readNow < deadlineEndMs ∧
    (net.armRead = none → headTerminator <:+: (readLoop net.reads []).delivered ∨
      Truncated (readLoop net.reads []))

/-- Behind the head the network fails discernibly: the write of the body breaks with one of the
kinds of a lost connection, or the body is written and answered discernibly. -/
def Discernible : Prop :=
  match (bodyRun endpoint body net).error with
  | some kind => isUncertainKind kind = true
  | none => AnswersDiscernibly deadlineEndMs net

def sentWire : Wire :=
  ⟨(bodyRun endpoint body net).answers, net.reads,
    headBytes endpoint body ++ (bodyRun endpoint body net).taken, []⟩

variable {parseIp respond endpoint body deadlineEndMs net}

theorem cautious_of_no_body {error : ProviderError}
    (h : wire.sent.length ≤ (headBytes endpoint body).length) :
    Cautious endpoint body error wire :=
  fun hsent => absurd hsent (Nat.not_lt.mpr h)

theorem wp_sendRequest :
    wp (sendRequest parseIp endpoint body deadlineEndMs net) Q (Cautious endpoint body)
        net.wire ↔
      (HeadTaken parseIp endpoint body deadlineEndMs net →
        ((bodyRun endpoint body net).error = none → Q () (sentWire endpoint body net)) ∧
          ∀ kind, (bodyRun endpoint body net).error = some kind →
            Cautious endpoint body (mapWriteError endpoint.providerId kind
              (effectiveAllowanceMs endpoint.connectTimeoutMs (deadlineEndMs - net.writeNow))
              body.length true) (sentWire endpoint body net)) := by
  have hunsent : ∀ error, Cautious endpoint body error net.wire :=
    fun error => cautious_of_no_body (Nat.zero_le _)
  have hpartial : ∀ error answers, Cautious endpoint body error
      ⟨answers, net.reads, (headRun endpoint body net).taken, []⟩ :=
    fun error answers => cautious_of_no_body (writeLoop_taken _ _).1
  have hwhole : (headRun endpoint body net).error = none →
      (headRun endpoint body net).taken = headBytes endpoint body := (writeLoop_taken _ _).2
  unfold sendRequest
  simp only [wp_bind, wp_attempt, wp_scripted, wp_mapExit, wp_writeAll,
    operationAllowanceMs_eq_ok, hunsent, implies_true, and_true]
  constructor
  · intro h hhead
    have hsent := (h () hhead.address _ ⟨hhead.connectTime, rfl⟩ hhead.connects _
      ⟨hhead.writeTime, rfl⟩ hhead.armed).1 hhead.head
    unfold sentWire
    rw [← hwhole hhead.head]
    exact hsent
  · rintro h ⟨⟩ haddress _ ⟨hconnect, rfl⟩ hconnects _ ⟨hwrite, rfl⟩ harmed
    refine ⟨fun hhead => ?_, fun kind _ => hpartial _ _⟩
    have hsent := h ⟨haddress, hconnect, hconnects, hwrite, harmed, hhead⟩
    unfold sentWire at hsent
    rw [← hwhole hhead] at hsent
    exact hsent

theorem receiveResponse_sent (wire : Wire) : wp (receiveResponse respond endpoint deadlineEndMs net)
      (fun _ after => after.sent = wire.sent) (fun _ after => after.sent = wire.sent) wire := by
  simp [receiveResponse, wp_scripted, wp_readBounded]

theorem wp_receiveResponse (hsent : (headBytes endpoint body).length < wire.sent.length)
    (hreads : wire.reads = net.reads) (hreceived : wire.received = []) :
    wp (receiveResponse respond endpoint deadlineEndMs net) (fun _ _ => True)
        (Cautious endpoint body) wire ↔ AnswersDiscernibly deadlineEndMs net := by
  have hblind : ∀ error, Cautious endpoint body error wire → fallbackDirective error = .stop :=
    fun error h => h hsent (by rw [hreceived]; decide)
  unfold receiveResponse AnswersDiscernibly
  simp only [wp_bind, wp_attempt, wp_scripted, wp_readBounded, hreads, operationAllowanceMs_eq_ok]
  constructor
  · rintro ⟨hread, hlate⟩
    have htime : net.readNow < deadlineEndMs := by
      by_contra hpassed
      have hzero : deadlineEndMs - net.readNow = 0 := by omega
      have hstop := hblind _ (hlate (remainingTimeout 0) (if_pos hzero))
      exact absurd hstop (by simp [remainingTimeout, fallbackDirective])
    refine ⟨htime, fun harm => ?_⟩
    by_cases hhead : headTerminator <:+: (readLoop net.reads []).delivered
    · exact .inl hhead
    · obtain ⟨hkept, hfailed⟩ := (hread _ ⟨htime, rfl⟩).1 harm
      exact .inr ((fallback_response _ _ hhead).mp
        ⟨fun raw hraw error herror => (hkept raw hraw).2 error herror hsent hhead,
          fun error herror => hfailed error herror hsent hhead⟩)
  · rintro ⟨htime, hanswer⟩
    refine ⟨?_, fun error hlate => ?_⟩
    · rintro budget ⟨-, rfl⟩
      refine ⟨fun harm => ?_, fun kind _ _ _ => rfl⟩
      by_cases hhead : headTerminator <:+: (readLoop net.reads []).delivered
      · exact ⟨fun _ _ => ⟨fun _ _ => ⟨fun _ _ => trivial, fun _ _ _ hno => absurd hhead hno⟩,
          fun _ _ _ hno => absurd hhead hno⟩, fun _ _ _ hno => absurd hhead hno⟩
      · obtain ⟨hkept, hfailed⟩ := (fallback_response endpoint.providerId
          (effectiveAllowanceMs endpoint.readTimeoutMs (deadlineEndMs - net.readNow)) hhead).mpr
          ((hanswer harm).resolve_left hhead)
        refine ⟨fun raw hraw => ⟨fun split hsplit => ?_, fun error herror _ _ =>
          hkept raw hraw error herror⟩, fun error herror _ _ => hfailed error herror⟩
        obtain ⟨error, herror, -⟩ := fallback_splitResponse endpoint.providerId
          (findTerminator_of_readOutcome hhead hraw)
        cases hsplit.symm.trans herror
    · have hzero : ¬deadlineEndMs - net.readNow = 0 := by omega
      simp [operationAllowanceMs, hzero] at hlate

/-- The chain never advances blindly exactly if the network, once it has taken a byte of the body,
fails discernibly. -/
theorem no_blind_fallback_iff (parseIp : String → Option Bool)
    (respond : List UInt8 → Nat → Except ProviderError String) (endpoint : LocalEndpoint)
    (body : List UInt8) (deadlineEndMs : Nat) (net : Network) :
    NoBlindFallback parseIp respond endpoint body deadlineEndMs net ↔
      (HeadTaken parseIp endpoint body deadlineEndMs net →
        (bodyRun endpoint body net).taken ≠ [] → Discernible endpoint body deadlineEndMs net) := by
  refine (wp_stops (R := Cautious endpoint body)).symm.trans ?_
  unfold httpRoundTrip Discernible
  rw [wp_bind, wp_sendRequest]
  refine imp_congr_right fun _ => ?_
  have hsent : (bodyRun endpoint body net).taken ≠ [] ↔
      (headBytes endpoint body).length < (sentWire endpoint body net).sent.length := by
    simp [sentWire, length_pos_iff]
  by_cases hbody : (bodyRun endpoint body net).taken = []
  · -- nothing of the body is taken, so there is nothing to repeat
    have hnothing :
        (sentWire endpoint body net).sent.length ≤ (headBytes endpoint body).length := by
      simp [sentWire, hbody]
    simp only [hbody, ne_eq, not_true_eq_false, false_implies, iff_true]
    refine ⟨fun _ => ?_, fun kind _ => cautious_of_no_body hnothing⟩
    exact wp_mono (receiveResponse_sent _) (fun _ _ _ => trivial)
      fun error after hsame => cautious_of_no_body (hsame ▸ hnothing)
  · have hpos : 0 < body.length := by
      have := (writeLoop_taken (headRun endpoint body net).answers body).1
      have := length_pos_iff.mpr hbody
      unfold bodyRun at this
      omega
    simp only [hbody, ne_eq, not_false_eq_true, true_implies]
    cases herror : (bodyRun endpoint body net).error with
    | none =>
      simp only [true_implies, reduceCtorEq, false_implies, implies_true, and_true]
      exact wp_receiveResponse (hsent.mp hbody) rfl rfl
    | some kind =>
      simp only [reduceCtorEq, false_implies, true_and, Option.some.injEq, forall_eq']
      rw [← fallback_mapWriteError endpoint.providerId kind _ hpos]
      exact ⟨fun h => h (hsent.mp hbody) (show ¬headTerminator <:+: [] by decide), fun h _ _ => h⟩

end RoundTrip

/-! ## A request that may run twice -/

def sampleEndpoint : LocalEndpoint where
  host := "localhost"
  port := 11434
  path := "/v1/chat/completions"
  providerId := "local-ollama"
  connectTimeoutMs := 2000
  readTimeoutMs := 5000
  apiKey := none

def silentNetwork : Network where
  connect := none
  armWrite := none
  writes := []
  armRead := none
  reads := [.fails .timedOut]
  connectNow := 0
  writeNow := 1
  readNow := 2

/-- The provider reports a timeout, and the chain sends the request to the next one. -/
theorem silent_server_advances :
    ¬NoBlindFallback (fun _ => some true) (fun _ _ => .ok "") sampleEndpoint [0x7b, 0x7d] 10000
      silentNetwork := by
  intro h
  have herror : (httpRoundTrip (fun _ => some true) (fun _ _ => .ok "") sampleEndpoint [0x7b, 0x7d]
      10000 silentNetwork silentNetwork.wire).1 = .error (.timeout 5000 5001) := by
    decide +kernel
  exact absurd (h _ herror (by decide +kernel) (by decide +kernel)) (by decide)

end BittyAi.Slice
