/-
BittyAi.Runtime.TurnBudgetTheorems — the bytes of the first provider request against the
budget that seed assembly was given.

The message rendered for a record is longer than its footprint by `renderOverhead`: the
label, the separators, the fence of an untrusted record, and what decoding adds. The first
request of a turn holds these messages and the prompt (`Turn.rounds_first`).
-/
import BittyAi.Runtime.ObservationTheorems
import BittyAi.Runtime.TurnTheorems

namespace BittyAi.Runtime

open Lib Lib.Exiting

/-! ## The size of a rendered record -/

/-- What rendering adds to the content of a record: decoding an inline body can
only grow it, and a reference is introduced by "see ". -/
def AssembledContent.growth : AssembledContent → Nat
  | .inline bytes => (lossyText bytes).utf8ByteSize - bytes.length
  | .reference _ => 4

/-- The bytes of a fence around a payload of `len` bytes. -/
def fenceOverhead (len : Nat) : Nat := 103 + decimalSize len

/-- The bytes that `assembled_record_message` adds to the footprint of a record. -/
def AssembledRecord.renderOverhead (record : AssembledRecord) : Nat :=
  let labelled := record.provider.utf8ByteSize + record.id.utf8ByteSize + 13 +
    record.content.growth
  if record.isUntrustedSurface then labelled + 2 + fenceOverhead record.payload.utf8ByteSize
  else labelled

theorem fenced_size (body : String) :
    (fenced body).utf8ByteSize = body.utf8ByteSize + fenceOverhead body.utf8ByteSize := by
  have hopening : "[untrusted observation len=".utf8ByteSize = 27 := by decide +kernel
  have hnote : (": " ++ untrustedObservationNote ++ "]\n").utf8ByteSize = 51 := by decide +kernel
  have hfooter : fenceFooter.utf8ByteSize = 25 := by decide +kernel
  rw [fenced, fenceHeader_eq, String.utf8ByteSize_append, String.utf8ByteSize_append,
    String.utf8ByteSize_append, String.utf8ByteSize_append, hopening, hnote, hfooter,
    fenceOverhead, decimalSize]
  omega

variable (record : AssembledRecord)

theorem payload_size :
    record.payload.utf8ByteSize = record.content.byteLen + record.content.growth := by
  unfold AssembledRecord.payload AssembledContent.byteLen AssembledContent.growth
  cases record.content with
  | inline bytes =>
    have hgrows := length_le_lossyText bytes
    dsimp only
    omega
  | reference target =>
    have hsee : "see ".utf8ByteSize = 4 := by decide +kernel
    show ("see " ++ target.text).utf8ByteSize = _
    rw [String.utf8ByteSize_append, hsee, Nat.add_comm]

theorem spanHeader_size :
    record.spanHeader.utf8ByteSize = record.provider.utf8ByteSize + record.id.utf8ByteSize +
      if record.isUntrustedSurface then 13 else 11 := by
  have hsizes : "[".utf8ByteSize = 1 ∧ "untrusted".utf8ByteSize = 9 ∧ "trusted".utf8ByteSize = 7 ∧
      ":".utf8ByteSize = 1 ∧ "]".utf8ByteSize = 1 := by decide +kernel
  obtain ⟨hopen, huntrusted, htrusted, hcolon, hclose⟩ := hsizes
  have hspan : record.spanHeader =
      "[" ++ (if record.isUntrustedSurface then "untrusted" else "trusted") ++ ":" ++
        record.provider ++ ":" ++ record.id ++ "]" := rfl
  rw [hspan]
  simp only [String.utf8ByteSize_append, hopen, hcolon, hclose]
  split
  · rw [huntrusted]
    omega
  · rw [htrusted]
    omega

theorem assembledRecordMessage_size :
    (assembledRecordMessage record).byteLen = record.footprintBytes + record.renderOverhead := by
  have hblank : " ".utf8ByteSize = 1 := by decide +kernel
  have hline : "\n".utf8ByteSize = 1 := by decide +kernel
  have hspan := spanHeader_size record
  have hpayload := payload_size record
  rw [Message.byteLen, assembledRecordMessage, AssembledRecord.footprintBytes,
    AssembledRecord.renderOverhead]
  cases hflag : record.isUntrustedSurface with
  | true =>
    simp only [hflag, if_true] at hspan ⊢
    simp only [String.utf8ByteSize_append, fenced_size, hblank, hline]
    omega
  | false =>
    simp only [hflag, Bool.false_eq_true, if_false] at hspan ⊢
    simp only [String.utf8ByteSize_append, hblank, hline]
    omega

/-! ## The first request -/

def firstRequest {E : Type} (entries : List (Entry E)) : Option TurnRequest :=
  entries.findSome? fun e =>
    match e.event with
    | .complete request _ => some request
    | _ => none

variable {E : Type}

/-- The first thing that happened since `start` is this provider request. -/
def FirstAsked (start : World E) (request : TurnRequest) (w : World E) : Prop :=
  ∃ e more answer, w.trace = start.trace ++ e :: more ∧ e.event = .complete request answer

variable {start w : World E} {request : TurnRequest}

theorem FirstAsked.grow {w' : World E}
    (h : FirstAsked start request w) {more : List (Entry E)} (htrace : w'.trace = w.trace ++ more) :
    FirstAsked start request w' := by
  obtain ⟨e, later, answer, hsplit, hevent⟩ := h
  exact ⟨e, later ++ more, answer, by simp [htrace, hsplit], hevent⟩

theorem FirstAsked.same {w' : World E}
    (h : FirstAsked start request w) (htrace : w'.trace = w.trace) :
    FirstAsked start request w' := h.grow (htrace.trans (List.append_nil _).symm)

theorem FirstAsked.firstRequest
    (h : FirstAsked start request w) : firstRequest (w.since start) = some request := by
  obtain ⟨e, more, answer, hsplit, hevent⟩ := h
  simp [World.since, hsplit, Runtime.firstRequest, hevent]

variable {args : TurnArgs E} {messages : List Message}

namespace Turn

theorem inert_firstAsked (start : World E) (request : TurnRequest) :
    Inert (FirstAsked start request) where
  quiet h htrace _ _ _ := h.grow htrace
  attributed h _ := h.grow rfl

theorem dispatchCall_firstAsked {call : ToolCall} (h : FirstAsked start request w) :
    wp (dispatchCall args messages call) (fun _ => FirstAsked start request)
      (fun _ => FirstAsked start request) w :=
  (inert_firstAsked start request).dispatchCall h fun hlog _ => h.grow (absorb_trace hlog)

theorem askProvider_first {contextRefs : List String} (htrace : w.trace = start.trace) :
    wp (askProvider args messages contextRefs)
      (fun _ => FirstAsked start (turnRequest args w.agent messages contextRefs))
      (fun _ => FirstAsked start (turnRequest args w.agent messages contextRefs)) w := by
  have hasked : ∀ {answer s}, w.share.ask w.agent.provider
      (turnRequest args w.agent messages contextRefs)
      (.complete (turnRequest args w.agent messages contextRefs)) = (answer, s) →
      FirstAsked start (turnRequest args w.agent messages contextRefs) (w.absorb s) := by
    intro answer s hask
    have hgrown := absorb_trace (Shared.ask_log hask)
    rw [htrace] at hgrown
    exact ⟨_, [], answer, hgrown, rfl⟩
  refine wp_askProvider rfl ?_ ?_ ?_ ?_
  · intro provider reason s hask
    simp only [providerUnknown, wp_bind, wp_executionsGate, wp_issueExecution, wp_pushRecord,
      wp_unknown]
    split
    · exact (hasked hask).same rfl
    · exact (hasked hask).grow rfl
  · exact fun e s hask _ => (hasked hask).same rfl
  · exact fun turn s limit hask _ _ => (hasked hask).same rfl
  · exact fun turn s hask _ => (hasked hask).same rfl

theorem rounds_first {contextRefs : List String} (htrace : w.trace = start.trace) (left : Nat) :
    wp (rounds args contextRefs left messages) (fun _ _ => False)
      (fun _ w' => w'.trace = start.trace ∨
        FirstAsked start (turnRequest args w.agent messages contextRefs) w') w := by
  let request := turnRequest args w.agent messages contextRefs
  have hinert := inert_firstAsked start request
  cases left with
  | zero =>
    simp only [rounds, wp_bind, wp_cancelGate, wp_read, wp_fail]
    split
    · exact .inl htrace
    · exact .inl htrace
  | succ left =>
    simp only [rounds, wp_bind, wp_cancelGate]
    split
    · exact .inl htrace
    refine wp_mono (askProvider_first htrace) ?_ (fun _ _ h => .inr h)
    intro turn w₁ h₁
    refine wp_mono (hinert.deliver h₁) ?_ (fun _ _ h => .inr h)
    intro _ w₂ h₂
    refine wp_mono (hinert.admitBatch h₂) ?_ (fun _ _ h => .inr h)
    intro _ w₃ h₃
    have hbatch : wp (each (dispatchCall args) turn.toolCalls
        (messages ++ [⟨.assistant, turn.text⟩])) (fun _ => FirstAsked start request)
        (fun _ => FirstAsked start request) w₃ :=
      wp_each (I := fun _ _ => FirstAsked start request)
        (fun _ _ _ _ h => dispatchCall_firstAsked h) _ _ w₃ h₃
    refine wp_mono hbatch ?_ (fun _ _ h => .inr h)
    intro messages' w₄ h₄
    exact wp_mono (hinert.rounds (fun _ _ h => h)
      (fun call messages w h => dispatchCall_firstAsked h) left messages' h₄)
      (fun _ _ h => h) (fun _ _ h => .inr h)

end Turn

theorem runTurn_firstRequest {ctx : AssembledContext} {artifacts : ArtifactStore}
    (hassembled : assemble args.seedRecords w.agent.artifacts
      ⟨none, some w.agent.config.effectiveBudgetBytes, w.session.generation⟩ = (.ok ctx, artifacts))
    (hfirst : firstRequest (turnEntries args w) = some request) :
    request = Turn.turnRequest args (Turn.opened w.agent ctx artifacts)
      (Turn.seedMessages args ctx) ctx.contextRefs := by
  have hbody : wp (Turn.body args) (fun _ _ => False) (fun _ w' => w'.trace = w.trace ∨
      FirstAsked w (Turn.turnRequest args (Turn.opened w.agent ctx artifacts)
        (Turn.seedMessages args ctx) ctx.contextRefs) w') w := by
    refine Turn.wp_body ?_ ?_ ?_ ?_
    · exact fun _ => .inl rfl
    · exact fun _ _ => .inl rfl
    · exact fun error advisory artifacts done rest _ _ _ _ => .inl rfl
    · intro assembled artifacts' _ hrun _
      cases hassembled.symm.trans hrun
      exact wp_mono (Turn.rounds_first rfl _) (fun _ _ h => h) fun _ _ h => h
  rcases runTurn_of_wp hbody with hsame | hasked
  · have hnone : turnEntries args w = [] := by simp [turnEntries, hsame]
    rw [hnone] at hfirst
    cases hfirst
  · have hrequest : firstRequest (turnEntries args w) = some _ := hasked.firstRequest
    exact Option.some.inj (hfirst.symm.trans hrequest)

theorem seedMessages_size (args : TurnArgs E) (ctx : AssembledContext) :
    ((Turn.seedMessages args ctx).map Message.byteLen).sum =
      (ctx.records.map (·.footprintBytes)).sum + (ctx.records.map (·.renderOverhead)).sum +
        args.prompt.utf8ByteSize := by
  have hrecords : ∀ records : List AssembledRecord,
      ((records.map assembledRecordMessage).map Message.byteLen).sum =
        (records.map (·.footprintBytes)).sum + (records.map (·.renderOverhead)).sum := by
    intro records
    induction records with
    | nil => rfl
    | cons record rest ih =>
      simp only [List.map_cons, List.sum_cons, ih, assembledRecordMessage_size]
      omega
  rw [Turn.seedMessages, List.map_append, List.sum_append, hrecords]
  simp [Message.byteLen]

/-- A context whose footprints fit the budget together with the prompt is within
the budget of the provider exactly if what rendering adds fits as well. -/
theorem first_request_within_budget_iff (args : TurnArgs E) (w : World E)
    (ctx : AssembledContext) (artifacts : ArtifactStore) (request : TurnRequest)
    (hassembled : assemble args.seedRecords w.agent.artifacts
      ⟨none, some w.agent.config.effectiveBudgetBytes, w.session.generation⟩ = (.ok ctx, artifacts))
    (hfits : (ctx.records.map (·.footprintBytes)).sum + args.prompt.utf8ByteSize ≤
      w.agent.config.effectiveBudgetBytes)
    (hfirst : firstRequest (turnEntries args w) = some request) :
    request.totalMessageBytes ≤ request.budgetBytes ↔
      (ctx.records.map (·.renderOverhead)).sum ≤ w.agent.config.effectiveBudgetBytes -
        ((ctx.records.map (·.footprintBytes)).sum + args.prompt.utf8ByteSize) := by
  obtain rfl := runTurn_firstRequest hassembled hfirst
  have hbudget : (Turn.turnRequest args (Turn.opened w.agent ctx artifacts)
      (Turn.seedMessages args ctx) ctx.contextRefs).budgetBytes =
        w.agent.config.effectiveBudgetBytes := rfl
  have hsize := seedMessages_size args ctx
  rw [hbudget, TurnRequest.totalMessageBytes]
  show ((Turn.seedMessages args ctx).map Message.byteLen).sum ≤ _ ↔ _
  omega

/-! ## Runs -/

section Runs

def budgetedProvider : Hook Unit TurnRequest (Except ProviderError ProviderTurn) :=
  fun env _ request =>
    if request.totalMessageBytes > request.budgetBytes then
      ⟨.error (.budgetExceeded request.budgetBytes request.totalMessageBytes), env, [], 0⟩
    else ⟨.ok ⟨"", [], 0, ⟨0, 0, 0, 0⟩⟩, env, [], 0⟩

def budgetedWorld (budget : Nat) : World Unit :=
  .new budgetedProvider (.new .new) (.new ⟨1⟩ ⟨1⟩ ⟨1⟩)
    { contextBudgetBytes := budget } () 0

def seededArgs : TurnArgs Unit :=
  { plainArgs with prompt := "p", seedRecords := [plainRecord "r" .normal "1234"] }

theorem first_request_within_budget_iff_hundred :
    ∃ request, firstRequest (turnEntries seededArgs (budgetedWorld 100)) = some request ∧
      request.totalMessageBytes ≤ request.budgetBytes := by
  have hrun : (firstRequest (turnEntries seededArgs (budgetedWorld 100))).isSome = true := by
    decide +kernel
  have hassembled : ∃ ctx artifacts, assemble seededArgs.seedRecords
      (budgetedWorld 100).agent.artifacts ⟨none, some 100, 1⟩ = (.ok ctx, artifacts) ∧
      (ctx.records.map (·.footprintBytes)).sum = 4 ∧
      (ctx.records.map (·.renderOverhead)).sum = 23 :=
    ⟨_, _, rfl, by decide +kernel, by decide +kernel⟩
  obtain ⟨request, hfirst⟩ := Option.isSome_iff_exists.mp hrun
  obtain ⟨ctx, artifacts, hassembled, hfootprints, hoverheads⟩ := hassembled
  have hprompt : seededArgs.prompt.utf8ByteSize = 1 := by decide +kernel
  have hbudget : (budgetedWorld 100).agent.config.effectiveBudgetBytes = 100 := rfl
  refine ⟨request, hfirst, (first_request_within_budget_iff seededArgs (budgetedWorld 100) ctx
    artifacts request hassembled ?_ hfirst).mpr ?_⟩
  · rw [hfootprints, hprompt, hbudget]
    decide
  · rw [hfootprints, hoverheads, hprompt, hbudget]
    decide

/-- With five bytes the footprint and the prompt fit, the request does not, and
the provider refuses it. -/
theorem assembled_context_over_budget : ∃ ctx artifacts request,
      assemble seededArgs.seedRecords (budgetedWorld 5).agent.artifacts ⟨none, some 5, 1⟩ =
        (.ok ctx, artifacts) ∧
      (ctx.records.map (·.footprintBytes)).sum + seededArgs.prompt.utf8ByteSize ≤ 5 ∧
      firstRequest (turnEntries seededArgs (budgetedWorld 5)) = some request ∧
      request.budgetBytes < request.totalMessageBytes ∧
      (runTurn seededArgs (budgetedWorld 5)).1 = .failed (.provider (.budgetExceeded 5 28)) := by
  refine ⟨_, _, _, rfl, by decide +kernel, rfl, by decide +kernel, by decide +kernel⟩

end Runs

end BittyAi.Runtime
