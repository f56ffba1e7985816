/-
BittyAi.Endpoint.ToolDispatchTheorems — when the endpoint contacts the tool executor, and
what it then answers.

Two properties are read off `Admitted`. That a refusal means that nothing ran fails for an
executor whose answer the endpoint cannot encode; that a contact means that every check passed
at the time of admission fails for consent, which is asked for at the time the params carry.
-/
import BittyAi.Endpoint.Dispatch
import BittyAi.Lib.Utf8

namespace BittyAi.Endpoint

open Lib
open BittyAi.Runtime (ConsentQuery ConsentDecision ToolError ToolRegistry ToolSpec ToolSuccess
  argsDigest maxSummaryBytes maxToolArgumentsBytes maxToolResultBytes validateToolName)
open BittyAi.Runtime.ToolBus (narrowingOmits)

variable {S L G E : Type} {api : IpcApi S L G} {input : DispatchInput S L} {view : ToolView E}
variable {decoded : ToolDispatchParams} {scope : Scope} {spec : ToolSpec}
variable {answer : Except ToolError ToolSuccess} (complete : DispatchOutcome) (s : ExecutorState E)

/-! ## What has been checked -/

/-- The checks of the tool arm other than consent, each at the time of admission. -/
structure Checked (api : IpcApi S L G) (input : DispatchInput S L) (view : ToolView E)
    (decoded : ToolDispatchParams) (spec : ToolSpec) : Prop where
  method : input.method = toolMethod
  authorized : api.authorizeMethod input.method input.granted = .ok .aiInvoke
  granted : ∃ grant, api.inspect input.ledger input.clientId .aiInvoke = some grant ∧
    api.isExpired grant input.nowMs = false
  timeout : api.validateDomainTimeout input.timeoutMs = .ok ()
  inTime : input.nowMs < api.domainDeadlineMs input.createdAtMs input.timeoutMs
  params : api.validateAiParams input.method input.params = .ok ()
  decodes : decodeShaped api toolMethod (decodeToolDispatch api) input.params = .ok decoded
  bounded : view.arguments.length ≤ maxToolArgumentsBytes
  digest : (argsDigest view.arguments).toNat = decoded.argsDigest
  shaped : validateToolName decoded.tool = .ok ()
  registered : view.registry.lookup decoded.tool = some spec
  listed : ∀ allowed, decoded.allowed = some allowed → decoded.tool ∈ allowed

def Consents (view : ToolView E) (decoded : ToolDispatchParams) (spec : ToolSpec)
    (nowMs : Nat) : Prop :=
  view.consent (consentQuery view decoded spec.requiredScope nowMs) = .allow

/-- What the code asks before it contacts the executor: consent is asked for at the time the params
carry. -/
structure Admitted (api : IpcApi S L G) (input : DispatchInput S L) (view : ToolView E)
    (decoded : ToolDispatchParams) (spec : ToolSpec) : Prop extends
    Checked api input view decoded spec where
  consented : Consents view decoded spec decoded.nowMs

theorem runGates_eq_ok : runGates api input = .ok scope ↔
    api.authorizeMethod input.method input.granted = .ok scope ∧
      (∃ grant, api.inspect input.ledger input.clientId scope = some grant ∧
        api.isExpired grant input.nowMs = false) ∧
      api.validateDomainTimeout input.timeoutMs = .ok () ∧
      input.nowMs < api.domainDeadlineMs input.createdAtMs input.timeoutMs ∧
      api.validateAiParams input.method input.params = .ok () := by
  simp only [runGates, bind_eq_ok, refuseIf_eq_ok, exists_const, pure_eq_ok, Bool.not_eq_false,
    Option.any_eq_true, Bool.not_eq_true', ge_iff_le, Nat.not_le]
  constructor
  · rintro ⟨_, hscope, hlive, ⟨⟩, htimeout, hdeadline, ⟨⟩, hparams, rfl⟩
    exact ⟨hscope, hlive, htimeout, hdeadline, hparams⟩
  · rintro ⟨hscope, hlive, htimeout, hdeadline, hparams⟩
    exact ⟨scope, hscope, hlive, (), htimeout, hdeadline, (), hparams, rfl⟩

theorem narrowingOmits_eq_false {allowed : Option (List String)} {tool : String} :
    narrowingOmits allowed tool = false ↔ ∀ list, allowed = some list → tool ∈ list := by
  cases allowed <;> simp [narrowingOmits]

theorem lookupScope_eq_ok {tool required : String} : lookupScope view tool = .ok required ↔
      ∃ spec, view.registry.lookup tool = some spec ∧ spec.requiredScope = required := by
  unfold lookupScope
  cases view.registry.lookup tool <;> simp

theorem checkConsent_eq_ok {query : ConsentQuery} {u : Unit} :
    checkConsent view query = .ok u ↔ view.consent query = .allow := by
  unfold checkConsent
  cases view.consent query <;> simp

theorem toolAdmission_eq_ok : toolAdmission api scope input view = .ok decoded ↔
      decodeShaped api toolMethod (decodeToolDispatch api) input.params = .ok decoded ∧
      view.arguments.length ≤ maxToolArgumentsBytes ∧
      (argsDigest view.arguments).toNat = decoded.argsDigest ∧
      scope = .aiInvoke ∧ validateToolName decoded.tool = .ok () ∧
      ∃ spec, view.registry.lookup decoded.tool = some spec ∧
        Consents view decoded spec decoded.nowMs ∧
        ∀ allowed, decoded.allowed = some allowed → decoded.tool ∈ allowed := by
  simp only [toolAdmission, bind_eq_ok, refuseIf_eq_ok, mapError_eq_ok, exists_const, pure_eq_ok,
    lookupScope_eq_ok, checkConsent_eq_ok, Nat.not_lt, gt_iff_lt, ne_eq, not_not, Bool.not_eq_true,
    narrowingOmits_eq_false]
  constructor
  · rintro ⟨d, hdecodes, hbound, hdigest, hscope, ⟨⟩, hshape, required, ⟨spec, hspec, rfl⟩,
      hconsent, hlisted, rfl⟩
    exact ⟨hdecodes, hbound, hdigest, hscope, hshape, spec, hspec, hconsent, hlisted⟩
  · rintro ⟨hdecodes, hbound, hdigest, hscope, hshape, spec, hspec, hconsent, hlisted⟩
    exact ⟨decoded, hdecodes, hbound, hdigest, hscope, (), hshape, spec.requiredScope,
      ⟨spec, hspec, rfl⟩, hconsent, hlisted, rfl⟩

theorem Checked.gates (h : Checked api input view decoded spec) :
    runGates api input = .ok .aiInvoke :=
  runGates_eq_ok.mpr ⟨h.authorized, h.granted, h.timeout, h.inTime, h.params⟩

theorem Admitted.admission (h : Admitted api input view decoded spec) :
    toolAdmission api .aiInvoke input view = .ok decoded :=
  toolAdmission_eq_ok.mpr ⟨h.decodes, h.bounded, h.digest, rfl, h.shaped, spec, h.registered,
    h.consented, h.listed⟩

/-! ## What the dispatch does -/

def contactOf (view : ToolView E) (decoded : ToolDispatchParams) (s : ExecutorState E) :
    Contact where
  call := ⟨decoded.tool, view.arguments⟩
  nowMs := decoded.nowMs
  answer := (view.executor s.env ⟨decoded.tool, view.arguments⟩ decoded.nowMs).1

def outcomeOf (input : DispatchInput S L) : Except IpcError String → DispatchOutcome
  | .ok result => .ready input.method .aiInvoke result
  | .error error => .refused error

theorem dispatch_of_admitted (h : Admitted api input view decoded spec) :
    (dispatchWithTools api input complete view s).1 =
        outcomeOf input (toolAnswer view decoded (contactOf view decoded s).answer) ∧
      (dispatchWithTools api input complete view s).2.contacts =
        s.contacts ++ [contactOf view decoded s] := by
  simp only [dispatchWithTools, h.method, ne_eq, not_true_eq_false, if_false, h.gates,
    handleToolDispatch, h.admission, ToolView.execute]
  unfold contactOf
  cases toolAnswer view decoded
    (view.executor s.env ⟨decoded.tool, view.arguments⟩ decoded.nowMs).1 <;>
    simp [outcomeOf, h.method]

theorem dispatch_of_not_admitted (h : ∀ decoded spec, ¬Admitted api input view decoded spec) :
    (dispatchWithTools api input complete view s).2 = s := by
  unfold dispatchWithTools
  split
  · rfl
  · rename_i hmethod
    cases hgates : runGates api input with
    | error e => rfl
    | ok scope =>
      cases hadmission : toolAdmission api scope input view with
      | error e => simp only [handleToolDispatch, hadmission]
      | ok decoded =>
        -- the checks of the handler are those of an admitted call
        obtain ⟨hdecodes, hbound, hdigest, rfl, hshape, spec, hspec, hconsent, hlisted⟩ :=
          toolAdmission_eq_ok.mp hadmission
        obtain ⟨hscope, hlive, htimeout, hdeadline, hparams⟩ := runGates_eq_ok.mp hgates
        exact absurd ⟨⟨not_not.mp hmethod, hscope, hlive, htimeout, hdeadline, hparams, hdecodes,
          hbound, hdigest, hshape, hspec, hlisted⟩, hconsent⟩ (h decoded spec)

/-! ## Reading well-formed text

The text is given by its characters: the reader checks at every character of a string that the
bytes left are text to their end, which holds once for all of a list of characters. -/

section Reading

open List

variable {cs : List Char}


def Plain (c : Char) : Prop := 0x20 ≤ c.toNat ∧ c ≠ '"' ∧ c ≠ '\\'

instance (c : Char) : Decidable (Plain c) := inferInstanceAs (Decidable (_ ∧ _ ∧ _))

theorem plain_of_all (h : (cs.all fun c => decide (Plain c)) = true) : ∀ c ∈ cs, Plain c :=
  fun c hc => of_decide_eq_true (all_eq_true.mp h c hc)

theorem Plain.lead {c : Char} (h : Plain c) :
    ∃ b piece, String.utf8EncodeChar c = b :: piece ∧ b ≠ 0x22 ∧ b ≠ 0x5C ∧ ¬b < 0x20 := by
  obtain ⟨hcontrol, hquote, hslash⟩ := h
  have hq : c.toNat ≠ 0x22 := fun heq => hquote (Char.toNat_inj.mp heq)
  have hs : c.toNat ≠ 0x5C := fun heq => hslash (Char.toNat_inj.mp heq)
  obtain ⟨b, piece, hpiece, -⟩ := utf8EncodeChar_lead c
  have hb : b.toNat = c.toNat ∨ 127 < b.toNat := by
    rcases utf8EncodeChar_cases c with ⟨hascii, hone⟩ | ⟨-, hwide⟩
    · obtain ⟨rfl, -⟩ := cons.inj (hpiece.symm.trans hone)
      exact .inl (by simp; omega)
    · exact .inr (hwide b (hpiece ▸ mem_cons_self))
  refine ⟨b, piece, hpiece, ?_⟩
  simp only [ne_eq, ← UInt8.toNat_inj, UInt8.lt_iff_toNat_lt, UInt8.reduceToNat]
  omega

theorem stringLoop_plain : ∀ (cs tail : List Char) (steps : Nat) (out : List Char),
    (∀ c ∈ cs, Plain c) → cs.length < steps →
      stringLoop steps (encode (cs ++ '"' :: tail)) out =
        .ok (String.ofList (out.reverse ++ cs), encode tail)
  | _, _, 0, _, _, hsteps => absurd hsteps (Nat.not_lt_zero _)
  | [], tail, steps + 1, out, _, _ => by
    have hquote : encode ('"' :: tail) = 0x22 :: encode tail := rfl
    simp only [nil_append, hquote, append_nil, stringLoop, if_true]
  | c :: cs, tail, steps + 1, out, hplain, hsteps => by
    obtain ⟨b, piece, hpiece, hquote, hslash, hcontrol⟩ := (hplain c mem_cons_self).lead
    have hbytes : encode (c :: (cs ++ '"' :: tail)) =
        b :: (piece ++ encode (cs ++ '"' :: tail)) := by
      rw [encode_cons, hpiece, cons_append]
    have hread : (fromUtf8? (b :: (piece ++ encode (cs ++ '"' :: tail)))).bind
        (·.toList.head?) = some c := by
      have htext : fromUtf8? (encode (c :: (cs ++ '"' :: tail))) =
          some (String.ofList (c :: (cs ++ '"' :: tail))) :=
        fromUtf8?_eq_some.mpr (by rw [utf8Bytes_eq_encode, String.toList_ofList])
      rw [← hbytes, htext]
      simp
    have hdrop : (b :: (piece ++ encode (cs ++ '"' :: tail))).drop c.utf8Size =
        encode (cs ++ '"' :: tail) := by
      rw [← String.length_utf8EncodeChar, hpiece, ← cons_append, drop_left]
    simp only [cons_append, hbytes, stringLoop, hquote, hslash, hcontrol, if_false, hread, hdrop]
    rw [stringLoop_plain cs tail steps (c :: out)
      (fun d hd => hplain d (mem_cons_of_mem c hd)) (Nat.lt_of_succ_lt_succ hsteps)]
    simp

theorem string_plain (h : ∀ c ∈ cs, Plain c) (tail : List Char) :
    string (encode (cs ++ '"' :: tail)) = .ok (String.ofList cs, encode tail) := by
  have hlen : ∀ ds : List Char, ds.length ≤ (encode ds).length := by
    intro ds
    induction ds with
    | nil => exact Nat.le_refl _
    | cons d ds ih =>
      have := d.utf8Size_pos
      rw [encode_cons, length_append, String.length_utf8EncodeChar, length_cons]
      omega
  have hsteps := hlen (cs ++ '"' :: tail)
  rw [length_append] at hsteps
  exact stringLoop_plain cs tail _ [] h (by omega)

variable {maxDepth depth : Nat}

theorem value_string (hdepth : depth ≤ maxDepth) (steps : Nat)
    (h : ∀ c ∈ cs, Plain c) (tail : List Char) :
    value maxDepth (steps + 1) depth (encode ('"' :: (cs ++ '"' :: tail))) =
      .ok (.str (String.ofList cs), encode tail) := by
  have hquote : ws (encode ('"' :: (cs ++ '"' :: tail))) =
      0x22 :: encode (cs ++ '"' :: tail) := rfl
  rw [value, if_neg (Nat.not_lt.mpr hdepth), hquote]
  simp [string_plain h, -encode_append, -encode_cons]

theorem number_token {token rest : List UInt8}
    (hinteger : integerPart (unsigned (token ++ rest)) = .ok rest)
    (hfraction : fractionPart rest = .ok rest) (hexponent : exponentPart rest = .ok rest) :
    number (token ++ rest) = .ok (String.ofList (token.map fun d => Char.ofNat d.toNat), rest) := by
  have htoken : (token ++ rest).take ((token ++ rest).length - rest.length) = token := by
    rw [length_append, Nat.add_sub_cancel, take_left]
  simp only [number, bind_eq_ok, pure_eq_ok]
  exact ⟨_, hinteger, _, hfraction, _, hexponent, by rw [htoken]⟩

theorem value_number (hdepth : depth ≤ maxDepth) (steps : Nat)
    {b : UInt8} {bytes rest : List UInt8} {raw : String} (hdigit : isAsciiDigit b = true)
    (h : number (b :: bytes) = .ok (raw, rest)) :
    value maxDepth (steps + 1) depth (b :: bytes) = .ok (.num raw, rest) := by
  have hne : ∀ d : UInt8, isAsciiDigit d = false → b ≠ d := by
    rintro d hd rfl
    exact absurd hdigit (by simp [hd])
  have hws : ws (b :: bytes) = b :: bytes := by
    simp [ws, isWs, hne 0x20 rfl, hne 0x09 rfl, hne 0x0A rfl, hne 0x0D rfl]
  rw [value, if_neg (Nat.not_lt.mpr hdepth), hws]
  simp only [hne 0x7B rfl, hne 0x5B rfl, hne 0x22 rfl, hne 0x74 rfl, hne 0x66 rfl, hne 0x6E rfl,
    hdigit, if_false, or_true, if_true, h]
  rfl

theorem value_object (hdepth : depth ≤ maxDepth) (steps : Nat)
    (members : List Char) :
    value maxDepth (steps + 1) depth (encode ('{' :: '"' :: members)) =
      fieldsLoop maxDepth steps depth (encode ('"' :: members)) [] := by
  have hopen : ws (encode ('{' :: '"' :: members)) = 0x7B :: encode ('"' :: members) := rfl
  have hquote : ws (encode ('"' :: members)) = 0x22 :: encode members := rfl
  rw [value, if_neg (Nat.not_lt.mpr hdepth), hopen]
  simp only [if_true, hquote]
  rfl

section Members

variable {maxDepth steps depth : Nat} {key rest tail : List Char} {item : JVal}
variable {fields : List (String × JVal)}

/-- Behind a member stands a comma, and the loop goes on, or the closing brace. -/
theorem fieldsLoop_member (hkey : ∀ c ∈ key, Plain c) (last : Bool)
    (h : value maxDepth steps (depth + 1) (encode rest) =
      .ok (item, encode ((if last then '}' else ',') :: tail))) :
    fieldsLoop maxDepth (steps + 1) depth (encode ('"' :: (key ++ '"' :: ':' :: rest))) fields =
      if last then .ok (.obj (fields ++ [(String.ofList key, item)]), encode tail)
      else fieldsLoop maxDepth steps depth (encode tail)
        (fields ++ [(String.ofList key, item)]) := by
  have hquote : ws (encode ('"' :: (key ++ '"' :: ':' :: rest))) =
      0x22 :: encode (key ++ '"' :: ':' :: rest) := rfl
  have hcolon : expectByte 0x3A (ws (encode (':' :: rest))) = .ok (encode rest) := rfl
  rw [fieldsLoop, hquote]
  simp only [if_true, string_plain hkey, hcolon, h]
  cases last <;> rfl

end Members

end Reading

/-! ## A host that lets everything through

The failing runs below share one host: every validator accepts, the method is granted, and the
registry holds one tool. -/

def sampleApi : IpcApi Unit Unit Unit where
  authorizeMethod _ _ := .ok .aiInvoke
  scopeText _ := "ai.invoke"
  inspect _ _ _ := some ()
  isExpired _ _ := false
  validateDomainTimeout _ := .ok ()
  domainDeadlineMs createdAtMs timeoutMs := createdAtMs + timeoutMs
  validateAiParams _ _ := .ok ()
  maxJsonDepth := 8
  maxSchemaToolNameBytes := 64
  maxSchemaAllowed := 32

/-- A call of `probe` without arguments, stamped with time 0. -/
def sampleParams : List UInt8 := encode
  ("\x7b\"tool\":\"probe\",\"args_digest\":14695981039346656037,\"caller\":" ++
    "\x7b\"agent_instance_id\":7,\"session_id\":1,\"level\":\"own\"\x7d,\"now_ms\":0\x7d").toList

def sampleInput : DispatchInput Unit Unit where
  method := toolMethod
  requestId := 1
  granted := ()
  ledger := ()
  clientId := "agent-7"
  nowMs := 1000
  createdAtMs := 900
  timeoutMs := 500
  params := sampleParams

def sampleSpec : ToolSpec where
  name := "probe"
  description := "probe"
  schemaJson := []
  requiredScope := "surface.read"
  readOnly := true
  placement := some .mcp
  native := none

def sampleRegistry : ToolRegistry := (ToolRegistry.new.register sampleSpec).2

def sampleLedger (expiresAtMs : Nat) (query : ConsentQuery) : ConsentDecision :=
  if ConsentGrant.covers ⟨"bitty-1", "probe", "surface.read", expiresAtMs⟩ query then .allow
  else .deny "no live grant"

def sampleView (answer : Except ToolError ToolSuccess) (expiresAtMs : Nat) : ToolView Unit where
  executor _ _ _ := (answer, ())
  arguments := []
  registry := sampleRegistry
  consent := sampleLedger expiresAtMs
  protocolId := "bitty-1"
  executionId := 3

def sampleStart : ExecutorState Unit := ⟨(), []⟩

def sampleDecoded : ToolDispatchParams := ⟨"probe", 14695981039346656037, 7, none, 0⟩

def sampleCaller : JVal :=
  .obj [("agent_instance_id", .num "7"), ("session_id", .num "1"), ("level", .str "own")]

def sampleTop : JVal :=
  .obj [("tool", .str "probe"), ("args_digest", .num "14695981039346656037"),
    ("caller", sampleCaller), ("now_ms", .num "0")]

def sampleCallerText (tail : List Char) : List Char :=
  '{' :: '"' :: ("agent_instance_id".toList ++ '"' :: ':' :: (['7'] ++ ',' ::
    '"' :: ("session_id".toList ++ '"' :: ':' :: (['1'] ++ ',' ::
    '"' :: ("level".toList ++ '"' :: ':' :: '"' :: ("own".toList ++ '"' :: '}' :: tail))))))

theorem sample_caller_reads (steps : Nat) (tail : List Char) :
    value 8 (steps + 5) 1 (encode (sampleCallerText tail)) =
      .ok (sampleCaller, encode tail) := by
  have hagent (tail) : value 8 (steps + 3) 2 (encode (['7'] ++ ',' :: tail)) =
      .ok (.num "7", encode (',' :: tail)) :=
    value_number (by decide) _ rfl (@number_token [0x37] _ rfl rfl rfl)
  have hsession (tail) : value 8 (steps + 2) 2 (encode (['1'] ++ ',' :: tail)) =
      .ok (.num "1", encode (',' :: tail)) :=
    value_number (by decide) _ rfl (@number_token [0x31] _ rfl rfl rfl)
  have hlevel := value_string (show 2 ≤ 8 by decide) steps
    (show ∀ c ∈ "own".toList, Plain c from plain_of_all (by decide)) ('}' :: tail)
  rw [sampleCallerText, value_object (by decide),
    fieldsLoop_member (plain_of_all (by decide)) false (hagent _),
    fieldsLoop_member (plain_of_all (by decide)) false (hsession _),
    fieldsLoop_member (plain_of_all (by decide)) true hlevel]
  simp only [String.ofList_toList]
  rfl

theorem sample_parses : parseParamsObject 8 sampleParams = .ok sampleTop := by
  have htext : sampleParams = encode ('{' :: '"' :: ("tool".toList ++ '"' :: ':' ::
      '"' :: ("probe".toList ++ '"' :: ',' :: '"' :: ("args_digest".toList ++ '"' :: ':' ::
      ("14695981039346656037".toList ++ ',' :: '"' :: ("caller".toList ++ '"' :: ':' ::
      sampleCallerText (',' :: '"' :: ("now_ms".toList ++ '"' :: ':' ::
      ("0".toList ++ ['}']))))))))) := congrArg encode (by decide +kernel)
  obtain ⟨steps, hsteps⟩ : ∃ steps, 2 * sampleParams.length + 2 = steps + 9 :=
    ⟨2 * sampleParams.length + 2 - 9, by decide +kernel⟩
  have htool := value_string (show 1 ≤ 8 by decide) (steps + 6)
    (show ∀ c ∈ "probe".toList, Plain c from plain_of_all (by decide))
  have hdigest (tail) : value 8 (steps + 6) 1
      (encode ("14695981039346656037".toList ++ ',' :: tail)) =
        .ok (.num "14695981039346656037", encode (',' :: tail)) :=
    value_number (by decide) _ rfl
      (@number_token (encode "14695981039346656037".toList) _ rfl rfl rfl)
  have hnow : value 8 (steps + 4) 1 (encode ("0".toList ++ ['}'])) =
      .ok (.num "0", encode ['}']) :=
    value_number (by decide) _ rfl (@number_token [0x30] _ rfl rfl rfl)
  have hvalue : value 8 (2 * sampleParams.length + 2) 0 sampleParams = .ok (sampleTop, []) := by
    rw [hsteps, htext, value_object (by decide),
      fieldsLoop_member (plain_of_all (by decide)) false (htool (',' :: _)),
      fieldsLoop_member (plain_of_all (by decide)) false (hdigest _),
      fieldsLoop_member (plain_of_all (by decide)) false (sample_caller_reads steps (',' :: _)),
      fieldsLoop_member (plain_of_all (by decide)) true hnow]
    simp only [String.ofList_toList]
    rfl
  rw [parseParamsObject, hvalue]
  rfl

theorem sample_checked (answer : Except ToolError ToolSuccess) (expiresAtMs : Nat) :
    Checked sampleApi sampleInput (sampleView answer expiresAtMs) sampleDecoded sampleSpec where
  method := rfl
  authorized := rfl
  granted := ⟨(), rfl, rfl⟩
  timeout := rfl
  inTime := by decide
  params := rfl
  decodes := by
    have hdepth : sampleApi.maxJsonDepth = 8 := rfl
    have hparams : sampleInput.params = sampleParams := by simp only [sampleInput]
    simp only [decodeShaped, bind_eq_ok, refuseIf_eq_ok, exists_const, hdepth, hparams,
      sample_parses, Except.ok.injEq, exists_eq_left']
    exact ⟨by decide +kernel, none, by decide +kernel, by decide +kernel⟩
  bounded := Nat.zero_le _
  digest := show (argsDigest []).toNat = sampleDecoded.argsDigest by decide
  shaped := by decide +kernel
  registered := show sampleRegistry.lookup "probe" = some sampleSpec by decide +kernel
  listed := nofun

/-! ## Refusals -/

def outcomeStatuses : List String := ["success", "failed", "denied", "unknown"]

def Reports (view : ToolView E) (contact : Contact) (status result : String) : Prop :=
  ∃ digest disposition reason,
    result = encodeToolResult contact.call.name digest view.executionId contact.nowMs status
      disposition reason

/-- A refused call has not reached the executor, and a call that has is answered with the status of
what the executor reported. -/
def RefusalsExecutedNothing (api : IpcApi S L G) (input : DispatchInput S L)
    (complete : DispatchOutcome) (view : ToolView E) (s : ExecutorState E) : Prop :=
  let after := dispatchWithTools api input complete view s
  (∀ error, after.1 = .refused error → after.2.contacts = s.contacts) ∧
    ∀ contact, after.2.contacts = s.contacts ++ [contact] →
      ∃ scope result status, after.1 = .ready input.method scope result ∧
        status ∈ outcomeStatuses ∧ Reports view contact status result ∧
        (contact.answer.isOk = true → status = "success")

/-- An answer of the executor that the endpoint has a result for: one of the four errors of an
executed call, or a success that is text or over a bound. -/
def InContract : Except ToolError ToolSuccess → Prop
  | .ok success =>
    success.summary.utf8ByteSize ≤ maxSummaryBytes → success.data.length ≤ maxToolResultBytes →
      ∃ text, success.data = utf8Bytes text
  | .error (.denied _ _) | .error (.failed _ _) | .error (.protocolRejected _ _)
  | .error (.effectUnknown _ _) => True
  | .error _ => False

theorem toolAnswer_of_inContract (view : ToolView E) (decoded : ToolDispatchParams)
    (h : InContract answer) :
    ∃ status disposition reason, toolAnswer view decoded answer = .ok (encodeToolResult decoded.tool
      decoded.argsDigest view.executionId decoded.nowMs status disposition reason) ∧
      status ∈ outcomeStatuses ∧ (answer.isOk = true → status = "success") := by
  cases answer with
  | ok success =>
    unfold toolAnswer
    by_cases hsummary : success.summary.utf8ByteSize > maxSummaryBytes
    · exact ⟨"success", "rejected", _, if_pos hsummary, by decide, fun _ => rfl⟩
    by_cases hdata : success.data.length > maxToolResultBytes
    · exact ⟨"success", "rejected", _, (if_neg hsummary).trans (if_pos hdata), by decide,
        fun _ => rfl⟩
    obtain ⟨text, htext⟩ := h (Nat.le_of_not_lt hsummary) (Nat.le_of_not_lt hdata)
    refine ⟨"success", "accepted", "", ?_, by decide, fun _ => rfl⟩
    have hread : fromUtf8? success.data = some text := htext ▸ fromUTF8?_utf8Bytes text
    simp only [hsummary, hdata, if_false, hread]
  | error error =>
    cases error with
    | denied _ _ => exact ⟨"denied", _, _, rfl, by decide, nofun⟩
    | failed | protocolRejected => exact ⟨"failed", _, _, rfl, by decide, nofun⟩
    | effectUnknown _ _ => exact ⟨"unknown", _, _, rfl, by decide, nofun⟩
    | _ => exact h.elim

theorem toolAnswer_of_not_inContract (view : ToolView E) (decoded : ToolDispatchParams)
    (h : ¬InContract answer) : ∃ error, toolAnswer view decoded answer = .error error := by
  cases answer with
  | ok success =>
    simp only [InContract, not_forall] at h
    obtain ⟨hsummary, hdata, hbinary⟩ := h
    have hread : fromUtf8? success.data = none := by
      cases hread : fromUtf8? success.data with
      | none => rfl
      | some text => exact absurd ⟨text, eq_utf8Bytes_of_fromUtf8? hread⟩ hbinary
    refine ⟨decodeInvalid "ai.tool_dispatch result: tool result is not UTF-8 text", ?_⟩
    simp only [toolAnswer, Nat.not_lt.mpr hsummary, Nat.not_lt.mpr hdata, if_false, hread]
  | error error =>
    cases error with
    | denied _ _ | failed _ _ | protocolRejected _ _ | effectUnknown _ _ => exact absurd trivial h
    | _ => exact ⟨_, rfl⟩

/-- Refusals mean that nothing ran exactly if every executor answer to an admitted call is in
contract. -/
theorem refusals_executed_nothing_iff (api : IpcApi S L G) (input : DispatchInput S L)
    (complete : DispatchOutcome) (view : ToolView E) (s : ExecutorState E) :
    RefusalsExecutedNothing api input complete view s ↔
      ∀ decoded spec, Admitted api input view decoded spec →
        InContract (view.executor s.env ⟨decoded.tool, view.arguments⟩ decoded.nowMs).1 := by
  constructor
  · intro h decoded spec hadmitted
    by_contra hout
    obtain ⟨error, herror⟩ := toolAnswer_of_not_inContract view decoded hout
    obtain ⟨houtcome, hcontacts⟩ := dispatch_of_admitted complete s hadmitted
    have hrefused := h.1 error (houtcome.trans (congrArg (outcomeOf input) herror))
    simp [hcontacts] at hrefused
  · intro h
    by_cases hadmitted : ∃ decoded spec, Admitted api input view decoded spec
    · obtain ⟨decoded, spec, hadmitted⟩ := hadmitted
      obtain ⟨houtcome, hcontacts⟩ := dispatch_of_admitted complete s hadmitted
      obtain ⟨status, disposition, reason, hanswer, hstatus, hsuccess⟩ :=
        toolAnswer_of_inContract view decoded (h decoded spec hadmitted)
      have hready := houtcome.trans (congrArg (outcomeOf input) hanswer)
      refine ⟨fun error hrefused => ?_, fun contact hcontact => ?_⟩
      · cases hready.symm.trans hrefused
      · obtain rfl : contactOf view decoded s = contact := by
          simpa using hcontacts.symm.trans hcontact
        exact ⟨_, _, status, hready, hstatus, ⟨_, _, _, rfl⟩, hsuccess⟩
    · have hsame := dispatch_of_not_admitted complete s
        fun decoded spec hd => hadmitted ⟨decoded, spec, hd⟩
      refine ⟨fun _ _ => congrArg ExecutorState.contacts hsame, fun contact hcontact => ?_⟩
      simp [hsame] at hcontact

/-- The executor ran the call and returned one byte that is not text; the caller is told that the
request was refused. -/
theorem refused_after_execution :
    ¬RefusalsExecutedNothing sampleApi sampleInput (.notWired "" .aiInvoke)
      (sampleView (.ok ⟨"", [0xff]⟩) 2000) sampleStart := by
  intro h
  have hconsents : Consents (sampleView (.ok ⟨"", [0xff]⟩) 2000) sampleDecoded sampleSpec 0 := by
    unfold Consents
    decide +kernel
  obtain ⟨houtcome, hcontacts⟩ := dispatch_of_admitted (.notWired "" .aiInvoke) sampleStart
    ⟨sample_checked (.ok ⟨"", [0xff]⟩) 2000, hconsents⟩
  have hanswer : toolAnswer (sampleView (.ok ⟨"", [0xff]⟩) 2000) sampleDecoded (.ok ⟨"", [0xff]⟩) =
        .error (decodeInvalid "ai.tool_dispatch result: tool result is not UTF-8 text") := by
    decide +kernel
  have hsame := h.1 _ (houtcome.trans (congrArg (outcomeOf sampleInput) hanswer))
  exact absurd (hcontacts.symm.trans hsame) (by simp)

/-! ## Admission -/

/-- What a contact of the executor is entitled by: every check of the tool arm, and consent for the
tool at the time of admission. -/
def Entitled (api : IpcApi S L G) (input : DispatchInput S L) (view : ToolView E)
    (contact : Contact) : Prop :=
  ∃ decoded spec, Checked api input view decoded spec ∧ contact.call.name = decoded.tool ∧
    contact.call.arguments = view.arguments ∧ Consents view decoded spec input.nowMs

def ContactsEntitled (api : IpcApi S L G) (input : DispatchInput S L) (complete : DispatchOutcome)
    (view : ToolView E) (s : ExecutorState E) : Prop :=
  let after := dispatchWithTools api input complete view s
  after.2.contacts = s.contacts ∨
    ∃ contact, after.2.contacts = s.contacts ++ [contact] ∧ Entitled api input view contact

theorem Checked.unique {decoded' : ToolDispatchParams} {spec' : ToolSpec}
    (h : Checked api input view decoded spec) (h' : Checked api input view decoded' spec') :
    decoded = decoded' ∧ spec = spec' := by
  obtain rfl : decoded = decoded' := Except.ok.inj (h.decodes.symm.trans h'.decodes)
  exact ⟨rfl, Option.some.inj (h.registered.symm.trans h'.registered)⟩

/-- Contacts are entitled exactly if no call that passes the other checks has a consent at the time
its params carry that it does not have at the time of admission. -/
theorem contacts_entitled_iff (api : IpcApi S L G) (input : DispatchInput S L)
    (complete : DispatchOutcome) (view : ToolView E) (s : ExecutorState E) :
    ContactsEntitled api input complete view s ↔
      ∀ decoded spec, Checked api input view decoded spec →
        Consents view decoded spec decoded.nowMs → Consents view decoded spec input.nowMs := by
  constructor
  · intro h decoded spec hchecked hconsents
    obtain ⟨-, hcontacts⟩ := dispatch_of_admitted complete s ⟨hchecked, hconsents⟩
    rcases h with hsame | ⟨contact, -, decoded', spec', hchecked', -, -, hnow⟩
    · simp [hcontacts] at hsame
    · obtain ⟨rfl, rfl⟩ := hchecked.unique hchecked'
      exact hnow
  · intro h
    by_cases hadmitted : ∃ decoded spec, Admitted api input view decoded spec
    · obtain ⟨decoded, spec, hadmitted⟩ := hadmitted
      obtain ⟨-, hcontacts⟩ := dispatch_of_admitted complete s hadmitted
      exact .inr ⟨_, hcontacts, decoded, spec, hadmitted.toChecked, rfl, rfl,
        h decoded spec hadmitted.toChecked hadmitted.consented⟩
    · exact .inl (congrArg ExecutorState.contacts (dispatch_of_not_admitted _ _
        fun decoded spec hd => hadmitted ⟨decoded, spec, hd⟩))

/-- The grant of the tool ended at 500 and the call is admitted at 1000, but its params say 0. -/
theorem backdated_contact : ¬ContactsEntitled sampleApi sampleInput (.notWired "" .aiInvoke)
      (sampleView (.ok ⟨"", []⟩) 500) sampleStart := by
  intro h
  have hchecked := sample_checked (.ok ⟨"", []⟩) 500
  have hconsents : Consents (sampleView (.ok ⟨"", []⟩) 500) sampleDecoded sampleSpec 0 := by
    unfold Consents
    decide +kernel
  obtain ⟨-, hcontacts⟩ :=
    dispatch_of_admitted (.notWired "" .aiInvoke) sampleStart ⟨hchecked, hconsents⟩
  rcases h with hsame | ⟨contact, -, decoded, spec, hchecked', -, -, hnow⟩
  · exact absurd (hcontacts.symm.trans hsame) (by simp)
  · obtain ⟨rfl, rfl⟩ := hchecked.unique hchecked'
    revert hnow
    unfold Consents
    decide +kernel

end BittyAi.Endpoint
