/-
BittyAi.Mcp.OutgoingTheorems — which arguments leave a `tools/call` frame one message for the tool
it names, and which id a reply carries.

`call_request` escapes the name and writes the arguments as they are.
-/
import BittyAi.Lib.EarlyExit
import BittyAi.Mcp.ValueTheorems

namespace BittyAi.Mcp

open Lib Lib.JsonSyntax List

/-- The frame is one message: an object with one `params` object, which has one member `name`, and
that is the tool. -/
def NamesTool (frame : Text) (rawTool : String) : Prop :=
  '\n' ∉ frame ∧ ∃ members : Tree (.list .curly), frame = (Tree.container members).text ∧
    ∃ params : Tree (.list .curly), members.named "params".toList = [.container params] ∧
      ∃ body, params.named "name".toList = [.string body] ∧ decode body = some rawTool.toList

/-- What `call_request` writes for the arguments. -/
def argumentsText (arguments : List UInt8) : Text :=
  (if arguments.isEmpty then "\x7b\x7d" else lossyText arguments).toList

/-- The text reads as a value, then perhaps as further members of the params other than a `name`
and, behind them, of the frame other than `params`. -/
def FitsParams (text : Text) : Prop :=
  ∃ (before : Ws) (item : Tree .value) (after : Ws) (inner : Option (Tree (.list .curly)))
      (close : Ws) (outer : Option (Tree (.list .curly))),
    text ++ ['\x7d', '\x7d'] = before.text ++ (item.text ++ (after.text ++ (Tree.tailText inner ++
      '\x7d' :: (close.text ++ (Tree.tailText outer ++ ['\x7d']))))) ∧
    Tree.namedTail "name".toList inner = [] ∧ Tree.namedTail "params".toList outer = []

/-! ## The parts of a frame -/

theorem newline_not_mem_bodyText (body : List Piece) : '\n' ∉ bodyText body := fun h =>
  absurd (bodyText_ge body _ h) (by decide)

theorem newline_not_mem_token (s : Scalar) : '\n' ∉ s.token := fun h =>
  absurd (s.chars _ h) (by decide)

abbrev quoted (text : String) : Text := stringText (ofText text.toList)

theorem callRequest_eq (id : Nat) (rawTool : String) (arguments : List UInt8) :
    callRequest id rawTool arguments =
      '\x7b' :: (quoted "jsonrpc" ++ ':' :: (quoted "2.0" ++
      ',' :: (quoted "id" ++ ':' :: ((Scalar.ofNat id).token ++
      ',' :: (quoted "method" ++ ':' :: (quoted "tools/call" ++
      ',' :: (quoted "params" ++ ':' :: '\x7b' :: (quoted "name" ++ ':' :: (quoted rawTool ++
        ',' :: (quoted "arguments" ++
          ':' :: (argumentsText arguments ++ ['\x7d', '\x7d']))))))))))) := by
  have hid : "\x7b\"jsonrpc\":\"2.0\",\"id\":".toList =
      '\x7b' :: (quoted "jsonrpc" ++ ':' :: (quoted "2.0" ++ ',' :: (quoted "id" ++ [':']))) := by
    decide +kernel
  have hname : ",\"method\":\"tools/call\",\"params\":\x7b\"name\":\"".toList =
      ',' :: (quoted "method" ++ ':' :: (quoted "tools/call" ++
        ',' :: (quoted "params" ++ ':' :: '\x7b' :: (quoted "name" ++ [':', '"'])))) := by
    decide +kernel
  have harguments : "\",\"arguments\":".toList =
      '"' :: ',' :: (quoted "arguments" ++ [':']) := by decide +kernel
  have hend : "\x7d\x7d".toList = ['\x7d', '\x7d'] := by decide
  delta callRequest
  simp only [escaped_eq, hid, hname, harguments, hend, argumentsText, Scalar.ofNat,
    stringText_append, append_assoc, cons_append, nil_append]

theorem newline_mem_callRequest (id : Nat) (rawTool : String) (arguments : List UInt8) :
    '\n' ∈ callRequest id rawTool arguments ↔ '\n' ∈ argumentsText arguments := by
  rw [callRequest_eq]
  simp [stringText, newline_not_mem_bodyText, newline_not_mem_token]

/-! ## Reading a frame back -/

def frameKey (name : String) (gap : Ws) : Head .curly :=
  .key Ws.none (ofText name.toList) Ws.none gap

theorem names_frameKey (name : String) (gap : Ws) (other : Text) :
    (frameKey name gap).names other = decide (name.toList = other) := by
  simp [frameKey, Head.names, decode_ofText]

theorem text_frameKey (name : String) (gap : Ws) :
    (frameKey name gap).text = quoted name ++ ':' :: gap.text := by
  simp [frameKey, Head.text]

section Frame

variable {id : Nat} {arguments : List UInt8}

/-- The members of a frame with these members behind its `arguments` and behind its `params`. -/
def frameMembers (id : Scalar) (params : Tree (.list .curly)) (close : Ws)
    (outer : Option (Tree (.list .curly))) : Tree (.list .curly) :=
  .more (frameKey "jsonrpc" Ws.none) (.string (ofText "2.0".toList)) Ws.none
    (.more (frameKey "id" Ws.none) (.scalar id) Ws.none
      (.more (frameKey "method" Ws.none) (.string (ofText "tools/call".toList)) Ws.none
        (Tree.cons (frameKey "params" Ws.none) (.container params) close outer)))

def frameParams (rawTool : String) (before : Ws) (item : Tree .value) (after : Ws)
    (inner : Option (Tree (.list .curly))) : Tree (.list .curly) :=
  .more (frameKey "name" Ws.none) (.string (ofText rawTool.toList)) Ws.none
    (Tree.cons (frameKey "arguments" before) item after inner)

theorem named_frameMembers (id : Scalar) (params : Tree (.list .curly)) (close : Ws)
    (outer : Option (Tree (.list .curly))) :
    (frameMembers id params close outer).named "params".toList =
      .container params :: Tree.namedTail "params".toList outer := by
  simp only [frameMembers, Tree.named, Tree.named_cons, names_frameKey]
  simp

theorem named_frameParams (rawTool : String) (before : Ws) (item : Tree .value) (after : Ws)
    (inner : Option (Tree (.list .curly))) :
    (frameParams rawTool before item after inner).named "name".toList =
      .string (ofText rawTool.toList) :: Tree.namedTail "name".toList inner := by
  simp only [frameParams, Tree.named, Tree.named_cons, names_frameKey]
  simp

theorem callRequest_eq_text_iff (rawTool : String) {members : Tree (.list .curly)} :
    callRequest id rawTool arguments = (Tree.container members).text ↔
      ∃ (s : Scalar) (before : Ws) (item : Tree .value) (after : Ws)
          (inner : Option (Tree (.list .curly))) (close : Ws)
          (outer : Option (Tree (.list .curly))),
        s.token = (Scalar.ofNat id).token ∧
        members = frameMembers s (frameParams rawTool before item after inner) close outer ∧
        argumentsText arguments ++ ['\x7d', '\x7d'] =
          before.text ++ (item.text ++ (after.text ++ (Tree.tailText inner ++
            '\x7d' :: (close.text ++ (Tree.tailText outer ++ ['\x7d']))))) := by
  rw [callRequest_eq]
  constructor
  · intro h
    have h := (List.cons.inj h).2.symm
    obtain ⟨afterVersion, rfl, hversion⟩ := Tree.eq_cons_string h
    obtain ⟨s, afterId, hs, rfl, hid⟩ := Tree.eq_cons_scalar hversion
    obtain ⟨afterMethod, rfl, hmethod⟩ := Tree.eq_cons_string hid
    obtain ⟨gap, item, close, outer, rfl, hparams⟩ := Tree.eq_cons_key hmethod
    obtain ⟨rfl, hobject⟩ := Tree.gap_eq_none (by decide) hparams
    obtain ⟨ws, -, hempty⟩ | ⟨params, rfl, hname⟩ := Tree.eq_object hobject
    · rw [stringText_append] at hempty
      exact absurd (Ws.eq_none (by decide) (by decide) hempty).2.1 (by decide)
    · obtain ⟨afterName, rfl, hkey⟩ := Tree.eq_cons_string hname
      obtain ⟨before, item, after, inner, rfl, hargs⟩ := Tree.eq_cons_key hkey
      exact ⟨s, before, item, after, inner, close, outer, hs, rfl, hargs.symm⟩
  · rintro ⟨s, before, item, after, inner, close, outer, hs, rfl, hargs⟩
    rw [hargs, ← hs]
    simp only [frameMembers, frameParams, Tree.text, Tree.text_cons, text_frameKey,
      Bracket.opening, Bracket.closing, Ws.text_none, append_assoc, cons_append,
      nil_append]

/-- The frame is one message for the named tool exactly when the arguments have no line feed and
fit behind the name. -/
theorem callRequest_names_tool_iff (id : Nat) (rawTool : String) (arguments : List UInt8) :
    NamesTool (callRequest id rawTool arguments) rawTool ↔
      '\n' ∉ argumentsText arguments ∧ FitsParams (argumentsText arguments) := by
  rw [NamesTool, newline_mem_callRequest]
  refine and_congr_right fun _ => ⟨?_, ?_⟩
  · rintro ⟨members, hframe, params, hparams, body, hname, -⟩
    obtain ⟨s, before, item, after, inner, close, outer, -, rfl, hargs⟩ :=
      (callRequest_eq_text_iff rawTool).mp hframe
    rw [named_frameMembers, cons.injEq] at hparams
    obtain ⟨hcontainer, houter⟩ := hparams
    cases hcontainer
    rw [named_frameParams, cons.injEq] at hname
    exact ⟨before, item, after, inner, close, outer, hargs, hname.2, houter⟩
  · rintro ⟨before, item, after, inner, close, outer, hargs, hinner, houter⟩
    have hframe := (callRequest_eq_text_iff rawTool).mpr
      ⟨Scalar.ofNat id, before, item, after, inner, close, outer, rfl, rfl, hargs⟩
    refine ⟨_, hframe, frameParams rawTool before item after inner, ?_, ofText rawTool.toList, ?_,
      decode_ofText rawTool.toList⟩
    · rw [named_frameMembers, houter]
    · rw [named_frameParams, hinner]

def smuggledCall : String :=
  "\x7b\x7d\x7d\x7d\n\x7b\"jsonrpc\":\"2.0\",\"id\":8,\"method\":\"tools/call\",\"params\":" ++
    "\x7b\"name\":\"wipe\",\"arguments\":\x7b\x7d"

/-- What is written for them is two frames on two lines, and the second calls another tool. -/
theorem smuggled_call_is_second_frame : callRequest 7 "read" (utf8Bytes smuggledCall) =
        callRequest 7 "read" [] ++ '\n' :: callRequest 8 "wipe" [] ∧
      ¬NamesTool (callRequest 7 "read" (utf8Bytes smuggledCall)) "read" := by
  have htwo : callRequest 7 "read" (utf8Bytes smuggledCall) =
      callRequest 7 "read" [] ++ '\n' :: callRequest 8 "wipe" [] := by
    have hne : (utf8Bytes smuggledCall).isEmpty = false := by decide +kernel
    delta callRequest
    simp only [lossyText_utf8Bytes, hne]
    decide +kernel
  refine ⟨htwo, fun h => h.1 ?_⟩
  rw [htwo]
  exact mem_append_right _ mem_cons_self

end Frame

/-! ## The id of a reply

`find_raw_field` drops the quotes of a string, and `render_id_token` writes the token back by its
characters alone: digits and the three literals as they are, anything else in quotes. So a string
of digits is answered as a number, and a negative number as a string. -/

open Option

variable {id : Tree .value} {reply token out : Text} {value x y : IdValue}

inductive IdValue where
  | integer (n : Int)
  | string (chars : Text)

def natValue (digits : Text) : Option Int :=
  if digits.all Char.isDigit then some (digits.foldl (fun n c => 10 * n + (c.toNat - 48)) 0)
  else none

def integerValue : Text → Option Int
  | '-' :: digits => (natValue digits).map Int.neg
  | digits => natValue digits

def idValue : Tree .value → Option IdValue
  | .scalar s => (integerValue s.token).map .integer
  | .string body => (decode body).map .string
  | _ => none

def HasId (reply : Text) (value : IdValue) : Prop :=
  ∃ (v : Tree .value) (rest : Text),
    reply = replyHead v.text ++ ',' :: rest ∧ idValue v = some value

def Answered (id : Tree .value) (reply : Text) : Prop :=
  ∃ line back cwd : Text, FirstPlace "id".toList line (id.text ++ back) ∧ Follows back ∧
    handleServerRequest line cwd = .ok (some reply)

def Bare (token : Text) : Prop :=
  token.all Char.isDigit = true ∨ token ∈ ["true".toList, "false".toList, "null".toList]

instance (token : Text) : Decidable (Bare token) := inferInstanceAs (Decidable (_ ∨ _))

def FaithfulId : Tree .value → Prop
  | .scalar s => Bare s.token
  | .string body => ¬Bare (bodyText body)
  | _ => False

theorem Bare.chars (h : Bare token) : ∀ c ∈ token, isTokenChar c = true := by
  rcases h with hdigits | hliteral
  · exact fun c hc => isTokenChar_of_isDigit (all_eq_true.mp hdigits c hc)
  · simp only [mem_cons, not_mem_nil, or_false] at hliteral
    rcases hliteral with rfl | rfl | rfl <;> exact all_eq_true.mp (by decide)

theorem renderIdToken_cases (h : renderIdToken token = some out) :
    token ≠ [] ∧ (Bare token ∧ out = token ∨ ¬Bare token ∧ out = '"' :: token ++ ['"']) := by
  unfold renderIdToken at h
  split at h
  · cases h
  rename_i hempty
  refine ⟨by simpa using hempty, ?_⟩
  split at h
  · rename_i hdigits
    exact .inl ⟨.inl hdigits, (some.inj h).symm⟩
  rename_i hdigits
  split at h
  · rename_i hliteral
    exact .inl ⟨.inr (by simpa using hliteral), (some.inj h).symm⟩
  rename_i hliteral
  have hbare : ¬Bare token := by
    rintro (hall | hmem)
    · exact hdigits hall
    · exact hliteral (by simpa using hmem)
  split at h
  · cases h
  split at h
  · exact .inr ⟨hbare, (some.inj h).symm⟩
  · cases h

theorem replyTo_head (method idToken cwd : Text) :
    ∃ rest, replyTo method idToken cwd = replyHead idToken ++ ',' :: rest := by
  unfold replyTo refusalFrame
  split_ifs <;> exact ⟨_, by simp; rfl⟩

theorem replyHead_inj {s t u w : Text} (h : replyHead s ++ u = replyHead t ++ w) :
    s ++ u = t ++ w := by
  unfold replyHead at h
  rw [append_assoc, append_assoc] at h
  exact append_cancel_left h

theorem Answered.rendered (h : Answered id reply) :
    ∃ out rest, renderIdToken (raw id) = some out ∧ reply = replyHead out ++ ',' :: rest := by
  obtain ⟨line, back, cwd, hplace, hfollows, hreply⟩ := h
  have hraw := findRawField_of_value hfollows (valueOffset_eq_some_iff.mpr hplace)
  unfold handleServerRequest at hreply
  obtain ⟨method, -, hmethod⟩ := bind_eq_ok.mp hreply
  cases method with
  | none => cases hmethod
  | some method =>
    have hsome := Except.ok.inj hmethod
    rw [hraw, Option.bind_eq_bind, Option.bind_some] at hsome
    obtain ⟨out, hout, hrest⟩ := bind_eq_some_iff.mp hsome
    obtain ⟨rest, hhead⟩ := replyTo_head method out cwd
    exact ⟨out, rest, hout, (some.inj hrest).symm.trans hhead⟩

theorem comma_ends {rest : Text} : ∀ c ∈ (',' :: rest).head?, isTokenChar c = false := by
  rintro c hc
  obtain rfl := some.inj hc
  decide

theorem HasId.of_bare {rest : Text} (hne : token ≠ []) (htoken : ∀ c ∈ token, isTokenChar c = true)
    (h : HasId (replyHead token ++ ',' :: rest) x) :
    (integerValue token).map .integer = some x := by
  obtain ⟨v, rest', hsame, hv⟩ := h
  obtain ⟨s, rfl, rfl, -⟩ := Tree.eq_scalar hne htoken comma_ends comma_ends
    (replyHead_inj hsame).symm
  exact hv

theorem HasId.of_quoted {rest : Text}
    (h : HasId (replyHead ('"' :: token ++ ['"']) ++ ',' :: rest) x) :
    ∃ body rest', bodyText body ++ '"' :: rest' = token ++ '"' :: ',' :: rest ∧
      (decode body).map .string = some x := by
  obtain ⟨v, rest', hsame, hv⟩ := h
  have htext : v.text ++ ',' :: rest' = '"' :: (token ++ '"' :: ',' :: rest) := by
    simpa using (replyHead_inj hsame).symm
  obtain ⟨body, rfl, hbody⟩ := Tree.eq_string htext
  exact ⟨body, _, hbody, hv⟩

theorem Answered.hasId_iff (h : Answered id reply) (hvalue : idValue id = some value)
    (hfaithful : FaithfulId id) : HasId reply x ↔ x = value := by
  obtain ⟨out, rest, hout, rfl⟩ := h.rendered
  obtain ⟨hne, hcases⟩ := renderIdToken_cases hout
  cases id with
  | scalar s =>
    have hsame : out = s.token := hcases.elim (·.2) fun hquoted => absurd hfaithful hquoted.1
    subst hsame
    constructor
    · intro hx
      exact some.inj ((hx.of_bare hne s.chars).symm.trans hvalue)
    · rintro rfl
      exact ⟨.scalar s, rest, rfl, hvalue⟩
  | string body =>
    have hsame : out = '"' :: bodyText body ++ ['"'] :=
      hcases.elim (fun hbare => absurd hbare.1 hfaithful) (·.2)
    subst hsame
    constructor
    · intro hx
      obtain ⟨body', rest', hbody, hdecoded⟩ := hx.of_quoted
      obtain ⟨rfl, -⟩ := bodyText_append_inj hbody
      exact some.inj (hdecoded.symm.trans hvalue)
    · rintro rfl
      exact ⟨.string body, rest, rfl, hvalue⟩
  | empty | container => cases hvalue

theorem Answered.not_hasId (h : Answered id reply) (hvalue : idValue id = some value)
    (hfaithful : ¬FaithfulId id) : ¬HasId reply value := by
  obtain ⟨out, rest, hout, rfl⟩ := h.rendered
  obtain ⟨hne, hcases⟩ := renderIdToken_cases hout
  intro hhas
  cases id with
  | scalar s =>
    have hsame : out = '"' :: s.token ++ ['"'] :=
      hcases.elim (fun hbare => absurd hbare.1 hfaithful) (·.2)
    subst hsame
    obtain ⟨body, rest', -, hstring⟩ := hhas.of_quoted
    obtain ⟨n, -, rfl⟩ := map_eq_some_iff.mp hvalue
    obtain ⟨chars, -, hchars⟩ := map_eq_some_iff.mp hstring
    cases hchars
  | string body =>
    have hbare : Bare (bodyText body) := Decidable.not_not.mp hfaithful
    have hsame : out = bodyText body := hcases.elim (·.2) fun hquoted => absurd hbare hquoted.1
    subst hsame
    have hinteger := hhas.of_bare hne hbare.chars
    obtain ⟨n, -, rfl⟩ := map_eq_some_iff.mp hinteger
    obtain ⟨chars, -, hchars⟩ := map_eq_some_iff.mp hvalue
    cases hchars
  | empty | container => cases hvalue

/-- A reply has the id of its request exactly when that is a bare integer or a string that is not
bare, and then no request with another such id gets a reply with the same id. -/
theorem reply_id_faithful_iff (h : Answered id reply) (hvalue : idValue id = some value) :
    (HasId reply value ↔ FaithfulId id) ∧
      ∀ id' reply' value', Answered id' reply' → idValue id' = some value' → FaithfulId id →
        FaithfulId id' → (∃ x, HasId reply x ∧ HasId reply' x) → value = value' := by
  refine ⟨⟨fun hhas => ?_, fun hfaithful => (h.hasId_iff hvalue hfaithful).mpr rfl⟩, ?_⟩
  · by_contra hfaithful
    exact h.not_hasId hvalue hfaithful hhas
  · rintro id' reply' value' h' hvalue' hfaithful hfaithful' ⟨x, hx, hx'⟩
    rw [← (h.hasId_iff hvalue hfaithful).mp hx, (h'.hasId_iff hvalue' hfaithful').mp hx']

theorem answered_seven : Answered (.scalar (.ofNat 7)) (replyTo "ping".toList "7".toList []) :=
  ⟨"\x7b\"method\":\"ping\",\"id\":7\x7d".toList, ['\x7d'], [],
    valueOffset_eq_some_iff.mp (by decide +kernel), ⟨.none, '\x7d', [], rfl, by decide⟩,
    by decide +kernel⟩

theorem reply_id_seven : Answered (.scalar (.ofNat 7)) (replyTo "ping".toList "7".toList []) ∧
      HasId (replyTo "ping".toList "7".toList []) (.integer 7) :=
  ⟨answered_seven, (reply_id_faithful_iff answered_seven rfl).1.mpr (.inl (by decide +kernel))⟩

theorem digit_string_answered_as_number :
    Answered (.scalar (.ofNat 7)) (replyTo "ping".toList "7".toList []) ∧
      Answered (.string (ofText "7".toList)) (replyTo "ping".toList "7".toList []) ∧
      ¬HasId (replyTo "ping".toList "7".toList []) (.string "7".toList) := by
  have hstring : Answered (.string (ofText "7".toList)) (replyTo "ping".toList "7".toList []) :=
    ⟨"\x7b\"method\":\"ping\",\"id\":\"7\"\x7d".toList, ['\x7d'], [],
      valueOffset_eq_some_iff.mp (by decide +kernel), ⟨.none, '\x7d', [], rfl, by decide⟩,
      by decide +kernel⟩
  refine ⟨answered_seven, hstring, ?_⟩
  exact hstring.not_hasId (by simp [idValue, decode_ofText])
    fun hquoted => hquoted (.inl (by decide +kernel))

end BittyAi.Mcp
