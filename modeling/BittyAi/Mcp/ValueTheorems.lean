/-
BittyAi.Mcp.ValueTheorems — what the helpers of `BittyAi.Mcp.Json` read where a JSON value
starts.

At a value of the grammar the raw field is the value (`findRawField_of_value`), and the
string field is the text of a string without surrogate escapes (`findStringField_of_value`),
so what `escape_into` writes is read back.
-/
import BittyAi.Lib.JsonSyntax
import BittyAi.Mcp.FieldTheorems

namespace BittyAi.Mcp

open Lib Lib.JsonSyntax List

variable {rest out line key back : Text}

/-! ## Strings -/

theorem unquoted_body (body : List Piece) : Unquoted (bodyText body) := by
  induction body with
  | nil => exact .nil
  | cons piece body ih =>
    cases piece with
    | plain c h => exact ih.plain h.2.1 h.2.2
    | escape letter value h => exact ih.escape letter
    | unicode a b c d =>
      have hdigit : ∀ (x : HexDigit) {rest : Text}, Unquoted rest → Unquoted (x.char :: rest) :=
        fun x _ h => h.plain x.plain.2.1 x.plain.2.2
      exact .escape 'u' (hdigit a (hdigit b (hdigit c (hdigit d ih))))

theorem fromHex_digits (a b c d : HexDigit) :
    fromHex [a.char, b.char, c.char, d.char] = some (Piece.unit a b c d) := by
  have hdigit : ∀ x : HexDigit, hexDigit x.char = some x.value := fun x => x.reads
  have hplus : a.char ≠ '+' := a.char_ne (by decide)
  unfold fromHex
  split
  next h => exact absurd (cons.inj h).1 hplus
  next =>
    simp only [isEmpty_cons, Bool.false_eq_true, if_false, foldlM_cons, foldlM_nil,
      hdigit, Piece.unit]
    simp [Nat.mul_comm 16]

theorem readString_unicode (a b c d : HexDigit) :
    readString ('\\' :: 'u' :: a.char :: b.char :: c.char :: d.char :: rest) out =
      match charOf (Piece.unit a b c d) with
      | some character => readString rest (character :: out)
      | none => .ok none := by
  rw [readString, if_pos (by simp [HexDigit.utf8Size_char]), fromHex_digits]
  rfl

theorem readString_body (body : List Piece) : readString (bodyText body ++ '"' :: rest) out =
      .ok ((charsOf body).map (out.reverse ++ ·)) := by
  induction body generalizing out with
  | nil => simp [readString, charsOf]
  | cons piece body ih =>
    rw [bodyText_cons, append_assoc, charsOf]
    cases piece with
    | plain c h =>
      rw [Piece.text, singleton_append, readString_cons h.2.1 h.2.2, ih]
      simp [Piece.char?, Function.comp_def]
    | escape letter value h =>
      rw [Piece.text, cons_append, singleton_append, readString_escape h, ih]
      simp [Piece.char?, Function.comp_def]
    | unicode a b c d =>
      have hread := @readString_unicode (bodyText body ++ '"' :: rest) out a b c d
      simp only [Piece.text, cons_append, nil_append, hread, Piece.char?]
      cases charOf (Piece.unit a b c d) with
      | none => rfl
      | some character => simp [ih, Function.comp_def]

theorem escapeChar_eq (c : Char) : escapeChar c = jsonChar c := by
  by_cases hmem : c ∈ ['"', '\\', '\n', '\r', '\t', '\x08', '\x0c']
  · revert hmem
    simp only [mem_cons, not_mem_nil, or_false]
    rintro (rfl | rfl | rfl | rfl | rfl | rfl | rfl) <;> rfl
  · simp only [mem_cons, not_mem_nil, or_false, not_or] at hmem
    obtain ⟨hquote, hescape, hn, hr, ht, hb, hf⟩ := hmem
    simp only [escapeChar, jsonChar, if_neg hquote, if_neg hescape, if_neg hn, if_neg hr,
      if_neg ht, if_neg hb, if_neg hf]
    rfl

theorem escaped_eq (value : Text) : escaped value = bodyText (ofText value) := by
  rw [bodyText_ofText, escaped, funext escapeChar_eq]

/-! ## Brackets -/

def Passes (b : Bracket) (text : Text) : Prop :=
  ∀ (depth : Nat) (rest : Text), Closes b.opening b.closing (depth + 1) rest →
    Closes b.opening b.closing (depth + 1) (text ++ rest)

namespace Passes

variable {b : Bracket} {text more : Text}

theorem nil : Passes b [] := fun _ _ h => h

theorem append (h : Passes b text) (hmore : Passes b more) : Passes b (text ++ more) := by
  intro depth rest hrest
  rw [append_assoc]
  exact h depth _ (hmore depth rest hrest)

theorem cons {c : Char} (h : Passes b [c]) (hmore : Passes b more) : Passes b (c :: more) :=
  h.append hmore

theorem char {c : Char} (hquote : c ≠ '"') (hopening : c ≠ b.opening) (hclosing : c ≠ b.closing) :
    Passes b [c] :=
  fun _ _ hrest => hrest.char hquote hopening hclosing

theorem of_forall (h : ∀ c ∈ text, Passes b [c]) : Passes b text := by
  induction text with
  | nil => exact nil
  | cons c text ih => exact (h c mem_cons_self).cons (ih fun d hd => h d (mem_cons_of_mem _ hd))

theorem ws (w : Ws) : Passes b w.text := by
  refine of_forall fun c hc => ?_
  have hblank := w.blank c hc
  simp only [isWs, Bool.or_eq_true, decide_eq_true_eq] at hblank
  rcases hblank with ((rfl | rfl) | rfl) | rfl <;> cases b <;>
    exact char (by decide) (by decide) (by decide)

theorem scalar (s : Scalar) : Passes b s.token := by
  refine of_forall fun c hc => ?_
  have hchar := s.chars c hc
  have hne : ∀ d, isTokenChar d = false → c ≠ d := by
    rintro d hd rfl
    rw [hd] at hchar
    cases hchar
  cases b <;> exact char (hne _ (by decide)) (hne _ (by decide)) (hne _ (by decide))

theorem string (body : List Piece) : Passes b (stringText body) := by
  intro depth rest hrest
  rw [stringText_append]
  exact hrest.string (unquoted_body body)

theorem brackets (b' : Bracket) (h : Passes b text) :
    Passes b (b'.opening :: text ++ [b'.closing]) := by
  by_cases hb : b' = b
  · subst hb
    intro depth rest hrest
    rw [append_assoc]
    exact .up (h (depth + 1) _ hrest.down)
  · have hopening : Passes b [b'.opening] := by
      cases b <;> cases b' <;> first
        | exact absurd rfl hb
        | exact char (by decide) (by decide) (by decide)
    have hclosing : Passes b [b'.closing] := by
      cases b <;> cases b' <;> first
        | exact absurd rfl hb
        | exact char (by decide) (by decide) (by decide)
    exact (hopening.cons h).append hclosing

theorem head {b' : Bracket} (head : Head b') : Passes b head.text := by
  have hcolon : Passes b [':'] := by cases b <;> exact char (by decide) (by decide) (by decide)
  cases head with
  | item before => exact ws before
  | key before body middle after =>
    exact (((ws before).append (string body)).append (ws middle)).append (hcolon.cons (ws after))

theorem tree {k : Kind} (t : Tree k) : Passes b t.text := by
  have hcomma : Passes b [','] := by cases b <;> exact char (by decide) (by decide) (by decide)
  induction t with
  | scalar token => exact scalar token
  | string body => exact string body
  | empty b' w => exact brackets b' (ws w)
  | @container b' inner ih => exact brackets b' ih
  | last h item after ih => exact ((head h).append ih).append (ws after)
  | more h item after rest ih ihrest =>
    exact (((head h).append ih).append (ws after)).append (hcomma.cons ihrest)

end Passes

theorem rawValue_brackets (b : Bracket) {text : Text} (h : Passes b text) :
    RawValue (b.opening :: (text ++ b.closing :: rest)) (b.opening :: (text ++ [b.closing])) := by
  have hclosed := h 0 _ .close
  cases b with
  | curly => simpa [Bracket.opening, Bracket.closing] using @RawValue.object _ rest hclosed
  | square => simpa [Bracket.opening, Bracket.closing] using @RawValue.array _ rest hclosed

/-! ## Values -/

def Follows (back : Text) : Prop :=
  ∃ (after : Ws) (c : Char) (rest : Text), back = after.text ++ c :: rest ∧ endsToken c = true

/-- The token `find_raw_field` returns for a value: the inner text of a string, still escaped, and
any other value as it is. -/
def raw : Tree .value → Text
  | .string body => bodyText body
  | v => v.text

theorem isWhitespace_of_isWs {c : Char} (h : isWs c = true) :
    isWhitespace c = true ∧ endsToken c = false := by
  simp only [isWs, Bool.or_eq_true, decide_eq_true_eq] at h
  rcases h with ((rfl | rfl) | rfl) | rfl <;> decide

theorem not_isWhitespace_of_isTokenChar {c : Char} (h : isTokenChar c = true) :
    isWhitespace c = false ∧ endsToken c = false := by
  have hrange := isTokenChar_range h
  refine ⟨?_, ?_⟩
  · rw [Bool.eq_false_iff]
    intro hws
    simp only [isWhitespace, Bool.or_eq_true, Bool.and_eq_true, decide_eq_true_eq] at hws
    omega
  · rw [Bool.eq_false_iff]
    intro hends
    simp only [endsToken, Bool.or_eq_true, decide_eq_true_eq] at hends
    rcases hends with (rfl | rfl) | rfl <;> exact absurd h (by decide)

theorem token_of_follows (s : Scalar) (h : Follows back) :
    trimChars ((s.token ++ back).takeWhile fun c => !endsToken c) = s.token := by
  obtain ⟨after, c, rest, rfl, hc⟩ := h
  have htoken : ∀ c ∈ s.token, isWhitespace c = false ∧ endsToken c = false := fun c hc =>
    not_isWhitespace_of_isTokenChar (s.chars c hc)
  have hafter : ∀ c ∈ after.text, isWhitespace c = true ∧ endsToken c = false := fun c hc =>
    isWhitespace_of_isWs (after.blank c hc)
  have htake : (s.token ++ (after.text ++ c :: rest)).takeWhile (fun c => !endsToken c) =
      s.token ++ after.text := by
    rw [takeWhile_append_of_pos fun c hc => by simp [(htoken c hc).2],
      takeWhile_append_of_pos fun c hc => by simp [(hafter c hc).2],
      takeWhile_cons_of_neg (by simp [hc]), append_nil]
  have hstart : ∀ {text : Text} (more : Text), text ≠ [] → (∀ c ∈ text, isWhitespace c = false) →
      trimStart (text ++ more) = text ++ more := by
    intro text more hne htext
    obtain ⟨c, text, rfl⟩ := exists_cons_of_ne_nil hne
    exact dropWhile_cons_of_neg (by simp [htext c mem_cons_self])
  have hfront : trimStart (s.token ++ after.text) = s.token ++ after.text :=
    hstart after.text s.token_ne_nil fun c hc => (htoken c hc).1
  have hback : trimStart (after.text.reverse ++ s.token.reverse) = s.token.reverse := by
    rw [trimStart, dropWhile_append_of_pos fun c hc => (hafter c (mem_reverse.mp hc)).1]
    have htrim := hstart [] (reverse_ne_nil_iff.mpr s.token_ne_nil) fun c hc =>
      (htoken c (mem_reverse.mp hc)).1
    rwa [append_nil] at htrim
  rw [htake, trimChars, hfront, reverse_append, hback, reverse_reverse]

theorem findRawField_of_value {v : Tree .value} (hback : Follows back)
    (h : valueOffset key line = some (v.text ++ back)) : findRawField line key = some (raw v) := by
  refine findRawField_eq_some_iff.mpr ⟨_, valueOffset_eq_some_iff.mp h, ?_⟩
  cases v with
  | scalar s =>
    obtain ⟨c, token, hc⟩ := exists_cons_of_ne_nil s.token_ne_nil
    have htoken := token_of_follows s hback
    have hstart : s.token ++ back = c :: (token ++ back) := congrArg (· ++ back) hc
    have hne : ∀ d, isTokenChar d = false → c ≠ d := by
      rintro d hd rfl
      exact @Tree.scalar_front back _ s _ hd hstart
    rw [Tree.text, hstart]
    rw [hstart] at htoken
    exact (rawValue_token_iff (hne _ (by decide)) (hne _ (by decide)) (hne _ (by decide))).mpr
      ⟨htoken.symm, s.token_ne_nil⟩
  | string body =>
    rw [Tree.text, stringText_append]
    exact .string (unquoted_body body)
  | empty b ws => simpa [Tree.text, raw] using @rawValue_brackets back b _ (Passes.ws ws)
  | @container b inner =>
    simpa [Tree.text, raw] using @rawValue_brackets back b _ (Passes.tree inner)

def stringField : Tree .value → Option Text
  | .string body => charsOf body
  | _ => none

theorem findStringField_of_value {v : Tree .value}
    (h : valueOffset key line = some (v.text ++ back)) :
    findStringField line key = .ok (stringField v) := by
  unfold findStringField
  rw [h]
  cases v with
  | string body =>
    rw [Tree.text, stringText_append]
    change readString (bodyText body ++ '"' :: back) [] = _
    rw [readString_body, stringField]
    simp
  | scalar s =>
    split
    next hvalue => exact absurd (Option.some.inj hvalue) (Tree.scalar_front (by decide))
    next => rfl
  | empty b ws | @container b inner => cases b <;> rfl

/-- The object with one member, a string as `escape_into` writes it. -/
def oneMember (key value : Text) : Text :=
  '\x7b' :: keyPattern key ++ ':' :: '"' :: escaped value ++ ['"', '\x7d']

theorem valueOffset_oneMember (key value : Text) :
    valueOffset key (oneMember key value) =
      some ((Tree.string (ofText value)).text ++ ['\x7d']) := by
  refine valueOffset_eq_some_iff.mpr ⟨['\x7b'], ⟨[], [], by simp [Blank], by simp [Blank],
    by simp [Tree.text, stringText, isAsciiWhitespace], ?_⟩, ?_⟩
  · simp [oneMember, Tree.text, stringText, escaped_eq]
  · -- nothing matches at the brace, so no place comes before this one
    rintro (- | ⟨c, front⟩) value' ⟨gap, gap', -, -, -, htext⟩
    · cases htext
    · simp

/-- What is escaped has no control character and is read back, under every key without one, such as
one of letters. -/
theorem escaped_read_back (key value : Text) (hkey : ∀ c ∈ key, 0x20 ≤ c.toNat) :
    (∀ c ∈ oneMember key value, 0x20 ≤ c.toNat) ∧
      findStringField (oneMember key value) key = .ok (some value) := by
  have hbody := bodyText_ge (ofText value)
  rw [← escaped_eq] at hbody
  constructor
  · simp only [oneMember, keyPattern, cons_append, mem_cons, mem_append, append_assoc, nil_append,
      not_mem_nil, or_false]
    rintro c (rfl | rfl | hc | rfl | rfl | rfl | hc | rfl | rfl)
    iterate 2 decide
    · exact hkey c hc
    iterate 3 decide
    · exact hbody c hc
    iterate 2 decide
  · rw [findStringField_of_value (valueOffset_oneMember key value), stringField, charsOf_ofText]

theorem escaped_read_back_quote :
    findStringField (oneMember ['k'] ['"', '\\', '\n', '\x00']) ['k'] =
      .ok (some ['"', '\\', '\n', '\x00']) :=
  (escaped_read_back _ _ (by simp)).2

/-! ## When a lookup finds the member

`value_offset` searches the text for the quoted key with a colon behind it and knows nothing of
nesting. An object nested in front of the member, or a member that writes its key with an escape,
is enough for another answer. -/

variable {key text value front : Text}

/-! ## Members -/

theorem follows_of_mem_membersAt {k : Kind} {t : Tree k} {rest : Text}
    (hrest : ∃ c back, rest = c :: back ∧ endsToken c = true) :
    ∀ p ∈ t.membersAt key rest, Follows p.2 := by
  induction t generalizing rest with
  | scalar | string | empty => simp [Tree.membersAt]
  | @container b inner ih => exact ih ⟨b.closing, rest, rfl, by cases b <;> decide⟩
  | last head item after _ =>
    obtain ⟨c, back, rfl, hc⟩ := hrest
    rw [Tree.membersAt]
    split
    · simpa using ⟨after, c, back, rfl, hc⟩
    · simp
  | more head item after tail _ ih =>
    rw [Tree.membersAt]
    split
    · rw [List.forall_mem_cons]
      exact ⟨⟨after, ',', _, rfl, by decide⟩, ih hrest⟩
    · exact ih hrest

theorem follows_of_member {v : Tree .value} {rest : Text} :
    ∀ p ∈ v.membersAt key rest, Follows p.2 := by
  cases v with
  | scalar | string | empty => simp [Tree.membersAt]
  | @container b inner =>
    exact follows_of_mem_membersAt (t := inner) ⟨b.closing, rest, rfl, by cases b <;> decide⟩

/-- The lookups of a key in the text of a value return what its member of that name holds: the
search ends at the value of the member, and nowhere where there is none. -/
def LooksUpMember (key text : Text) (v : Tree .value) (after : Text) : Prop :=
  match v.membersAt key after with
  | [] =>
    valueOffset key text = none ∧ findRawField text key = none ∧ findStringField text key = .ok none
  | (item, back) :: _ =>
    valueOffset key text = some (item.text ++ back) ∧ findRawField text key = some (raw item) ∧
      match item with
      | .string body =>
        ∃ chars, decode body = some chars ∧ findStringField text key = .ok (some chars)
      | _ => findStringField text key = .ok none

/-- The first place of the key in the text is the member's own, and a string there has no
surrogate escape; without a member there is no place. -/
def OwnPlaceFirst (key text : Text) (v : Tree .value) (after : Text) : Prop :=
  match v.membersAt key after with
  | [] => ∀ front value, ¬Place key text front value
  | (item, back) :: _ =>
    FirstPlace key text (item.text ++ back) ∧
      ∀ body, item = .string body → ∀ piece ∈ body, piece.isSurrogate = false

/-- Looking up a key finds the member of that name exactly when the first place of the key is its
own. -/
theorem lookup_is_member_iff (before after : Ws) (v : Tree .value) (key : Text) :
    LooksUpMember key (before.text ++ (v.text ++ after.text)) v after.text ↔
      OwnPlaceFirst key (before.text ++ (v.text ++ after.text)) v after.text := by
  unfold LooksUpMember OwnPlaceFirst
  generalize before.text ++ (v.text ++ after.text) = text
  have hfollows := @follows_of_member key v after.text
  revert hfollows
  generalize v.membersAt key after.text = members
  intro hfollows
  cases members with
  | nil =>
    refine ⟨fun h => valueOffset_eq_none_iff.mp h.1, fun h => ?_⟩
    have hnone := valueOffset_eq_none_iff.mpr h
    exact ⟨hnone, by simp [findRawField, hnone], by simp [findStringField, hnone]⟩
  | cons member members =>
    obtain ⟨item, back⟩ := member
    have hback : Follows back := hfollows (item, back) List.mem_cons_self
    dsimp only
    rw [valueOffset_eq_some_iff]
    refine and_congr_right fun hfirst => ?_
    have hoffset := valueOffset_eq_some_iff.mpr hfirst
    rw [findRawField_of_value hback hoffset, findStringField_of_value hoffset]
    cases item with
    | string body =>
      constructor
      · rintro ⟨-, chars, -, hchars⟩ body' ⟨⟩
        have hsome : charsOf body = some chars := Except.ok.inj hchars
        exact (isSome_charsOf body).mp (by rw [hsome]; rfl)
      · intro hpieces
        obtain ⟨chars, hchars⟩ :=
          Option.isSome_iff_exists.mp ((isSome_charsOf body).mpr (hpieces body rfl))
        exact ⟨rfl, chars, decode_of_charsOf hchars, congrArg Except.ok hchars⟩
    | scalar | empty | container => simp [stringField]

def nestedId : Tree .value :=
  let key (name : String) : Head .curly := .key Ws.none (ofText name.toList) Ws.none Ws.none
  .container (.more (key "a") (.container (.last (key "id") (.scalar (Scalar.ofNat 1)) Ws.none))
    Ws.none (.last (key "id") (.scalar (Scalar.ofNat 2)) Ws.none))

/-- Its `id` is 2, and the lookup returns the 1 of the nested object. -/
theorem nested_member_matches : nestedId.text = "\x7b\"a\":\x7b\"id\":1\x7d,\"id\":2\x7d".toList ∧
      (nestedId.named "id".toList).map raw = [['2']] ∧
      findRawField nestedId.text "id".toList = some ['1'] ∧
      ¬LooksUpMember "id".toList (Ws.none.text ++ (nestedId.text ++ Ws.none.text)) nestedId
        Ws.none.text := by
  refine ⟨by decide +kernel, by decide +kernel, by decide +kernel, fun h => ?_⟩
  have hraw : findRawField (Ws.none.text ++ (nestedId.text ++ Ws.none.text)) "id".toList =
      some ['2'] := h.2.1
  exact absurd hraw (by decide +kernel)

end BittyAi.Mcp
