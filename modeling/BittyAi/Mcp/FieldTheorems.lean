/-
BittyAi.Mcp.FieldTheorems — what the helpers of `bitty-ai-mcp/src/json.rs` read in any text
at all.

`BittyAi.Mcp.ValueTheorems` says what they read where a JSON value starts. A server may send
anything, so here every helper gets a specification that holds of every text.
-/
import Mathlib.Data.List.TakeWhile
import BittyAi.Lib.Scan
import BittyAi.Mcp.Tools

namespace BittyAi.Mcp

open Lib List Option

variable {text rest out raw line key value body front : Text}

/-! ## Places -/

def Blank (text : Text) : Prop := ∀ c ∈ text, isAsciiWhitespace c = true

/-- Behind `front` stands the quoted key, then a colon, then `value`; white space may stand around
the colon. -/
def Place (key text front value : Text) : Prop :=
  ∃ gap gap' : Text, Blank gap ∧ Blank gap' ∧ (∀ c ∈ value.head?, isAsciiWhitespace c = false) ∧
    text = front ++ (keyPattern key ++ (gap ++ ':' :: (gap' ++ value)))

def FirstPlace (key text value : Text) : Prop :=
  ∃ front, Place key text front value ∧
    ∀ front' value', Place key text front' value' → front.length ≤ front'.length

theorem dropWhile_blank {gap rest : Text} (hgap : Blank gap)
    (hrest : ∀ c ∈ rest.head?, isAsciiWhitespace c = false) :
    (gap ++ rest).dropWhile isAsciiWhitespace = rest := by
  rw [dropWhile_append_of_pos hgap]
  cases rest with
  | nil => rfl
  | cons c rest => exact dropWhile_cons_of_neg (by simp [hrest c rfl])

theorem dropWhile_head (text : Text) :
    ∀ c ∈ (text.dropWhile isAsciiWhitespace).head?, isAsciiWhitespace c = false := by
  intro c hc
  have hhead := head?_dropWhile_not isAsciiWhitespace text
  rw [hc] at hhead
  exact hhead

theorem place_nil_iff : Place key text [] value ↔ (keyPattern key).isPrefixOf text = true ∧
      ∃ after, (text.drop (keyPattern key).length).dropWhile isAsciiWhitespace = ':' :: after ∧
        value = after.dropWhile isAsciiWhitespace := by
  constructor
  · rintro ⟨gap, gap', hgap, hgap', hvalue, rfl⟩
    have hcolon : ∀ c ∈ (':' :: (gap' ++ value)).head?, isAsciiWhitespace c = false := by
      rintro c ⟨⟩
      decide
    refine ⟨by simp, gap' ++ value, ?_, (dropWhile_blank hgap' hvalue).symm⟩
    rw [nil_append, drop_left, dropWhile_blank hgap hcolon]
  · rintro ⟨hpattern, after, hafter, rfl⟩
    obtain ⟨rest, rfl⟩ := isPrefixOf_iff_prefix.mp hpattern
    rw [drop_left] at hafter
    refine ⟨rest.takeWhile isAsciiWhitespace, after.takeWhile isAsciiWhitespace,
      fun c hc => mem_takeWhile_imp hc, fun c hc => mem_takeWhile_imp hc,
      dropWhile_head after, ?_⟩
    rw [takeWhile_append_dropWhile, ← hafter, takeWhile_append_dropWhile, nil_append]

theorem place_cons_iff {c d : Char} :
    Place key (c :: text) (d :: front) value ↔ c = d ∧ Place key text front value := by
  constructor
  · rintro ⟨gap, gap', hgap, hgap', hvalue, heq⟩
    rw [cons_append, cons.injEq] at heq
    exact ⟨heq.1, gap, gap', hgap, hgap', hvalue, heq.2⟩
  · rintro ⟨rfl, gap, gap', hgap, hgap', hvalue, rfl⟩
    exact ⟨gap, gap', hgap, hgap', hvalue, rfl⟩

theorem valueOffset_cons (key rest : Text) (c : Char) :
    (∃ value, Place key (c :: rest) [] value ∧ valueOffset key (c :: rest) = some value) ∨
      (∀ value, ¬Place key (c :: rest) [] value) ∧
        valueOffset key (c :: rest) = valueOffset key rest := by
  rw [valueOffset]
  split
  next hpattern =>
    split
    next after hafter => exact .inl ⟨_, place_nil_iff.mpr ⟨hpattern, after, hafter, rfl⟩, rfl⟩
    next hafter =>
      refine .inr ⟨fun value hplace => ?_, rfl⟩
      obtain ⟨-, after, hcolon, -⟩ := place_nil_iff.mp hplace
      exact hafter after hcolon
  next hpattern => exact .inr ⟨fun value hplace => hpattern (place_nil_iff.mp hplace).1, rfl⟩

theorem searches_valueOffset : Searches (Place key) (valueOffset key) where
  nil := by
    rintro front value ⟨gap, gap', -, -, -, heq⟩
    simp [keyPattern] at heq
  search_nil := rfl
  cons := place_cons_iff
  unique h h' := by
    obtain ⟨-, after, hafter, rfl⟩ := place_nil_iff.mp h
    obtain ⟨-, after', hafter', rfl⟩ := place_nil_iff.mp h'
    rw [hafter, cons.injEq] at hafter'
    rw [hafter'.2]
  step c rest := valueOffset_cons key rest c

theorem valueOffset_eq_some_iff : valueOffset key text = some value ↔ FirstPlace key text value :=
  searches_valueOffset.eq_some_iff

theorem valueOffset_eq_none_iff :
    valueOffset key text = none ↔ ∀ front value, ¬Place key text front value :=
  searches_valueOffset.eq_none_iff

theorem FirstPlace.unique {value' : Text} (h : FirstPlace key text value)
    (h' : FirstPlace key text value') : value = value' := by
  rw [← valueOffset_eq_some_iff] at h h'
  exact some.inj (h.symm.trans h')

/-! ## Where a string ends -/

inductive Unquoted : Text → Prop
  | nil : Unquoted []
  | plain {c : Char} {rest : Text} (hquote : c ≠ '"') (hescape : c ≠ '\\') (h : Unquoted rest) :
      Unquoted (c :: rest)
  | escape {rest : Text} (c : Char) (h : Unquoted rest) : Unquoted ('\\' :: c :: rest)

variable {c : Char}

theorem rawString_cons (hquote : c ≠ '"') (hescape : c ≠ '\\') :
    rawString (c :: rest) out = rawString rest (c :: out) := by
  rw [rawString]
  all_goals simp_all

theorem rawString_of_unquoted (h : Unquoted body) :
    rawString (body ++ '"' :: rest) out = some (out.reverse ++ body) := by
  induction h generalizing out with
  | nil => simp [rawString]
  | plain hquote hescape h ih =>
    rw [cons_append, rawString_cons hquote hescape, ih]
    simp
  | escape c h ih =>
    rw [cons_append, cons_append, rawString, ih]
    simp

theorem afterString_cons (hquote : c ≠ '"') (hescape : c ≠ '\\') :
    afterString (c :: rest) = afterString rest := by
  rw [afterString]
  all_goals simp_all

theorem afterString_of_unquoted (h : Unquoted body) : afterString (body ++ '"' :: rest) = rest := by
  induction h with
  | nil => rfl
  | plain hquote hescape h ih => rw [cons_append, afterString_cons hquote hescape, ih]
  | escape c h ih => rw [cons_append, cons_append, afterString, ih]

def Unclosed (text : Text) : Prop :=
  ∀ body rest, Unquoted body → text ≠ body ++ '"' :: rest

theorem open_induction {P : Text → Prop} (nil : P []) (cut : P ['\\'])
    (plain : ∀ c rest, c ≠ '"' → c ≠ '\\' → P rest → P (c :: rest))
    (escape : ∀ c rest, P rest → P ('\\' :: c :: rest))
    (h : Unclosed text) : P text := by
  induction text using afterString.induct with
  | case1 => exact nil
  | case2 rest => exact absurd rfl (h [] rest .nil)
  | case3 => exact cut
  | case4 c rest ih =>
    refine escape c rest (ih fun body back hbody heq => ?_)
    exact h ('\\' :: c :: body) back (hbody.escape c) (by rw [heq]; rfl)
  | case5 c rest hquote hopen hescape ih =>
    have hq : c ≠ '"' := fun heq => by simp_all
    have he : c ≠ '\\' := fun heq => by cases rest <;> simp_all
    refine plain c rest hq he (ih fun body back hbody heq => ?_)
    exact h (c :: body) back (hbody.plain hq he) (by rw [heq]; rfl)

theorem afterString_of_open (h : Unclosed text) :
    afterString text = [] := by
  refine open_induction (P := (afterString · = [])) rfl rfl (fun c rest hquote hescape ih => ?_)
    (fun c rest ih => ?_) h
  · rw [afterString_cons hquote hescape, ih]
  · rw [afterString, ih]

theorem unquoted_or_open (text : Text) : (∃ body rest, Unquoted body ∧ text = body ++ '"' :: rest) ∨
      ∀ body rest, Unquoted body → text ≠ body ++ '"' :: rest := by
  by_cases h : ∃ body rest, Unquoted body ∧ text = body ++ '"' :: rest
  · exact .inl h
  · exact .inr fun body rest hbody heq => h ⟨body, rest, hbody, heq⟩

theorem rawString_of_open (h : Unclosed text) :
    rawString text out = none := by
  revert out
  refine open_induction (P := fun text => ∀ {out}, rawString text out = none) rfl rfl
    (fun c rest hquote hescape ih => ?_) (fun c rest ih => ?_) h
  · intro out
    rw [rawString_cons hquote hescape, ih]
  · intro out
    rw [rawString, ih]

theorem rawString_eq_some_iff :
    rawString text [] = some raw ↔ ∃ rest, Unquoted raw ∧ text = raw ++ '"' :: rest := by
  constructor
  · intro h
    rcases unquoted_or_open text with ⟨body, rest, hbody, rfl⟩ | hopen
    · rw [rawString_of_unquoted hbody] at h
      cases h
      exact ⟨rest, hbody, rfl⟩
    · cases h.symm.trans (rawString_of_open hopen)
  · rintro ⟨rest, hraw, rfl⟩
    exact rawString_of_unquoted hraw

/-! ## Where a bracket closes -/

/-- A text that closes so many open brackets, the last of them with its last character; brackets
inside strings do not count. -/
inductive Closes (opening closing : Char) : Nat → Text → Prop
  | close : Closes opening closing 1 [closing]
  | down {depth : Nat} {rest : Text} (h : Closes opening closing (depth + 1) rest) :
      Closes opening closing (depth + 2) (closing :: rest)
  | up {depth : Nat} {rest : Text} (h : Closes opening closing (depth + 2) rest) :
      Closes opening closing (depth + 1) (opening :: rest)
  | string {depth : Nat} {body rest : Text} (hbody : Unquoted body)
      (h : Closes opening closing (depth + 1) rest) :
      Closes opening closing (depth + 1) ('"' :: (body ++ '"' :: rest))
  | char {depth : Nat} {c : Char} {rest : Text} (hquote : c ≠ '"') (hopening : c ≠ opening)
      (hclosing : c ≠ closing) (h : Closes opening closing (depth + 1) rest) :
      Closes opening closing (depth + 1) (c :: rest)

section Brackets

variable {opening closing : Char} {depth : Nat}

theorem balanced_string (hbody : Unquoted body) :
    balanced opening closing depth true (body ++ '"' :: rest) out =
      balanced opening closing depth false rest ('"' :: body.reverse ++ out) := by
  induction hbody generalizing out with
  | nil => simp [balanced]
  | @plain c body hquote hescape h ih =>
    have hinside : (c != '"') = true := bne_iff_ne.mpr hquote
    rw [cons_append, balanced, hinside, ih]
    · simp
    all_goals simp_all
  | escape c h ih =>
    rw [cons_append, cons_append, balanced, ih]
    simp

theorem balanced_open (h : Unclosed text) :
    balanced opening closing depth true text out = none := by
  revert out
  refine open_induction
    (P := fun text => ∀ {out}, balanced opening closing depth true text out = none)
    (by simp [balanced]) (by simp [balanced]) (fun c rest hquote hescape ih => ?_)
    (fun c rest ih => ?_) h
  · intro out
    have hinside : (c != '"') = true := bne_iff_ne.mpr hquote
    rw [balanced, hinside, ih]
    all_goals simp_all
  · intro out
    rw [balanced, ih]

theorem balanced_of_closes {inner : Text} (hquote : opening ≠ '"') (hclosing : closing ≠ '"')
    (hne : closing ≠ opening) (h : Closes opening closing depth inner) :
    balanced opening closing depth false (inner ++ rest) out = some (out.reverse ++ inner) := by
  induction h generalizing out with
  | close =>
    rw [singleton_append, balanced, if_neg hclosing, if_neg hne, if_pos rfl, if_pos rfl]
    simp
  | down h ih =>
    rw [cons_append, balanced, if_neg hclosing, if_neg hne, if_pos rfl, if_neg (by omega)]
    have hback := @ih (closing :: out)
    simpa using hback
  | up h ih =>
    rw [cons_append, balanced, if_neg hquote, if_pos rfl, ih]
    simp
  | string hbody h ih =>
    rw [cons_append, balanced, if_pos rfl, append_assoc, cons_append,
      balanced_string hbody, ih]
    simp
  | char hq ho hc h ih =>
    rw [cons_append, balanced, if_neg hq, if_neg ho, if_neg hc, ih]
    simp

theorem closes_of_balanced (h : balanced opening closing (depth + 1) false text out = some raw) :
    ∃ inner rest, Closes opening closing (depth + 1) inner ∧ text = inner ++ rest ∧
      raw = out.reverse ++ inner := by
  induction hlength : text.length using Nat.strong_induction_on generalizing text depth out with
  | _ n ih =>
    subst hlength
    cases text with
    | nil => simp [balanced] at h
    | cons c text =>
      have ih := fun {back : Text} (hlt : back.length < (c :: text).length) {depth : Nat}
          {out : Text} (h : balanced opening closing (depth + 1) false back out = some raw) =>
        ih _ hlt h rfl
      rw [balanced] at h
      split at h
      next hquote =>
        subst hquote
        rcases unquoted_or_open text with ⟨body, back, hbody, rfl⟩ | hopen
        · rw [balanced_string hbody] at h
          obtain ⟨inner, rest, hinner, rfl, rfl⟩ := ih (by simp; omega) h
          exact ⟨_, rest, hinner.string hbody, by simp, by simp⟩
        · rw [balanced_open hopen] at h
          cases h
      next hquote =>
      split at h
      next hopening =>
        subst hopening
        obtain ⟨inner, rest, hinner, rfl, rfl⟩ := ih (by simp) h
        exact ⟨_, rest, hinner.up, by simp, by simp⟩
      next hopening =>
      split at h
      next hclosing =>
        subst hclosing
        cases depth with
        | zero =>
          cases h
          exact ⟨[c], text, .close, rfl, by simp⟩
        | succ depth =>
          rw [if_neg (by omega)] at h
          obtain ⟨inner, rest, hinner, rfl, rfl⟩ := ih (by simp) h
          exact ⟨_, rest, hinner.down, by simp, by simp⟩
      next hclosing =>
        obtain ⟨inner, rest, hinner, rfl, rfl⟩ := ih (by simp) h
        exact ⟨_, rest, hinner.char hquote hopening hclosing, by simp, by simp⟩

theorem balanced_eq_some_iff (hquote : opening ≠ '"') (hclosing : closing ≠ '"')
    (hne : closing ≠ opening) :
    balanced opening closing 0 false (opening :: text) [] = some raw ↔
      ∃ inner rest, Closes opening closing 1 inner ∧ text = inner ++ rest ∧
        raw = opening :: inner := by
  rw [balanced, if_neg hquote, if_pos rfl]
  constructor
  · intro h
    exact closes_of_balanced h
  · rintro ⟨inner, rest, hinner, rfl, rfl⟩
    exact balanced_of_closes hquote hclosing hne hinner

end Brackets

/-! ## Raw fields -/

/-- The token `find_raw_field` takes where a value starts. -/
inductive RawValue : Text → Text → Prop
  | string {body rest : Text} (h : Unquoted body) : RawValue ('"' :: (body ++ '"' :: rest)) body
  | object {inner rest : Text} (h : Closes '\x7b' '\x7d' 1 inner) :
      RawValue ('\x7b' :: (inner ++ rest)) ('\x7b' :: inner)
  | array {inner rest : Text} (h : Closes '[' ']' 1 inner) :
      RawValue ('[' :: (inner ++ rest)) ('[' :: inner)
  | token {c : Char} {token rest : Text} (hquote : c ≠ '"') (hbrace : c ≠ '\x7b')
      (hbracket : c ≠ '[') (htoken : ∀ d ∈ c :: token, endsToken d = false)
      (hend : ∀ d ∈ rest.head?, endsToken d = true) (hne : trimChars (c :: token) ≠ []) :
      RawValue (c :: (token ++ rest)) (trimChars (c :: token))

def RawField (key line raw : Text) : Prop := ∃ value, FirstPlace key line value ∧ RawValue value raw

theorem rawValue_string_iff :
    RawValue ('"' :: text) raw ↔ ∃ rest, Unquoted raw ∧ text = raw ++ '"' :: rest := by
  constructor
  · intro h
    cases h with
    | string h => exact ⟨_, h, rfl⟩
    | token hquote => exact absurd rfl hquote
  · rintro ⟨rest, h, rfl⟩
    exact .string h

theorem rawValue_object_iff : RawValue ('\x7b' :: text) raw ↔
      ∃ inner rest, Closes '\x7b' '\x7d' 1 inner ∧ text = inner ++ rest ∧
        raw = '\x7b' :: inner := by
  constructor
  · intro h
    cases h with
    | object h => exact ⟨_, _, h, rfl, rfl⟩
    | token hquote hbrace => exact absurd rfl hbrace
  · rintro ⟨inner, rest, h, rfl, rfl⟩
    exact .object h

theorem rawValue_array_iff : RawValue ('[' :: text) raw ↔
      ∃ inner rest, Closes '[' ']' 1 inner ∧ text = inner ++ rest ∧ raw = '[' :: inner := by
  constructor
  · intro h
    cases h with
    | array h => exact ⟨_, _, h, rfl, rfl⟩
    | token hquote hbrace hbracket => exact absurd rfl hbracket
  · rintro ⟨inner, rest, h, rfl, rfl⟩
    exact .array h

theorem takeWhile_token {token : Text} (htoken : ∀ d ∈ token, endsToken d = false)
    (hend : ∀ d ∈ rest.head?, endsToken d = true) :
    (token ++ rest).takeWhile (fun c => !endsToken c) = token := by
  rw [takeWhile_append_of_pos fun d hd => by simp [htoken d hd]]
  cases rest with
  | nil => simp
  | cons d rest => rw [takeWhile_cons_of_neg (by simp [hend d rfl]), append_nil]

theorem rawValue_token_iff (hquote : c ≠ '"') (hbrace : c ≠ '\x7b') (hbracket : c ≠ '[') :
    RawValue (c :: text) raw ↔
      raw = trimChars ((c :: text).takeWhile fun c => !endsToken c) ∧ raw ≠ [] := by
  constructor
  · intro h
    cases h with
    | string => exact absurd rfl hquote
    | object => exact absurd rfl hbrace
    | array => exact absurd rfl hbracket
    | token _ _ _ htoken hend hne =>
      rw [← cons_append, takeWhile_token htoken hend]
      exact ⟨rfl, hne⟩
  · rintro ⟨rfl, hne⟩
    cases hc : endsToken c with
    | true =>
      rw [takeWhile_cons_of_neg (by simp [hc])] at hne
      exact absurd rfl hne
    | false =>
      have hsplit : c :: text = c :: (text.takeWhile (fun c => !endsToken c) ++
          text.dropWhile fun c => !endsToken c) := by
        rw [takeWhile_append_dropWhile]
      have htake : (c :: text).takeWhile (fun c => !endsToken c) =
          c :: text.takeWhile fun c => !endsToken c :=
        takeWhile_cons_of_pos (by simp [hc])
      rw [htake] at hne ⊢
      rw [hsplit]
      refine .token hquote hbrace hbracket (fun d hd => ?_) (fun d hd => ?_) hne
      · rw [← htake] at hd
        simpa using mem_takeWhile_imp hd
      · have hhead := List.head?_dropWhile_not (fun c => !endsToken c) text
        rw [hd] at hhead
        simpa using hhead

theorem findRawField_eq_some_iff : findRawField line key = some raw ↔ RawField key line raw := by
  have hfield : RawField key line raw ↔ ∃ value, valueOffset key line = some value ∧
      RawValue value raw := by
    simp only [RawField, valueOffset_eq_some_iff]
  rw [hfield, findRawField]
  cases valueOffset key line with
  | none => simp
  | some value =>
    simp only [Option.some.injEq, exists_eq_left']
    cases value with
    | nil =>
      refine ⟨fun h => ?_, fun h => ?_⟩ <;> cases h
    | cons c value =>
      split
      next h => cases h
      next h => cases h
      next h =>
        obtain ⟨rfl, rfl⟩ := cons.inj (Option.some.inj h)
        rw [rawString_eq_some_iff, rawValue_string_iff]
      next h =>
        obtain ⟨rfl, rfl⟩ := cons.inj (Option.some.inj h)
        rw [balanced_eq_some_iff (by decide) (by decide) (by decide), rawValue_object_iff]
      next h =>
        obtain ⟨rfl, rfl⟩ := cons.inj (Option.some.inj h)
        rw [balanced_eq_some_iff (by decide) (by decide) (by decide), rawValue_array_iff]
      next hquote hbrace hbracket h =>
        obtain rfl := Option.some.inj h
        rw [rawValue_token_iff (fun hc => hquote _ (by rw [hc])) (fun hc => hbrace _ (by rw [hc]))
          fun hc => hbracket _ (by rw [hc])]
        generalize trimChars ((c :: value).takeWhile fun c => !endsToken c) = token
        cases token with
        | nil => simp
        | cons d token =>
          simp only [isEmpty_cons, Bool.false_eq_true, if_false, Option.some.injEq]
          refine ⟨?_, fun h => h.1.symm⟩
          rintro rfl
          exact ⟨rfl, by simp⟩

def ObjectField (key line object : Text) : Prop :=
  RawField key line object ∧ ∃ rest, object = '\x7b' :: rest

theorem findObjectField_eq_some_iff {object : Text} :
    findObjectField line key = some object ↔ ObjectField key line object := by
  rw [ObjectField, ← findRawField_eq_some_iff, findObjectField]
  split
  next rest hraw =>
    rw [hraw]
    exact ⟨fun h => ⟨h, rest, (some.inj h).symm⟩, And.left⟩
  next hother =>
    refine ⟨fun h => (nomatch h), ?_⟩
    rintro ⟨hraw, rest, rfl⟩
    exact absurd hraw (hother rest)

/-! ## The objects of an array -/

/-- The objects a text is split into: each is taken up to the brace that closes it, and a string is
passed over, to the end of the text if it is not closed. -/
inductive Objects : Text → List Text → Prop
  | nil : Objects [] []
  | object {inner rest : Text} {objects : List Text} (hinner : Closes '\x7b' '\x7d' 1 inner)
      (h : Objects rest objects) :
      Objects ('\x7b' :: (inner ++ rest)) (('\x7b' :: inner) :: objects)
  | string {body rest : Text} {objects : List Text} (hbody : Unquoted body)
      (h : Objects rest objects) : Objects ('"' :: (body ++ '"' :: rest)) objects
  | unclosed {text : Text} (h : Unclosed text) :
      Objects ('"' :: text) []
  | char {c : Char} {rest : Text} {objects : List Text} (hbrace : c ≠ '\x7b') (hquote : c ≠ '"')
      (h : Objects rest objects) : Objects (c :: rest) objects

theorem splitObjects_nil (passes : Nat) : splitObjects passes [] = some [] := by
  cases passes <;> rfl

variable {objects : List Text}

theorem splitObjects_of_objects {passes : Nat} (h : Objects text objects)
    (hpasses : text.length ≤ passes) : splitObjects passes text = some objects := by
  induction h generalizing passes with
  | nil => exact splitObjects_nil passes
  | @object inner rest objects hinner h ih =>
    obtain ⟨passes, rfl⟩ : ∃ k, passes = k + 1 := ⟨passes - 1, by simp at hpasses; omega⟩
    have hread : balanced '\x7b' '\x7d' 0 false ('\x7b' :: (inner ++ rest)) [] =
        some ('\x7b' :: inner) :=
      (balanced_eq_some_iff (by decide) (by decide) (by decide)).mpr ⟨inner, rest, hinner, rfl, rfl⟩
    rw [splitObjects, if_pos rfl, hread]
    dsimp only
    rw [length_cons, drop_succ_cons, drop_left, ih (by simp at hpasses; omega)]
    rfl
  | @string body rest objects hbody h ih =>
    obtain ⟨passes, rfl⟩ : ∃ k, passes = k + 1 := ⟨passes - 1, by simp at hpasses; omega⟩
    rw [splitObjects, if_neg (by decide), if_pos rfl, afterString_of_unquoted hbody]
    exact ih (by simp at hpasses; omega)
  | unclosed hopen =>
    obtain ⟨passes, rfl⟩ : ∃ k, passes = k + 1 := ⟨passes - 1, by simp at hpasses; omega⟩
    rw [splitObjects, if_neg (by decide), if_pos rfl, afterString_of_open hopen, splitObjects_nil]
  | char hbrace hquote h ih =>
    obtain ⟨passes, rfl⟩ : ∃ k, passes = k + 1 := ⟨passes - 1, by simp at hpasses; omega⟩
    rw [splitObjects, if_neg hbrace, if_neg hquote]
    exact ih (by simp at hpasses; omega)

theorem objects_of_splitObjects {passes : Nat} (hpasses : text.length ≤ passes)
    (h : splitObjects passes text = some objects) : Objects text objects := by
  induction passes generalizing text objects with
  | zero =>
    obtain rfl : text = [] := eq_nil_of_length_eq_zero (by omega)
    cases h
    exact .nil
  | succ passes ih =>
    cases text with
    | nil =>
      cases h
      exact .nil
    | cons c text =>
      have htext : text.length ≤ passes := by simpa using hpasses
      rw [splitObjects] at h
      split at h
      next hc =>
        subst hc
        cases hread : balanced '\x7b' '\x7d' 0 false ('\x7b' :: text) [] with
        | none => simp [hread] at h
        | some object =>
          obtain ⟨inner, rest, hinner, rfl, rfl⟩ :=
            (balanced_eq_some_iff (by decide) (by decide) (by decide)).mp hread
          rw [hread] at h
          obtain ⟨more, hmore, rfl⟩ := map_eq_some_iff.mp h
          rw [length_cons, drop_succ_cons, drop_left] at hmore
          exact .object hinner (ih (by simp at htext; omega) hmore)
      next hbrace =>
      split at h
      next hc =>
        subst hc
        rcases unquoted_or_open text with ⟨body, rest, hbody, rfl⟩ | hopen
        · rw [afterString_of_unquoted hbody] at h
          exact .string hbody (ih (by simp at htext; omega) h)
        · rw [afterString_of_open hopen, splitObjects_nil] at h
          cases h
          exact .unclosed hopen
      next hquote => exact .char hbrace hquote (ih htext h)

theorem splitArrayObjects_eq_ok_iff {array : Text} :
    splitArrayObjects array = .ok objects ↔ Objects array objects := by
  rw [splitArrayObjects]
  constructor
  · intro h
    refine objects_of_splitObjects le_rfl ?_
    split at h <;> simp_all
  · intro h
    rw [splitObjects_of_objects h le_rfl]

/-! ## String fields -/

inductive Units : Text → Text → Prop
  | nil : Units [] []
  | plain {c : Char} {front chars : Text} (hquote : c ≠ '"') (hescape : c ≠ '\\')
      (h : Units front chars) : Units (c :: front) (c :: chars)
  | escape {letter c : Char} {front chars : Text} (hletter : simpleEscape letter = some c)
      (h : Units front chars) : Units ('\\' :: letter :: front) (c :: chars)
  | unicode {a b c d e : Char} {front chars : Text}
      (hascii : ([a, b, c, d].all fun x => x.utf8Size = 1) = true)
      (hcode : (fromHex [a, b, c, d]).bind charOfCode = some e) (h : Units front chars) :
      Units ('\\' :: 'u' :: a :: b :: c :: d :: front) (e :: chars)

/-- Behind characters and escapes stands a `\u` whose next four bytes end inside a character. -/
def CutEscape (text : Text) : Prop :=
  ∃ front chars rest, Units front chars ∧ text = front ++ '\\' :: 'u' :: rest ∧ 4 ≤ byteLen rest ∧
    boundaryAt 4 rest = false

def Reads (text part : Text) : Prop := ∃ front rest, Units front part ∧ text = front ++ '"' :: rest

variable {chars : Text}

theorem readString_units (h : Units front chars) :
    readString (front ++ rest) out = readString rest (chars.reverse ++ out) := by
  induction h generalizing out with
  | nil => rfl
  | plain hquote hescape h ih =>
    rw [cons_append, readString_cons hquote hescape, ih]
    simp
  | escape hletter h ih =>
    rw [cons_append, cons_append, readString_escape hletter, ih]
    simp
  | unicode hascii hcode h ih =>
    simp only [cons_append]
    rw [readString, if_pos hascii, hcode]
    dsimp only
    rw [ih]
    simp

theorem boundaryAt_four {a b d : Char} (h : ([a, b, c, d].all fun x => x.utf8Size = 1) = true)
    (rest : Text) : boundaryAt 4 (a :: b :: c :: d :: rest) = true := by
  simp only [all_cons, all_nil, Bool.and_eq_true, decide_eq_true_eq, and_true] at h
  obtain ⟨ha, hb, hc, hd⟩ := h
  simp [boundaryAt, ha, hb, hc, hd]

theorem readString_bad (h : ∀ a b c d more, rest = a :: b :: c :: d :: more →
      ([a, b, c, d].all fun x => x.utf8Size = 1) = false) :
    readString ('\\' :: 'u' :: rest) out = badSlice rest := by
  by_cases hfour : ∃ a b c d more, rest = a :: b :: c :: d :: more
  · obtain ⟨a, b, c, d, more, rfl⟩ := hfour
    have hascii := h a b c d more rfl
    rw [readString, hascii]
    rfl
  · rw [readString]
    · exact fun a b c d more heq => hfour ⟨a, b, c, d, more, heq⟩

theorem readString_cut (hlength : 4 ≤ byteLen rest) (h : boundaryAt 4 rest = false) :
    readString ('\\' :: 'u' :: rest) out = .error .midCharacter := by
  rw [readString_bad, badSlice, if_neg (Nat.not_lt.mpr hlength), h]
  · rfl
  · rintro a b c d more rfl
    refine Bool.eq_false_iff.mpr fun hascii => ?_
    rw [boundaryAt_four hascii more] at h
    cases h

variable {part : Text}

theorem Units.append {back more : Text} (h : Units front chars) (hback : Units back more) :
    Units (front ++ back) (chars ++ more) := by
  induction h with
  | nil => exact hback
  | plain hquote hescape h ih => exact .plain hquote hescape ih
  | escape hletter h ih => exact .escape hletter ih
  | unicode hascii hcode h ih => exact .unicode hascii hcode ih

def StringRead (text out : Text) : Prop :=
  (∃ part, Reads text part ∧ readString text out = .ok (some (out.reverse ++ part))) ∨
    (CutEscape text ∧ readString text out = .error .midCharacter) ∨
    readString text out = .ok none

theorem StringRead.units (hfront : Units front chars)
    (h : StringRead rest (chars.reverse ++ out)) : StringRead (front ++ rest) out := by
  rw [StringRead, readString_units hfront]
  rcases h with ⟨part, ⟨back, after, hback, rfl⟩, hread⟩ |
    ⟨⟨back, more, after, hback, rfl, hlength, hcut⟩, hread⟩ | hread
  · exact .inl ⟨_, ⟨_, after, hfront.append hback, by simp⟩, by simp [hread]⟩
  · exact .inr (.inl ⟨⟨_, _, after, hfront.append hback, by simp, hlength, hcut⟩, hread⟩)
  · exact .inr (.inr hread)

theorem StringRead.bad (h : ∀ a b c d more, rest = a :: b :: c :: d :: more →
      ([a, b, c, d].all fun x => x.utf8Size = 1) = false) :
    StringRead ('\\' :: 'u' :: rest) out := by
  rw [StringRead, readString_bad h, badSlice]
  split
  · exact .inr (.inr rfl)
  next hlength =>
    split
    · exact .inr (.inr rfl)
    next hcut =>
      exact .inr (.inl ⟨⟨[], [], rest, .nil, rfl, Nat.not_lt.mp hlength, by simpa using hcut⟩, rfl⟩)

theorem stringRead (text out : Text) : StringRead text out := by
  induction text, out using readString.induct with
  | case1 out => exact .inr (.inr rfl)
  | case2 rest out => exact .inl ⟨[], ⟨[], rest, .nil, rfl⟩, by simp [readString]⟩
  | case3 out => exact .inr (.inr rfl)
  | case4 a b c d rest out hascii e hcode ih => exact ih.units (.unicode hascii hcode .nil)
  | case5 a b c d rest out hascii hcode =>
    refine .inr (.inr ?_)
    rw [readString, if_pos hascii, hcode]
  | case6 a b c d rest out hascii =>
    refine StringRead.bad ?_
    rintro a' b' c' d' more ⟨⟩
    simpa using hascii
  | case7 rest out hfour =>
    exact StringRead.bad fun a b c d more heq => (hfour a b c d more heq).elim
  | case8 letter rest out hfour hu c hletter ih => exact ih.units (.escape hletter .nil)
  | case9 letter rest out hfour hu hletter =>
    refine .inr (.inr ?_)
    rw [readString, hletter]
    all_goals simp_all
  | case10 c rest out hquote hopen hfour hu hescape ih =>
    have he : c ≠ '\\' := fun heq => by cases rest <;> simp_all
    exact ih.units (.plain hquote he .nil)

theorem readString_eq_some_iff : readString text [] = .ok (some part) ↔ Reads text part := by
  constructor
  · intro h
    rcases stringRead text [] with ⟨part', hpart, hread⟩ | ⟨-, hread⟩ | hread <;>
      cases hread.symm.trans h
    exact hpart
  · rintro ⟨front, rest, hfront, rfl⟩
    rw [readString_units hfront]
    simp [readString]

theorem readString_panics_iff : (∃ panic, readString text out = .error panic) ↔ CutEscape text := by
  constructor
  · rintro ⟨panic, h⟩
    rcases stringRead text out with ⟨part, -, hread⟩ | ⟨hcut, -⟩ | hread
    · cases hread.symm.trans h
    · exact hcut
    · cases hread.symm.trans h
  · rintro ⟨front, chars, rest, hfront, rfl, hlength, hcut⟩
    rw [readString_units hfront, readString_cut hlength hcut]
    exact ⟨_, rfl⟩

def StringField (key line part : Text) : Prop :=
  ∃ value, FirstPlace key line ('"' :: value) ∧ Reads value part

def CutField (key line : Text) : Prop :=
  ∃ value, FirstPlace key line ('"' :: value) ∧ CutEscape value

theorem findStringField_string (h : FirstPlace key line ('"' :: value)) :
    findStringField line key = readString value [] := by
  rw [findStringField, valueOffset_eq_some_iff.mpr h]
  rfl

theorem findStringField_other (h : ∀ value, ¬FirstPlace key line ('"' :: value)) :
    findStringField line key = .ok none := by
  rw [findStringField]
  split
  next heq => exact absurd (valueOffset_eq_some_iff.mp heq) (h _)
  next => rfl

theorem findStringField_iff {P : Panicking (Option Text) → Prop} (hnone : ¬P (.ok none)) :
    P (findStringField line key) ↔
      ∃ value, FirstPlace key line ('"' :: value) ∧ P (readString value []) := by
  by_cases hplace : ∃ value, FirstPlace key line ('"' :: value)
  · obtain ⟨value, hplace⟩ := hplace
    rw [findStringField_string hplace]
    refine ⟨fun h => ⟨value, hplace, h⟩, ?_⟩
    rintro ⟨value', hplace', h⟩
    obtain ⟨-, rfl⟩ := cons.inj (hplace'.unique hplace)
    exact h
  · rw [findStringField_other fun value h => hplace ⟨value, h⟩]
    exact ⟨fun h => absurd h hnone, fun ⟨value, h, _⟩ => absurd ⟨value, h⟩ hplace⟩

theorem findStringField_eq_some_iff :
    findStringField line key = .ok (some part) ↔ StringField key line part := by
  simp only [StringField, ← readString_eq_some_iff]
  exact findStringField_iff (P := (· = .ok (some part))) (by simp)

theorem findStringField_panics_iff :
    (∃ panic, findStringField line key = .error panic) ↔ CutField key line := by
  simp only [CutField, ← fun value => @readString_panics_iff value []]
  exact findStringField_iff (P := fun read => ∃ panic, read = .error panic) (by simp)

/-! ## Text parts -/

def FirstBehind (pattern text after : Text) : Prop :=
  ∃ front, text = front ++ (pattern ++ after) ∧
    ∀ front' after', text = front' ++ (pattern ++ after') → front.length ≤ front'.length

variable {pattern : Text}

theorem searches_afterFirst (hpattern : pattern ≠ []) :
    Searches (fun text front after => text = front ++ (pattern ++ after)) (afterFirst pattern) where
  nil := by simp [hpattern]
  search_nil := rfl
  cons := by simp
  unique h h' := append_cancel_left (h.symm.trans h')
  step c text := by
    rw [afterFirst]
    by_cases hhere : pattern.isPrefixOf (c :: text) = true
    · obtain ⟨after, hafter⟩ := isPrefixOf_iff_prefix.mp hhere
      rw [if_pos hhere, ← hafter, drop_left]
      exact .inl ⟨after, rfl, rfl⟩
    · rw [if_neg hhere]
      exact .inr ⟨fun after heq => hhere ( isPrefixOf_iff_prefix.mpr ⟨after, heq.symm⟩), rfl⟩

variable {after : Text}

theorem afterFirst_eq_some_iff (hpattern : pattern ≠ []) :
    afterFirst pattern text = some after ↔ FirstBehind pattern text after :=
  (searches_afterFirst hpattern).eq_some_iff

/-- The value of the next part: behind the next `"text"`, behind the next colon, and behind white
space. -/
def PartAt (rest value : Text) : Prop :=
  ∃ afterKey afterColon, FirstBehind "\"text\"".toList rest afterKey ∧
    FirstBehind [':'] afterKey afterColon ∧ value = trimStart afterColon

def nextValue (rest : Text) : Option Text :=
  ((afterFirst "\"text\"".toList rest).bind (afterFirst [':'])).map trimStart

theorem nextValue_eq_some_iff : nextValue rest = some value ↔ PartAt rest value := by
  simp only [nextValue, PartAt, map_eq_some_iff, bind_eq_some_iff]
  constructor
  · rintro ⟨afterColon, ⟨afterKey, hkey, hcolon⟩, rfl⟩
    exact ⟨afterKey, afterColon, (afterFirst_eq_some_iff (by decide)).mp hkey,
      (afterFirst_eq_some_iff (by decide)).mp hcolon, rfl⟩
  · rintro ⟨afterKey, afterColon, hkey, hcolon, rfl⟩
    exact ⟨afterColon, ⟨afterKey, (afterFirst_eq_some_iff (by decide)).mpr hkey,
      (afterFirst_eq_some_iff (by decide)).mpr hcolon⟩, rfl⟩

variable {fuel : Nat} {collected : CollectedText}

theorem length_afterFirst {k : Char} {text : Text}
    (h : afterFirst (k :: pattern) text = some after) : after.length < text.length := by
  induction text with
  | nil => cases h
  | cons c text ih =>
    rw [afterFirst] at h
    split at h
    · cases h
      simp
    · have hlt := ih h
      simp
      omega

theorem length_nextValue (h : nextValue rest = some value) : value.length < rest.length := by
  obtain ⟨afterColon, hafter, rfl⟩ := map_eq_some_iff.mp h
  obtain ⟨afterKey, hkey, hcolon⟩ := bind_eq_some_iff.mp hafter
  have hkey : afterKey.length < rest.length := length_afterFirst (k := '"') hkey
  have hcolon := length_afterFirst hcolon
  have htrim : (trimStart afterColon).length ≤ afterColon.length := (dropWhile_sublist _).length_le
  omega

theorem length_afterString (text : Text) : (afterString text).length ≤ text.length := by
  induction text using afterString.induct <;> simp_all [afterString] <;> omega

theorem collectParts_none (h : nextValue rest = none) :
    collectParts fuel rest collected = .ok collected := by
  cases fuel with
  | zero => rfl
  | succ fuel =>
    rw [nextValue, Option.map_eq_none_iff] at h
    rw [collectParts, h]

/-- What `collect_text_parts` has collected behind one more part. -/
def CollectedText.add (collected : CollectedText) (part : Text) : CollectedText :=
  let len := collected.len + byteLen part
  ⟨if len ≤ maxCallResultBytes + 1 then collected.text ++ part else collected.text, len⟩

theorem collectParts_text (h : nextValue rest = some ('"' :: value)) :
    collectParts (fuel + 1) rest collected = (readString value []).bind fun part =>
      let collected := collected.add (part.getD [])
      if collected.len > maxCallResultBytes + 1 then .ok collected
      else collectParts fuel (afterString value) collected := by
  obtain ⟨afterColon, hafter, htrim⟩ := map_eq_some_iff.mp h
  rw [collectParts, hafter]
  simp only [htrim]
  rfl

theorem collectParts_skip (h : nextValue rest = some value) (hquote : value.head? ≠ some '"') :
    collectParts (fuel + 1) rest collected =
      (sliceFromOne value).bind fun back => collectParts fuel back collected := by
  obtain ⟨afterColon, hafter, rfl⟩ := Option.map_eq_some_iff.mp h
  rw [collectParts, hafter]
  dsimp only
  split
  next heq => simp [heq] at hquote
  next => rfl

def PartBytes (value : Text) (bytes : Nat) : Prop :=
  (∃ part, Reads value part ∧ bytes = byteLen part) ∨ (∀ part, ¬Reads value part) ∧ bytes = 0

def BehindString (value back : Text) : Prop :=
  (∃ body, Unquoted body ∧ value = body ++ '"' :: back) ∨
    (∀ body rest, Unquoted body → value ≠ body ++ '"' :: rest) ∧ back = []

/-- The parts that `collect_text_parts` cannot pass, with so many bytes collected: a string that
cuts a character, or another value whose first character is not one byte. -/
inductive PartsPanic : Text → Nat → Prop
  | cut {rest value : Text} {len : Nat} (hpart : PartAt rest ('"' :: value)) (h : CutEscape value) :
      PartsPanic rest len
  | none {rest : Text} {len : Nat} (hpart : PartAt rest []) : PartsPanic rest len
  | wide {rest value : Text} {c : Char} {len : Nat} (hpart : PartAt rest (c :: value))
      (hc : c.utf8Size ≠ 1) : PartsPanic rest len
  | text {rest value back : Text} {len bytes : Nat} (hpart : PartAt rest ('"' :: value))
      (hbytes : PartBytes value bytes) (hlen : len + bytes ≤ maxCallResultBytes + 1)
      (hback : BehindString value back) (h : PartsPanic back (len + bytes)) : PartsPanic rest len
  | skip {rest value : Text} {c : Char} {len : Nat} (hpart : PartAt rest (c :: value))
      (hquote : c ≠ '"') (h : PartsPanic value len) : PartsPanic rest len

theorem behindString_iff {back : Text} : BehindString value back ↔ back = afterString value := by
  rcases unquoted_or_open value with ⟨body, rest, hbody, rfl⟩ | hopen
  · rw [afterString_of_unquoted hbody]
    constructor
    · rintro (⟨body', hbody', heq⟩ | ⟨hopen, -⟩)
      · have hback := congrArg afterString heq
        rwa [afterString_of_unquoted hbody, afterString_of_unquoted hbody', eq_comm] at hback
      · exact absurd rfl (hopen body rest hbody)
    · rintro rfl
      exact .inl ⟨body, hbody, rfl⟩
  · rw [afterString_of_open hopen]
    constructor
    · rintro (⟨body, hbody, heq⟩ | ⟨-, h⟩)
      · exact absurd heq (hopen body back hbody)
      · exact h
    · exact fun h => .inr ⟨hopen, h⟩

theorem Reads.unique {part' : Text} (h : Reads text part) (h' : Reads text part') :
    part = part' := by
  have hread := readString_eq_some_iff.mpr h
  rw [readString_eq_some_iff.mpr h'] at hread
  exact (some.inj (Except.ok.inj hread)).symm

theorem partBytes_iff {part : Option Text} {bytes : Nat} (h : readString value [] = .ok part) :
    PartBytes value bytes ↔ bytes = byteLen (part.getD []) := by
  cases part with
  | some part =>
    have hpart := readString_eq_some_iff.mp h
    constructor
    · rintro (⟨part', hpart', rfl⟩ | ⟨hnone, -⟩)
      · rw [hpart'.unique hpart]
        rfl
      · exact absurd hpart (hnone part)
    · rintro rfl
      exact .inl ⟨part, hpart, rfl⟩
  | none =>
    have hnone : ∀ part, ¬Reads value part := by
      intro part hpart
      rw [readString_eq_some_iff.mpr hpart] at h
      cases h
    constructor
    · rintro (⟨part, hpart, -⟩ | ⟨-, rfl⟩)
      · exact absurd hpart (hnone part)
      · rfl
    · rintro rfl
      exact .inr ⟨hnone, rfl⟩

theorem CollectedText.len_add (collected : CollectedText) (part : Text) :
    (collected.add part).len = collected.len + byteLen part := rfl

theorem panics_bind {α β : Type} {x : Panicking α} {f : α → Panicking β} :
    (∃ panic, x.bind f = .error panic) ↔
      (∃ panic, x = .error panic) ∨ ∃ a, x = .ok a ∧ ∃ panic, f a = .error panic := by
  cases x <;> simp [Except.bind]

theorem PartAt.unique {value' : Text} (h : PartAt rest value) (h' : PartAt rest value') :
    value = value' := by
  have hnext := nextValue_eq_some_iff.mpr h
  rw [nextValue_eq_some_iff.mpr h'] at hnext
  cases hnext
  rfl

variable {len : Nat}

theorem PartsPanic.partAt (h : PartsPanic rest len) : ∃ value, PartAt rest value := by
  cases h with
  | cut hpart | none hpart | wide hpart | text hpart | skip hpart => exact ⟨_, hpart⟩

theorem partsPanic_string_iff (hpart : PartAt rest ('"' :: value)) :
    PartsPanic rest len ↔ CutEscape value ∨ ∃ bytes back, PartBytes value bytes ∧
      len + bytes ≤ maxCallResultBytes + 1 ∧ BehindString value back ∧
        PartsPanic back (len + bytes) := by
  constructor
  · intro h
    cases h with
    | cut hpart' h =>
      obtain ⟨-, rfl⟩ := cons.inj (hpart'.unique hpart)
      exact .inl h
    | none hpart' => cases hpart'.unique hpart
    | wide hpart' hc =>
      obtain ⟨rfl, -⟩ := cons.inj (hpart'.unique hpart)
      exact absurd (by decide) hc
    | text hpart' hbytes hlen hback h =>
      obtain ⟨-, rfl⟩ := cons.inj (hpart'.unique hpart)
      exact .inr ⟨_, _, hbytes, hlen, hback, h⟩
    | skip hpart' hquote h => exact absurd (cons.inj (hpart'.unique hpart)).1 hquote
  · rintro (h | ⟨bytes, back, hbytes, hlen, hback, h⟩)
    · exact .cut hpart h
    · exact .text hpart hbytes hlen hback h

theorem partsPanic_other_iff (hpart : PartAt rest (c :: value))
    (hquote : c ≠ '"') : PartsPanic rest len ↔ c.utf8Size ≠ 1 ∨ PartsPanic value len := by
  constructor
  · intro h
    cases h with
    | cut hpart' h => exact absurd (cons.inj (hpart.unique hpart')).1 hquote
    | none hpart' => cases hpart'.unique hpart
    | wide hpart' hc =>
      obtain ⟨rfl, -⟩ := cons.inj (hpart'.unique hpart)
      exact .inl hc
    | text hpart' => exact absurd (cons.inj (hpart.unique hpart')).1 hquote
    | skip hpart' _ h =>
      obtain ⟨-, rfl⟩ := cons.inj (hpart'.unique hpart)
      exact .inr h
  · rintro (hc | h)
    · exact .wide hpart hc
    · exact .skip hpart hquote h

theorem collectParts_panics_none (h : nextValue rest = none) :
    (∃ panic, collectParts fuel rest collected = .error panic) ↔ PartsPanic rest collected.len := by
  rw [collectParts_none h]
  refine iff_of_false (fun ⟨_, h⟩ => (nomatch h)) fun hpanic => ?_
  obtain ⟨value, hpart⟩ := hpanic.partAt
  cases h.symm.trans (nextValue_eq_some_iff.mpr hpart)

theorem collectParts_panics_iff (hfuel : rest.length ≤ fuel) :
    (∃ panic, collectParts fuel rest collected = .error panic) ↔ PartsPanic rest collected.len := by
  induction fuel generalizing rest collected with
  | zero =>
    obtain rfl : rest = [] := eq_nil_of_length_eq_zero (by omega)
    exact collectParts_panics_none rfl
  | succ fuel ih =>
    cases hnext : nextValue rest with
    | none => exact collectParts_panics_none hnext
    | some value =>
      have hpart := nextValue_eq_some_iff.mp hnext
      have hshort := length_nextValue hnext
      cases value with
      | nil =>
        rw [collectParts_skip hnext (by simp)]
        exact ⟨fun _ => .none hpart, fun _ => ⟨_, rfl⟩⟩
      | cons c value =>
        rw [length_cons] at hshort
        by_cases hquote : c = '"'
        · subst hquote
          have hback := length_afterString value
          rw [collectParts_text hnext, panics_bind, readString_panics_iff,
            partsPanic_string_iff hpart]
          by_cases hcut : CutEscape value
          · exact ⟨fun _ => .inl hcut, fun _ => .inl hcut⟩
          obtain ⟨part, hread⟩ : ∃ part, readString value [] = .ok part := by
            cases hread : readString value [] with
            | error panic => exact absurd (readString_panics_iff.mp ⟨panic, hread⟩) hcut
            | ok part => exact ⟨part, rfl⟩
          have hgo := @ih (afterString value) (collected.add (part.getD [])) (by omega)
          simp only [hcut, false_or, hread, Except.ok.injEq, exists_eq_left', partBytes_iff hread,
            behindString_iff, exists_eq_left, exists_and_left]
          rw [CollectedText.len_add] at hgo ⊢
          by_cases hlen : collected.len + byteLen (part.getD []) ≤ maxCallResultBytes + 1
          · rw [if_neg (by omega), hgo]
            exact ⟨fun h => ⟨hlen, h⟩, fun h => h.2⟩
          · rw [if_pos (by omega)]
            exact ⟨fun ⟨_, h⟩ => (nomatch h), fun h => absurd h.1 hlen⟩
        · rw [collectParts_skip hnext (by simpa using hquote), partsPanic_other_iff hpart hquote,
            sliceFromOne]
          by_cases hc : c.utf8Size = 1
          · rw [if_pos hc, or_iff_right (not_not.mpr hc)]
            exact @ih value collected (by omega)
          · rw [if_neg hc]
            exact ⟨fun _ => .inl hc, fun _ => ⟨_, rfl⟩⟩

end BittyAi.Mcp
