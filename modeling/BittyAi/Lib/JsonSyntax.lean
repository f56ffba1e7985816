/-
BittyAi.Lib.JsonSyntax — JSON texts as trees of the grammar of RFC 8259.

A tree keeps what was written: the white space, the token of a number, the escapes of a
string. So `text` of a tree is one text, and a text is JSON when it is that of a tree. Every
part carries the condition of its rule, and a tree that breaks the grammar cannot be built.
-/
import Mathlib
import BittyAi.Lib.JsonText

namespace BittyAi.Lib.JsonSyntax

open List

/-! ## White space -/

def isWs (c : Char) : Bool := c = ' ' || c = '\t' || c = '\n' || c = '\r'

structure Ws where
  text : List Char
  blank : ∀ c ∈ text, isWs c = true

def Ws.none : Ws := ⟨[], by simp⟩

@[simp] theorem Ws.text_none : Ws.none.text = [] := rfl

/-- Where characters of one kind end, a text splits in one way only. -/
theorem span_inj {p : Char → Bool} {s t x y : List Char} (hs : ∀ c ∈ s, p c = true)
    (ht : ∀ c ∈ t, p c = true) (hx : ∀ c ∈ x.head?, p c = false)
    (hy : ∀ c ∈ y.head?, p c = false) (h : s ++ x = t ++ y) : s = t ∧ x = y := by
  have htake : ∀ {front back : List Char}, (∀ c ∈ front, p c = true) →
      (∀ c ∈ back.head?, p c = false) → (front ++ back).takeWhile p = front := by
    intro front back hfront hback
    rw [takeWhile_append_of_pos hfront]
    cases back with
    | nil => simp
    | cons c back => rw [takeWhile_cons_of_neg (by simp [hback c rfl]), append_nil]
  have hst : s = t := by rw [← htake hs hx, h, htake ht hy]
  exact ⟨hst, append_cancel_left (hst ▸ h)⟩

variable {x y : List Char}

theorem Ws.append_inj {w w' : Ws} {c d : Char} (hc : isWs c = false)
    (hd : isWs d = false) (h : w.text ++ c :: x = w'.text ++ d :: y) :
    w = w' ∧ c = d ∧ x = y := by
  obtain ⟨hw, hrest⟩ := span_inj w.blank w'.blank (by simpa using hc) (by simpa using hd) h
  refine ⟨?_, cons.inj hrest⟩
  cases w
  cases w'
  cases hw
  rfl

theorem Ws.eq_none {w : Ws} {c d : Char} (hc : isWs c = false)
    (hd : isWs d = false) (h : w.text ++ c :: x = d :: y) : w = Ws.none ∧ c = d ∧ x = y :=
  Ws.append_inj hc hd (show w.text ++ c :: x = Ws.none.text ++ d :: y from h)

/-! ## Strings -/

def escapeValue (letter : Char) : Option Char :=
  if letter = '"' then some '"'
  else if letter = '\\' then some '\\'
  else if letter = '/' then some '/'
  else if letter = 'b' then some '\x08'
  else if letter = 'f' then some '\x0c'
  else if letter = 'n' then some '\n'
  else if letter = 'r' then some '\r'
  else if letter = 't' then some '\t'
  else none

def hexValue (c : Char) : Option Nat :=
  if '0' ≤ c ∧ c ≤ '9' then some (c.toNat - 48)
  else if 'a' ≤ c ∧ c ≤ 'f' then some (c.toNat - 87)
  else if 'A' ≤ c ∧ c ≤ 'F' then some (c.toNat - 55)
  else none

def IsPlain (c : Char) : Prop := 0x20 ≤ c.toNat ∧ c ≠ '"' ∧ c ≠ '\\'

instance (c : Char) : Decidable (IsPlain c) := inferInstanceAs (Decidable (_ ∧ _ ∧ _))

structure HexDigit where
  char : Char
  value : Nat
  reads : hexValue char = some value

inductive Piece where
  | plain (c : Char) (h : IsPlain c)
  | escape (letter value : Char) (h : escapeValue letter = some value)
  | unicode (a b c d : HexDigit)

namespace Piece

def text : Piece → List Char
  | plain c _ => [c]
  | escape letter _ _ => ['\\', letter]
  | unicode a b c d => ['\\', 'u', a.char, b.char, c.char, d.char]

def unit (a b c d : HexDigit) : Nat := ((a.value * 16 + b.value) * 16 + c.value) * 16 + d.value

end Piece

def bodyText (body : List Piece) : List Char := body.flatMap Piece.text

def stringText (body : List Piece) : List Char := '"' :: bodyText body ++ ['"']

@[simp] theorem bodyText_nil : bodyText [] = [] := rfl

@[simp] theorem bodyText_cons (piece : Piece) (body : List Piece) :
    bodyText (piece :: body) = piece.text ++ bodyText body := rfl

theorem stringText_append (body : List Piece) (x : List Char) :
    stringText body ++ x = '"' :: (bodyText body ++ '"' :: x) := by
  simp [stringText]

def charOf (code : Nat) : Option Char :=
  if h : code.isValidChar then some (Char.ofNatAux code h) else none

def pairCode (high low : Nat) : Option Nat :=
  if 0xD800 ≤ high ∧ high < 0xDC00 ∧ 0xDC00 ≤ low ∧ low < 0xE000 then
    some (0x10000 + (high - 0xD800) * 0x400 + (low - 0xDC00))
  else none

def decode : List Piece → Option (List Char)
  | [] => some []
  | .plain c _ :: body => (decode body).map (c :: ·)
  | .escape _ value _ :: body => (decode body).map (value :: ·)
  | .unicode a b c d :: body =>
    match charOf (Piece.unit a b c d) with
    | some char => (decode body).map (char :: ·)
    | none =>
      match body with
      | .unicode a' b' c' d' :: body =>
        match (pairCode (Piece.unit a b c d) (Piece.unit a' b' c' d')).bind charOf with
        | some char => (decode body).map (char :: ·)
        | none => none
      | _ => none

theorem Piece.text_head (piece : Piece) :
    ∃ c rest, piece.text = c :: rest ∧ c ≠ '"' ∧ (c = '\\' ∨ IsPlain c ∧ rest = []) := by
  cases piece with
  | plain c h => exact ⟨c, [], rfl, h.2.1, .inr ⟨h, rfl⟩⟩
  | escape | unicode => exact ⟨'\\', _, rfl, by decide, .inl rfl⟩

theorem escapeValue_letter {letter value : Char} (h : escapeValue letter = some value) :
    letter ∈ ['"', '\\', '/', 'b', 'f', 'n', 'r', 't'] := by
  unfold escapeValue at h
  iterate 8
    split at h
    next hletter => simp [hletter]
  cases h

theorem HexDigit.spec (d : HexDigit) :
    (48 ≤ d.char.toNat ∧ d.char.toNat ≤ 57) ∧ d.char.toNat - 48 = d.value ∨
      (97 ≤ d.char.toNat ∧ d.char.toNat ≤ 102) ∧ d.char.toNat - 87 = d.value ∨
      (65 ≤ d.char.toNat ∧ d.char.toNat ≤ 70) ∧ d.char.toNat - 55 = d.value := by
  have h := d.reads
  unfold hexValue at h
  split at h
  next hc => exact .inl ⟨hc, Option.some.inj h⟩
  split at h
  next hc => exact .inr (.inl ⟨hc, Option.some.inj h⟩)
  split at h
  next hc => exact .inr (.inr ⟨hc, Option.some.inj h⟩)
  next => cases h

theorem HexDigit.value_lt (d : HexDigit) : d.value < 16 := by
  have hspec := d.spec
  omega

theorem HexDigit.char_ne (d : HexDigit) {c : Char} (h : hexValue c = none) : d.char ≠ c := by
  intro hc
  have hreads := d.reads
  rw [hc, h] at hreads
  cases hreads

theorem HexDigit.plain (d : HexDigit) : IsPlain d.char :=
  ⟨by have hspec := d.spec; omega, d.char_ne (by decide), d.char_ne (by decide)⟩

theorem HexDigit.utf8Size_char (d : HexDigit) : d.char.utf8Size = 1 := by
  have hspec := d.spec
  have hle : d.char.toNat ≤ 127 := by omega
  exact Char.utf8Size_eq_one_iff.mpr hle

theorem Piece.text_ge (piece : Piece) : ∀ c ∈ piece.text, 0x20 ≤ c.toNat := by
  cases piece with
  | plain c h => simpa [text] using h.1
  | escape letter value h =>
    have hletter : 0x20 ≤ letter.toNat := by
      have hmem := escapeValue_letter h
      revert hmem
      generalize letter = l
      simp only [mem_cons, not_mem_nil, or_false]
      rintro (rfl | rfl | rfl | rfl | rfl | rfl | rfl | rfl) <;> decide
    simpa [text] using hletter
  | unicode a b c d =>
    have hdigit : ∀ x : HexDigit, 0x20 ≤ x.char.toNat := fun x => x.plain.1
    simp [text, hdigit]

theorem bodyText_ge (body : List Piece) : ∀ c ∈ bodyText body, 0x20 ≤ c.toNat := by
  intro c hc
  obtain ⟨piece, -, hpiece⟩ := mem_flatMap.mp hc
  exact piece.text_ge c hpiece

theorem HexDigit.ext_char {a b : HexDigit} (h : a.char = b.char) : a = b := by
  obtain ⟨char, value, reads⟩ := a
  obtain ⟨char', value', reads'⟩ := b
  dsimp only at h
  subst h
  have hvalue : value = value' := by
    rw [reads] at reads'
    exact Option.some.inj reads'
  subst hvalue
  rfl

theorem Piece.append_inj {p q : Piece} (h : p.text ++ x = q.text ++ y) :
    p = q ∧ x = y := by
  cases p with
  | plain c hc =>
    cases q with
    | plain d hd =>
      rw [text, text, cons_append, cons_append, List.cons.injEq] at h
      obtain ⟨rfl, hxy⟩ := h
      exact ⟨rfl, hxy⟩
    | escape | unicode => exact absurd (cons.inj h).1 hc.2.2
  | escape letter value hc =>
    cases q with
    | plain d hd => exact absurd (cons.inj h).1.symm hd.2.2
    | escape letter' value' hd =>
      obtain ⟨hletter, hxy⟩ := cons.inj (cons.inj h).2
      subst hletter
      have hvalue : value = value' := by
        rw [hc] at hd
        exact Option.some.inj hd
      subst hvalue
      exact ⟨rfl, hxy⟩
    | unicode a b c d =>
      have hletter := (cons.inj (cons.inj h).2).1
      subst hletter
      cases hc
  | unicode a b c d =>
    cases q with
    | plain d hd => exact absurd (cons.inj h).1.symm hd.2.2
    | escape letter value hd =>
      have hletter := (cons.inj (cons.inj h).2).1
      subst hletter
      cases hd
    | unicode a' b' c' d' =>
      simp only [text, cons_append, nil_append, List.cons.injEq, true_and] at h
      obtain ⟨ha, hb, hc, hd, hxy⟩ := h
      rw [HexDigit.ext_char ha, HexDigit.ext_char hb, HexDigit.ext_char hc, HexDigit.ext_char hd]
      exact ⟨rfl, hxy⟩

theorem bodyText_append_inj {body body' : List Piece}
    (h : bodyText body ++ '"' :: x = bodyText body' ++ '"' :: y) : body = body' ∧ x = y := by
  induction body generalizing body' with
  | nil =>
    cases body' with
    | nil => simpa using h
    | cons q body' =>
      obtain ⟨c, rest, hq, hquote, -⟩ := q.text_head
      rw [bodyText_cons, hq] at h
      exact absurd (cons.inj h).1.symm hquote
  | cons p body ih =>
    cases body' with
    | nil =>
      obtain ⟨c, rest, hp, hquote, -⟩ := p.text_head
      rw [bodyText_cons, hp] at h
      exact absurd (cons.inj h).1 hquote
    | cons q body' =>
      rw [bodyText_cons, bodyText_cons, append_assoc, append_assoc] at h
      obtain ⟨rfl, hrest⟩ := Piece.append_inj h
      obtain ⟨rfl, hxy⟩ := ih hrest
      exact ⟨rfl, hxy⟩

/-! ## Writing a string -/

def HexDigit.ofFin (n : Fin 16) : HexDigit :=
  ⟨if n.val < 10 then Char.ofNat (48 + n.val) else Char.ofNat (87 + n.val), n.val, by
    revert n
    decide⟩

/-- A character as `jsonChar` writes it. -/
def Piece.ofChar (c : Char) : Piece :=
  if c = '"' then .escape '"' '"' rfl
  else if c = '\\' then .escape '\\' '\\' rfl
  else if c = '\x08' then .escape 'b' '\x08' rfl
  else if c = '\t' then .escape 't' '\t' rfl
  else if c = '\n' then .escape 'n' '\n' rfl
  else if c = '\x0c' then .escape 'f' '\x0c' rfl
  else if c = '\r' then .escape 'r' '\r' rfl
  else if h : c.toNat < 0x20 then
    .unicode (HexDigit.ofFin 0) (HexDigit.ofFin 0) (HexDigit.ofFin ⟨c.toNat / 16, by omega⟩)
      (HexDigit.ofFin ⟨c.toNat % 16, by omega⟩)
  else if hplain : IsPlain c then .plain c hplain
  else .escape '"' '"' rfl

def ofText (text : List Char) : List Piece := text.map Piece.ofChar

theorem text_ofChar (c : Char) : (Piece.ofChar c).text = jsonChar c := by
  unfold Piece.ofChar jsonChar
  iterate 7
    split
    next => rfl
  split
  next => rfl
  next hquote hescape _ _ _ _ _ hcontrol =>
    have hplain : IsPlain c := ⟨Nat.not_lt.mp hcontrol, hquote, hescape⟩
    rw [dif_pos hplain]
    rfl

theorem bodyText_ofText (text : List Char) : bodyText (ofText text) = text.flatMap jsonChar := by
  simp [bodyText, ofText, flatMap_map, text_ofChar]

theorem charOf_toNat (c : Char) : charOf c.toNat = some c := by
  have hvalid : c.toNat.isValidChar := c.valid
  rw [charOf, dif_pos hvalid]
  rfl

theorem decode_unicode {a b c d : HexDigit} {char : Char} {body : List Piece}
    (h : charOf (Piece.unit a b c d) = some char) :
    decode (.unicode a b c d :: body) = (decode body).map (char :: ·) := by
  rw [decode.eq_def]
  simp only [h]

def Piece.char? : Piece → Option Char
  | plain c _ => some c
  | escape _ value _ => some value
  | unicode a b c d => charOf (unit a b c d)

/-- The characters of the pieces, each by itself; none where a surrogate stands among them. -/
def charsOf : List Piece → Option (List Char)
  | [] => some []
  | piece :: body =>
    match piece.char? with
    | some c => (charsOf body).map (c :: ·)
    | none => none

def Piece.isSurrogate : Piece → Bool
  | unicode a b c d => 0xD800 ≤ unit a b c d && unit a b c d < 0xE000
  | _ => false

theorem Piece.isSome_char? (piece : Piece) : piece.char?.isSome = !piece.isSurrogate := by
  cases piece with
  | plain | escape => rfl
  | unicode a b c d =>
    have ha := a.value_lt
    have hb := b.value_lt
    have hc := c.value_lt
    have hd := d.value_lt
    have hunit : unit a b c d < 0x10000 := by
      rw [unit]
      omega
    have hvalid : (unit a b c d).isValidChar ↔
        ¬(0xD800 ≤ unit a b c d ∧ unit a b c d < 0xE000) := by
      rw [Nat.isValidChar]
      omega
    rw [char?, charOf, isSurrogate]
    by_cases hsurrogate : 0xD800 ≤ unit a b c d ∧ unit a b c d < 0xE000
    · rw [dif_neg fun h => hvalid.mp h hsurrogate]
      simp [hsurrogate]
    · rw [dif_pos (hvalid.mpr hsurrogate)]
      simp only [Option.isSome_some, Bool.true_eq, Bool.not_eq_true', Bool.and_eq_false_iff,
        decide_eq_false_iff_not]
      omega

theorem isSome_charsOf (body : List Piece) :
    (charsOf body).isSome = true ↔ ∀ piece ∈ body, piece.isSurrogate = false := by
  induction body with
  | nil => simp [charsOf]
  | cons piece body ih =>
    have hpiece := piece.isSome_char?
    rw [forall_mem_cons, ← ih, charsOf]
    cases hc : piece.char? with
    | none | some =>
      rw [hc] at hpiece
      simp_all

theorem decode_of_charsOf {body : List Piece} {text : List Char} (h : charsOf body = some text) :
    decode body = some text := by
  induction body generalizing text with
  | nil => exact h
  | cons piece body ih =>
    rw [charsOf] at h
    split at h
    next c hc =>
      obtain ⟨rest, hrest, rfl⟩ := Option.map_eq_some_iff.mp h
      cases piece with
      | plain | escape =>
        cases hc
        rw [decode, ih hrest]
        rfl
      | unicode a b c' d =>
        rw [decode_unicode hc, ih hrest]
        rfl
    next => cases h

theorem Piece.char?_ofChar (c : Char) : (ofChar c).char? = some c := by
  have hcode : ∀ h : c.toNat < 0x20,
      unit (HexDigit.ofFin 0) (HexDigit.ofFin 0) (HexDigit.ofFin ⟨c.toNat / 16, by omega⟩)
        (HexDigit.ofFin ⟨c.toNat % 16, by omega⟩) = c.toNat := by
    intro h
    simp only [unit, HexDigit.ofFin, Fin.val_zero]
    omega
  unfold ofChar
  iterate 7
    split
    next hc => simp [hc, char?]
  split
  next hcontrol => rw [char?, hcode hcontrol, charOf_toNat]
  next hquote hescape _ _ _ _ _ hcontrol =>
    have hplain : IsPlain c := ⟨Nat.not_lt.mp hcontrol, hquote, hescape⟩
    rw [dif_pos hplain, char?]

theorem charsOf_ofText (text : List Char) : charsOf (ofText text) = some text := by
  induction text with
  | nil => rfl
  | cons c text ih =>
    rw [ofText] at ih
    rw [ofText, map_cons, charsOf, Piece.char?_ofChar, ih]
    rfl

theorem decode_ofText (text : List Char) : decode (ofText text) = some text :=
  decode_of_charsOf (charsOf_ofText text)

/-! ## Numbers and literals -/

def dropDigits : List Char → Option (List Char)
  | [] => none
  | c :: rest => if c.isDigit then some (rest.dropWhile Char.isDigit) else none

/-- `int`: a zero alone, or digits that start with another. -/
def dropInt : List Char → Option (List Char)
  | [] => none
  | c :: rest => if c = '0' then some rest else dropDigits (c :: rest)

def dropFrac : List Char → Option (List Char)
  | [] => some []
  | c :: rest => if c = '.' then dropDigits rest else some (c :: rest)

def dropSign (signs : List Char) : List Char → List Char
  | [] => []
  | c :: rest => if c ∈ signs then rest else c :: rest

def dropExp : List Char → Option (List Char)
  | [] => some []
  | c :: rest =>
    if c = 'e' ∨ c = 'E' then dropDigits (dropSign ['+', '-'] rest) else some (c :: rest)

def isNumber (text : List Char) : Bool :=
  ((dropInt (dropSign ['-'] text)).bind dropFrac).bind dropExp = some []

structure Scalar where
  token : List Char
  valid : token ∈ ["true".toList, "false".toList, "null".toList] ∨ isNumber token = true

def isTokenChar (c : Char) : Bool := c.isAlphanum || c = '-' || c = '+' || c = '.'

theorem isTokenChar_range {c : Char} (h : isTokenChar c = true) : 43 ≤ c.toNat ∧ c.toNat ≤ 122 := by
  simp only [isTokenChar, Bool.or_eq_true, decide_eq_true_eq] at h
  rcases h with ((h | rfl) | rfl) | rfl
  · have hrange := isAlphanum_range h
    omega
  all_goals decide

def Takes (text rest : List Char) : Prop :=
  ∃ front, text = front ++ rest ∧ ∀ c ∈ front, isTokenChar c = true

theorem Takes.refl (text : List Char) : Takes text text := ⟨[], rfl, by simp⟩

theorem Takes.trans {a b c : List Char} : Takes a b → Takes b c → Takes a c := by
  rintro ⟨front, rfl, hfront⟩ ⟨front', rfl, hfront'⟩
  refine ⟨front ++ front', by simp, fun c hc => ?_⟩
  exact (mem_append.mp hc).elim (hfront c) (hfront' c)

theorem Takes.cons {c : Char} {text rest : List Char} (hc : isTokenChar c = true)
    (h : Takes text rest) : Takes (c :: text) rest :=
  Takes.trans ⟨[c], rfl, by simpa using hc⟩ h

theorem isTokenChar_of_isDigit {c : Char} (h : c.isDigit = true) : isTokenChar c = true := by
  simp [isTokenChar, Char.isAlphanum, h]

theorem takes_dropWhile (text : List Char) : Takes text (text.dropWhile Char.isDigit) := by
  refine ⟨text.takeWhile Char.isDigit, takeWhile_append_dropWhile.symm, fun c hc => ?_⟩
  exact isTokenChar_of_isDigit (mem_takeWhile_imp hc)

section Takes

variable {text rest : List Char}

theorem takes_dropDigits (h : dropDigits text = some rest) :
    Takes text rest := by
  cases text with
  | nil => cases h
  | cons c text =>
    rw [dropDigits] at h
    split at h
    next hc =>
      cases h
      exact (takes_dropWhile text).cons (isTokenChar_of_isDigit hc)
    next => cases h

theorem takes_dropSign {signs : List Char} (hsigns : ∀ c ∈ signs, isTokenChar c = true)
    (text : List Char) : Takes text (dropSign signs text) := by
  cases text with
  | nil => exact Takes.refl _
  | cons c text =>
    rw [dropSign]
    split
    next hc => exact (Takes.refl text).cons (hsigns c hc)
    next => exact Takes.refl _

theorem takes_dropInt (h : dropInt text = some rest) : Takes text rest := by
  cases text with
  | nil => cases h
  | cons c text =>
    rw [dropInt] at h
    split at h
    next hc =>
      cases h
      exact (Takes.refl _).cons (by rw [hc]; decide)
    next => exact takes_dropDigits h

theorem takes_dropFrac (h : dropFrac text = some rest) :
    Takes text rest := by
  cases text with
  | nil =>
    cases h
    exact Takes.refl _
  | cons c text =>
    rw [dropFrac] at h
    split at h
    next hc => exact (takes_dropDigits h).cons (by rw [hc]; decide)
    next =>
      cases h
      exact Takes.refl _

theorem takes_dropExp (h : dropExp text = some rest) : Takes text rest := by
  cases text with
  | nil =>
    cases h
    exact Takes.refl _
  | cons c text =>
    rw [dropExp] at h
    split at h
    next hc =>
      have hletter : isTokenChar c = true := by rcases hc with rfl | rfl <;> decide
      have hsign : Takes text (dropSign ['+', '-'] text) :=
        takes_dropSign (all_eq_true.mp (by decide)) text
      exact (hsign.trans (takes_dropDigits h)).cons hletter
    next =>
      cases h
      exact Takes.refl _

end Takes

theorem isNumber_chars {token : List Char} (h : isNumber token = true) :
    ∀ c ∈ token, isTokenChar c = true := by
  simp only [isNumber, decide_eq_true_eq, Option.bind_eq_some_iff] at h
  obtain ⟨afterFrac, ⟨afterInt, hint, hfrac⟩, hexp⟩ := h
  have hsign : Takes token (dropSign ['-'] token) :=
    takes_dropSign (all_eq_true.mp (by decide)) token
  obtain ⟨front, hfront, hchars⟩ := hsign.trans
    ((takes_dropInt hint).trans ((takes_dropFrac hfrac).trans (takes_dropExp hexp)))
  rwa [hfront, append_nil]

theorem Scalar.chars (s : Scalar) : ∀ c ∈ s.token, isTokenChar c = true := by
  rcases s.valid with h | h
  · revert h
    generalize s.token = token
    simp only [mem_cons, not_mem_nil, or_false]
    rintro (rfl | rfl | rfl) <;> exact all_eq_true.mp (by decide)
  · exact isNumber_chars h

theorem Scalar.token_ne_nil (s : Scalar) : s.token ≠ [] := by
  intro hnil
  have h := s.valid
  rw [hnil] at h
  revert h
  decide

theorem isNumber_toDigits (n : Nat) : isNumber (Nat.toDigits 10 n) = true := by
  have hdigits : ∀ c ∈ Nat.toDigits 10 n, c.isDigit = true := fun c hc =>
    Nat.isDigit_of_mem_toDigits (by decide) (by decide) hc
  have hzero : (Nat.toDigits 10 n).head? = some '0' → Nat.toDigits 10 n = ['0'] := by
    intro hhead
    rcases Nat.eq_zero_or_pos n with rfl | hpos
    · rfl
    · exact absurd hhead (toDigits_head?_ne_zero hpos)
  have hne : Nat.toDigits 10 n ≠ [] := ne_nil_of_length_pos Nat.length_toDigits_pos
  revert hdigits hzero hne
  generalize Nat.toDigits 10 n = digits
  intro hdigits hzero hne
  obtain ⟨c, digits, rfl⟩ := exists_cons_of_ne_nil hne
  have hc : c.isDigit = true := hdigits c mem_cons_self
  have hminus : c ∉ ['-'] := by
    intro hmem
    rw [mem_singleton] at hmem
    subst hmem
    exact absurd hc (by decide)
  have hint : dropInt (c :: digits) = some [] := by
    rw [dropInt]
    split
    next hc0 =>
      subst hc0
      simpa using hzero rfl
    next =>
      have hrest := fun d hd => hdigits d (mem_cons_of_mem c hd)
      rw [dropDigits, if_pos hc, dropWhile_eq_nil_iff.2 hrest]
  rw [isNumber, dropSign, if_neg hminus, hint]
  rfl

def Scalar.ofNat (n : Nat) : Scalar := ⟨(toString n).toList, .inr (by
  rw [Nat.toString_eq_repr, Nat.repr_eq_ofList_toDigits, String.toList_ofList]
  exact isNumber_toDigits n)⟩

/-! ## Trees -/

inductive Bracket where
  | square
  | curly
  deriving DecidableEq

namespace Bracket

def opening : Bracket → Char
  | square => '['
  | curly => '\x7b'

def closing : Bracket → Char
  | square => ']'
  | curly => '\x7d'

end Bracket

inductive Head : Bracket → Type
  | item (before : Ws) : Head .square
  | key (before : Ws) (body : List Piece) (middle after : Ws) : Head .curly

namespace Head

def text {b : Bracket} : Head b → List Char
  | item before => before.text
  | key before body middle after =>
    before.text ++ stringText body ++ middle.text ++ ':' :: after.text

def names {b : Bracket} (name : List Char) : Head b → Bool
  | item _ => false
  | key _ body _ _ => decode body = some name

end Head

inductive Kind where
  | value
  | list (b : Bracket)

inductive Tree : Kind → Type
  | scalar (token : Scalar) : Tree .value
  | string (body : List Piece) : Tree .value
  | empty (b : Bracket) (ws : Ws) : Tree .value
  | container {b : Bracket} (inner : Tree (.list b)) : Tree .value
  | last {b : Bracket} (head : Head b) (item : Tree .value) (after : Ws) : Tree (.list b)
  | more {b : Bracket} (head : Head b) (item : Tree .value) (after : Ws) (rest : Tree (.list b)) :
      Tree (.list b)

namespace Tree

def text {k : Kind} : Tree k → List Char
  | scalar token => token.token
  | string body => stringText body
  | empty b ws => b.opening :: ws.text ++ [b.closing]
  | @container b inner => b.opening :: inner.text ++ [b.closing]
  | last head item after => head.text ++ item.text ++ after.text
  | more head item after rest => head.text ++ item.text ++ after.text ++ ',' :: rest.text

/-- The values of the members of that name: of an object, not of what is nested in it. -/
def named (name : List Char) {k : Kind} : Tree k → List (Tree .value)
  | scalar _ => []
  | string _ => []
  | empty _ _ => []
  | container inner => inner.named name
  | last head item _ => if head.names name then [item] else []
  | more head item _ rest =>
    if head.names name then item :: rest.named name else rest.named name

/-- The members of that name, each with the text behind its value, where `rest` is behind the
tree. -/
def membersAt (name : List Char) {k : Kind} : Tree k → List Char → List (Tree .value × List Char)
  | scalar _, _ => []
  | string _, _ => []
  | empty _ _, _ => []
  | @container b inner, rest => inner.membersAt name (b.closing :: rest)
  | last head item after, rest => if head.names name then [(item, after.text ++ rest)] else []
  | more head item after tail, rest =>
    if head.names name then
      (item, after.text ++ ',' :: (tail.text ++ rest)) :: tail.membersAt name rest
    else tail.membersAt name rest

/-! ## The front of a text

What a tree must be, given how its text starts. -/

section Front

variable {x y : List Char} {b : Bracket}

theorem text_head (v : Tree .value) : ∃ c rest, v.text = c :: rest ∧ isWs c = false := by
  cases v with
  | scalar token =>
    obtain ⟨c, rest, hc⟩ := exists_cons_of_ne_nil token.token_ne_nil
    refine ⟨c, rest, hc, ?_⟩
    have htoken := token.chars c (by simp [hc])
    rw [Bool.eq_false_iff]
    intro hws
    simp only [isWs, Bool.or_eq_true, decide_eq_true_eq] at hws
    rcases hws with ((rfl | rfl) | rfl) | rfl <;> exact absurd htoken (by decide)
  | string body => exact ⟨_, _, rfl, by decide⟩
  | empty b ws | @container b inner => exact ⟨_, _, rfl, by cases b <;> decide⟩

variable {v : Tree .value}

theorem gap_eq_none {gap : Ws} {d : Char} (hd : isWs d = false)
    (h : gap.text ++ (v.text ++ x) = d :: y) : gap = Ws.none ∧ v.text ++ x = d :: y := by
  obtain ⟨c, rest, hv, hc⟩ := v.text_head
  rw [hv, cons_append] at h ⊢
  obtain ⟨hgap, rfl, rfl⟩ := Ws.eq_none hc hd h
  exact ⟨hgap, rfl⟩

theorem scalar_front {token : Scalar} {d : Char} (hd : isTokenChar d = false) :
    (scalar token).text ++ x ≠ d :: y := by
  intro h
  obtain ⟨c, rest, hc⟩ := exists_cons_of_ne_nil token.token_ne_nil
  have htoken := token.chars c (by simp [hc])
  rw [text, hc] at h
  rw [(cons.inj h).1, hd] at htoken
  cases htoken

theorem eq_string (h : v.text ++ x = '"' :: y) :
    ∃ body, v = string body ∧ bodyText body ++ '"' :: x = y := by
  cases v with
  | scalar token => exact absurd h (scalar_front (by decide))
  | string body =>
    refine ⟨body, rfl, ?_⟩
    simpa [text, stringText] using h
  | empty b ws | @container b inner =>
    have hopen := (cons.inj h).1
    cases b <;> exact absurd hopen (by decide)

theorem eq_object (h : v.text ++ x = '\x7b' :: y) :
    (∃ ws, v = empty .curly ws ∧ ws.text ++ '\x7d' :: x = y) ∨
      ∃ inner : Tree (.list .curly), v = container inner ∧ inner.text ++ '\x7d' :: x = y := by
  cases v with
  | scalar token => exact absurd h (scalar_front (by decide))
  | string body => exact absurd (cons.inj h).1 (by decide)
  | empty b ws =>
    cases b with
    | square => exact absurd (cons.inj h).1 (by decide)
    | curly =>
      refine .inl ⟨ws, rfl, ?_⟩
      simpa [text, Bracket.opening, Bracket.closing] using h
  | @container b inner =>
    cases b with
    | square => exact absurd (cons.inj h).1 (by decide)
    | curly =>
      refine .inr ⟨inner, rfl, ?_⟩
      simpa [text, Bracket.opening, Bracket.closing] using h

theorem eq_scalar {token : List Char} (hne : token ≠ [])
    (htoken : ∀ c ∈ token, isTokenChar c = true) (hx : ∀ c ∈ x.head?, isTokenChar c = false)
    (hy : ∀ c ∈ y.head?, isTokenChar c = false) (h : v.text ++ x = token ++ y) :
    ∃ s : Scalar, v = scalar s ∧ s.token = token ∧ x = y := by
  obtain ⟨c, rest, rfl⟩ := exists_cons_of_ne_nil hne
  have hc := htoken c mem_cons_self
  cases v with
  | scalar s =>
    obtain ⟨hs, hxy⟩ := span_inj s.chars htoken hx hy h
    exact ⟨s, rfl, hs, hxy⟩
  | string body =>
    rw [← (cons.inj h).1] at hc
    exact absurd hc (by decide)
  | empty b ws | @container b inner =>
    rw [← (cons.inj h).1] at hc
    cases b <;> exact absurd hc (by decide)

def tailText : Option (Tree (.list b)) → List Char
  | none => []
  | some rest => ',' :: rest.text

def cons (head : Head b) (item : Tree .value) (after : Ws) :
    Option (Tree (.list b)) → Tree (.list b)
  | none => last head item after
  | some rest => more head item after rest

theorem text_cons (head : Head b) (item : Tree .value) (after : Ws)
    (rest : Option (Tree (.list b))) :
    (cons head item after rest).text =
      head.text ++ (item.text ++ (after.text ++ tailText rest)) := by
  cases rest <;> simp [cons, text, tailText]

theorem exists_cons (t : Tree (.list b)) :
    ∃ head item after rest, t = cons head item after rest := by
  cases t with
  | last head item after => exact ⟨head, item, after, none, rfl⟩
  | more head item after rest => exact ⟨head, item, after, some rest, rfl⟩

def namedTail (name : List Char) (rest : Option (Tree (.list b))) : List (Tree .value) :=
  rest.elim [] (named name)

theorem named_cons (name : List Char) (head : Head b) (item : Tree .value) (after : Ws)
    (rest : Option (Tree (.list b))) :
    (cons head item after rest).named name =
      if head.names name then item :: namedTail name rest else namedTail name rest := by
  cases rest <;> rfl

variable {t : Tree (.list .curly)} {key : List Piece}

theorem eq_cons_key (h : t.text ++ x = stringText key ++ ':' :: y) :
    ∃ gap item after rest, t = cons (.key Ws.none key Ws.none gap) item after rest ∧
      gap.text ++ (item.text ++ (after.text ++ (tailText rest ++ x))) = y := by
  obtain ⟨head, item, after, rest, rfl⟩ := t.exists_cons
  cases head with
  | key before body middle gap =>
    rw [text_cons] at h
    simp only [Head.text, stringText, append_assoc, cons_append, nil_append] at h
    obtain ⟨hbefore, -, hkey⟩ := Ws.eq_none (by decide) (by decide) h
    obtain ⟨hbody, hmiddle⟩ := bodyText_append_inj hkey
    obtain ⟨hnone, -, hrest⟩ := Ws.eq_none (by decide) (by decide) hmiddle
    exact ⟨gap, item, after, rest, by rw [hbefore, hbody, hnone], hrest⟩

variable {rest : Option (Tree (.list b))}

theorem eq_some_tail {after : Ws} (h : after.text ++ (tailText rest ++ b.closing :: x) = ',' :: y) :
    after = Ws.none ∧ ∃ t, rest = some t ∧ t.text ++ b.closing :: x = y := by
  cases rest with
  | none =>
    have hclosing : isWs b.closing = false ∧ b.closing ≠ ',' := by cases b <;> decide
    obtain ⟨-, hcomma, -⟩ := Ws.eq_none hclosing.1 (by decide) h
    exact absurd hcomma hclosing.2
  | some t =>
    obtain ⟨hafter, -, h⟩ := Ws.eq_none (by decide) (by decide) h
    exact ⟨hafter, t, rfl, h⟩

theorem tail_head {after : Ws} :
    ∀ c ∈ (after.text ++ (tailText rest ++ b.closing :: x)).head?, isTokenChar c = false := by
  obtain ⟨text, blank⟩ := after
  cases text with
  | nil =>
    cases rest with
    | none => cases b <;> simp [tailText, Bracket.closing, isTokenChar, Char.isAlphanum]
    | some t => simp [tailText, isTokenChar, Char.isAlphanum]
  | cons w text =>
    have hw := blank w mem_cons_self
    simp only [isWs, Bool.or_eq_true, decide_eq_true_eq] at hw
    intro c hc
    simp only [cons_append, head?_cons, Option.mem_some_iff] at hc
    subst hc
    rcases hw with ((rfl | rfl) | rfl) | rfl <;> decide

theorem eq_cons_string {key body : List Piece}
    (h : t.text ++ '\x7d' :: x = stringText key ++ ':' :: (stringText body ++ ',' :: y)) :
    ∃ rest, t = cons (.key Ws.none key Ws.none Ws.none) (string body) Ws.none (some rest) ∧
      rest.text ++ '\x7d' :: x = y := by
  obtain ⟨gap, item, after, rest, rfl, hitem⟩ := eq_cons_key h
  rw [stringText_append] at hitem
  obtain ⟨rfl, hstring⟩ := gap_eq_none (by decide) hitem
  obtain ⟨body', rfl, hbody⟩ := eq_string hstring
  obtain ⟨rfl, htail⟩ := bodyText_append_inj hbody
  obtain ⟨rfl, t, rfl, ht⟩ := eq_some_tail htail
  exact ⟨t, rfl, ht⟩

theorem eq_cons_scalar {s : Scalar}
    (h : t.text ++ '\x7d' :: x = stringText key ++ ':' :: (s.token ++ ',' :: y)) :
    ∃ s' rest, s'.token = s.token ∧
      t = cons (.key Ws.none key Ws.none Ws.none) (scalar s') Ws.none (some rest) ∧
        rest.text ++ '\x7d' :: x = y := by
  obtain ⟨gap, item, after, rest, rfl, hitem⟩ := eq_cons_key h
  obtain ⟨c, token, hc, hws⟩ := (scalar s).text_head
  have hstart : s.token ++ ',' :: y = c :: (token ++ ',' :: y) := congrArg (· ++ ',' :: y) hc
  obtain ⟨rfl, htoken⟩ := gap_eq_none hws (hitem.trans hstart)
  have hcomma : ∀ c ∈ (',' :: y).head?, isTokenChar c = false := by
    rintro c ⟨⟩
    decide
  obtain ⟨s', rfl, hs, htail⟩ :=
    eq_scalar s.token_ne_nil s.chars tail_head hcomma (htoken.trans hstart.symm)
  obtain ⟨rfl, t, rfl, ht⟩ := eq_some_tail htail
  exact ⟨s', t, hs, rfl, ht⟩

end Front

end Tree

end BittyAi.Lib.JsonSyntax
