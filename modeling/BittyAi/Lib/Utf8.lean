/-
BittyAi.Lib.Utf8 — lossy UTF-8 decoding of a byte string, and where its characters begin.

The decoder replaces each maximal ill-formed piece by one U+FFFD, the way the `Utf8Chunks`
iterator behind Rust's `String::from_utf8_lossy` cuts them: a lead octet with the
continuation octets that could still have completed it. A well-formed piece is one
character, read by the core decoder.
-/
import BittyAi.Lib.Bytes

namespace BittyAi.Lib

open List
open String (utf8EncodeChar length_utf8EncodeChar ofList ofList_cons toList_ofList)

def isContinuation (b : UInt8) : Bool := 0x80 ≤ b && b ≤ 0xBF

/-- Whether `b` may follow the lead octet of a three- or four-octet character. -/
def isSecondOctet (lead b : UInt8) : Bool :=
  if lead = 0xE0 then 0xA0 ≤ b && b ≤ 0xBF
  else if lead = 0xED then 0x80 ≤ b && b ≤ 0x9F
  else if lead = 0xF0 then 0x90 ≤ b && b ≤ 0xBF
  else if lead = 0xF4 then 0x80 ≤ b && b ≤ 0x8F
  else isContinuation b

/-- Octets of the ill-formed piece that starts with `lead`: the lead octet and
the following octets that fit it, short of a whole character. -/
def illFormedLength (lead : UInt8) : List UInt8 → Nat
  | b :: c :: _ =>
    if 0xE0 ≤ lead && lead ≤ 0xEF then if isSecondOctet lead b then 2 else 1
    else if 0xF0 ≤ lead && lead ≤ 0xF4 then
      if isSecondOctet lead b then if isContinuation c then 3 else 2 else 1
    else 1
  | [b] => if 0xE0 ≤ lead && lead ≤ 0xF4 && isSecondOctet lead b then 2 else 1
  | [] => 1

theorem illFormedLength_le (lead : UInt8) (rest : List UInt8) : illFormedLength lead rest ≤ 3 := by
  unfold illFormedLength
  repeat' split
  all_goals omega

def decodeChar? (bytes : List UInt8) : Option Char := bytes.toByteArray.utf8DecodeChar? 0

/-- Lossy decoding; `skip` octets belong to the piece already written. -/
def lossyChars : Nat → List UInt8 → List Char
  | _, [] => []
  | skip + 1, _ :: rest => lossyChars skip rest
  | 0, b :: rest =>
    match decodeChar? (b :: rest) with
    | some c => c :: lossyChars (c.utf8Size - 1) rest
    | none => '�' :: lossyChars (illFormedLength b rest - 1) rest

def lossyText (bytes : List UInt8) : String := ofList (lossyChars 0 bytes)

def encode (cs : List Char) : List UInt8 := cs.flatMap utf8EncodeChar

variable {cs ds : List Char} {front back bytes : List UInt8} {s : String}

@[simp] theorem encode_nil : encode [] = [] := rfl

@[simp] theorem encode_cons (c : Char) (cs : List Char) :
    encode (c :: cs) = utf8EncodeChar c ++ encode cs := flatMap_cons

@[simp] theorem encode_append (cs ds : List Char) : encode (cs ++ ds) = encode cs ++ encode ds :=
  flatMap_append

theorem encode_replicate {c : Char} {b : UInt8} (h : encode [c] = [b]) (n : Nat) :
    encode (replicate n c) = replicate n b := by
  induction n with
  | zero => rfl
  | succ n ih => rw [replicate_succ, ← singleton_append, encode_append, h, ih]; rfl

theorem utf8Bytes_eq_encode (s : String) : utf8Bytes s = encode s.toList := by
  rw [utf8Bytes, ← String.utf8Encode_toList, utf8Encode]
  simp [encode]

/-! ## Well-formed text -/

theorem lossyChars_skip : ∀ (piece rest : List UInt8),
    lossyChars piece.length (piece ++ rest) = lossyChars 0 rest
  | [], _ => rfl
  | _ :: piece, rest => lossyChars_skip piece rest

theorem decodeChar?_encode (c : Char) (rest : List UInt8) :
    decodeChar? (utf8EncodeChar c ++ rest) = some c := by
  rw [decodeChar?, toByteArray_append]
  exact ByteArray.utf8DecodeChar?_utf8EncodeChar_append

theorem lossyChars_encode (c : Char) (rest : List UInt8) :
    lossyChars 0 (utf8EncodeChar c ++ rest) = c :: lossyChars 0 rest := by
  cases hpiece : utf8EncodeChar c with
  | nil => exact absurd hpiece String.utf8EncodeChar_ne_nil
  | cons b piece =>
    have hdecode := decodeChar?_encode c rest
    have hsize := length_utf8EncodeChar c
    rw [hpiece] at hdecode hsize
    rw [cons_append] at hdecode ⊢
    rw [lossyChars, hdecode]
    have hskip : c.utf8Size - 1 = piece.length := by rw [← hsize]; simp
    simp only [hskip, lossyChars_skip]

theorem lossyChars_append (rest : List UInt8) : ∀ cs : List Char,
    lossyChars 0 (encode cs ++ rest) = cs ++ lossyChars 0 rest
  | [] => rfl
  | c :: cs => by
    rw [encode_cons, append_assoc, lossyChars_encode, lossyChars_append rest cs, cons_append]

theorem lossyChars_encoded (cs : List Char) : lossyChars 0 (encode cs) = cs := by
  have h := lossyChars_append [] cs
  rwa [append_nil, lossyChars, append_nil] at h

theorem lossyText_utf8Bytes (s : String) : lossyText (utf8Bytes s) = s := by
  rw [lossyText, utf8Bytes_eq_encode, lossyChars_encoded, String.ofList_toList]

theorem utf8Bytes_lossyText_iff (bytes : List UInt8) :
    utf8Bytes (lossyText bytes) = bytes ↔ ∃ s, bytes = utf8Bytes s := by
  constructor
  · intro h
    exact ⟨lossyText bytes, h.symm⟩
  · rintro ⟨s, rfl⟩
    rw [lossyText_utf8Bytes]

theorem prefix_of_encoded (h : encode cs <+: encode ds) : cs <+: ds := by
  obtain ⟨rest, hrest⟩ := h
  exact ⟨lossyChars 0 rest, by rw [← lossyChars_append, hrest, lossyChars_encoded]⟩

/-! ## Growth -/

theorem length_le_lossyChars : ∀ (bytes : List UInt8) (skip : Nat),
    bytes.length ≤ skip + (ofList (lossyChars skip bytes)).utf8ByteSize
  | [], _ => by simp
  | _ :: rest, skip + 1 => by
      have ih := length_le_lossyChars rest skip
      rw [lossyChars, length_cons]
      omega
  | b :: rest, 0 => by
      rw [lossyChars, length_cons]
      cases decodeChar? (b :: rest) with
      | some c =>
        have ih := length_le_lossyChars rest (c.utf8Size - 1)
        have hpos := c.utf8Size_pos
        simp only [ofList_cons, String.utf8ByteSize_append, String.utf8ByteSize_singleton]
        omega
      | none =>
        have ih := length_le_lossyChars rest (illFormedLength b rest - 1)
        have hle := illFormedLength_le b rest
        have hsize : ('�' : Char).utf8Size = 3 := by decide
        simp only [ofList_cons, String.utf8ByteSize_append, String.utf8ByteSize_singleton,
          hsize]
        omega

theorem length_le_lossyText (bytes : List UInt8) :
    bytes.length ≤ (lossyText bytes).utf8ByteSize := by
  have h := length_le_lossyChars bytes 0
  rwa [Nat.zero_add] at h

example : lossyText [0x61, 0xFF, 0xE2, 0x82, 0x62] = "a��b" := by decide

/-! ## Boundaries

Every character is one lead octet and continuation octets behind it
(`utf8EncodeChar_lead`). So a text can be cut at an octet exactly where the octet
is no continuation (`encode_split`), and the octets of a text occur in those of
another exactly where its characters do (`encode_infix`). -/

/-- Rust `str::is_char_boundary`, by the octets that are left from there. -/
def isBoundary : List UInt8 → Bool
  | [] => true
  | b :: _ => !isContinuation b

/-! ## The octets of one character -/

theorem isContinuation_ofNat {n : Nat} (h : n < 256) :
    isContinuation (UInt8.ofNat n) = true ↔ 0x80 ≤ n ∧ n ≤ 0xBF := by
  simp [isContinuation, UInt8.le_iff_toNat_le, UInt8.toNat_ofNat', Nat.mod_eq_of_lt h]

theorem utf8EncodeChar_lead (c : Char) :
    ∃ lead tail, utf8EncodeChar c = lead :: tail ∧ isContinuation lead = false ∧
      ∀ b ∈ tail, isContinuation b = true := by
  have hlead : ∀ {n}, n < 256 → ¬(0x80 ≤ n ∧ n ≤ 0xBF) →
      isContinuation (UInt8.ofNat n) = false := fun hlt hn =>
    Bool.eq_false_iff.mpr fun h => hn ((isContinuation_ofNat hlt).mp h)
  have htail : ∀ n, isContinuation (UInt8.ofNat (n % 64 + 128)) = true := fun n =>
    (isContinuation_ofNat (by omega)).mpr (by omega)
  unfold utf8EncodeChar
  dsimp only
  generalize c.val.toNat = v
  repeat' split
  · exact ⟨_, [], rfl, hlead (by omega) (by omega), by simp⟩
  all_goals
    exact ⟨_, _, rfl, hlead (by omega) (by omega), by simp only [forall_mem_cons, htail]; simp⟩

theorem isBoundary_encode_append (hne : cs ≠ []) (back : List UInt8) :
    isBoundary (encode cs ++ back) = true := by
  obtain ⟨c, cs, rfl⟩ := exists_cons_of_ne_nil hne
  obtain ⟨lead, tail, hencode, hlead, -⟩ := utf8EncodeChar_lead c
  simp [hencode, isBoundary, hlead]

theorem isBoundary_encode (cs : List Char) : isBoundary (encode cs) = true := by
  cases cs with
  | nil => rfl
  | cons c cs => simpa using isBoundary_encode_append (cons_ne_nil c cs) []

theorem utf8EncodeChar_cases (c : Char) :
    c.toNat ≤ 127 ∧ utf8EncodeChar c = [UInt8.ofNat c.toNat] ∨
      127 < c.toNat ∧ ∀ b ∈ utf8EncodeChar c, 127 < b.toNat := by
  have hhigh : ∀ ns : List Nat, (∀ n ∈ ns, 128 ≤ n ∧ n < 256) →
      ∀ b ∈ ns.map UInt8.ofNat, 127 < b.toNat := by
    intro ns hns b hb
    obtain ⟨n, hn, rfl⟩ := mem_map.mp hb
    rw [UInt8.toNat_ofNat', Nat.mod_eq_of_lt (hns n hn).2]
    exact (hns n hn).1
  rcases Nat.lt_or_ge 127 c.toNat with hwide | hascii
  · refine .inr ⟨hwide, ?_⟩
    change 127 < c.val.toNat at hwide
    unfold utf8EncodeChar
    dsimp only
    rw [if_neg (by omega)]
    generalize c.val.toNat = v
    repeat' split
    · exact hhigh [_, _] (by simp; omega)
    · exact hhigh [_, _, _] (by simp; omega)
    · exact hhigh [_, _, _, _] (by simp; omega)
  · refine .inl ⟨hascii, ?_⟩
    change c.val.toNat ≤ 127 at hascii
    unfold utf8EncodeChar
    dsimp only
    rw [if_pos hascii]
    rfl

/-! ## Cutting -/

theorem encode_split (h : encode cs = front ++ back) (hback : isBoundary back = true) :
    ∃ as bs, cs = as ++ bs ∧ encode as = front ∧ encode bs = back := by
  induction cs generalizing front with
  | nil =>
    obtain ⟨rfl, rfl⟩ := append_eq_nil_iff.mp h.symm
    exact ⟨[], [], rfl, rfl, rfl⟩
  | cons c cs ih =>
    rw [encode_cons, append_eq_append_iff] at h
    rcases h with ⟨rest, rfl, hrest⟩ | ⟨rest, hpiece, rfl⟩
    · obtain ⟨as, bs, rfl, rfl, rfl⟩ := ih hrest
      exact ⟨c :: as, bs, rfl, by simp, rfl⟩
    · cases front with
      | nil => exact ⟨[], c :: cs, rfl, rfl, by simpa using hpiece⟩
      | cons b front =>
        cases rest with
        | nil =>
          refine ⟨[c], cs, rfl, by simpa using hpiece, by simp⟩
        | cons b' rest =>
          -- the cut would fall behind the lead octet of the character
          obtain ⟨lead, tail, hencode, -, htail⟩ := utf8EncodeChar_lead c
          rw [hencode, cons_append, cons.injEq] at hpiece
          have hinside := htail b' (by simp [hpiece.2])
          simp [isBoundary, hinside] at hback

theorem encode_ascii {b : UInt8} (h : encode cs = front ++ b :: back) (hb : b.toNat ≤ 127) :
    ∃ as c bs, cs = as ++ c :: bs ∧ encode as = front ∧ encode bs = back := by
  have hlow : isBoundary (b :: back) = true := by
    simp only [isBoundary, Bool.not_eq_true', isContinuation, Bool.and_eq_false_iff,
      decide_eq_false_iff_not, UInt8.not_le]
    exact .inl (UInt8.lt_iff_toNat_lt.mpr (Nat.lt_succ_of_le hb))
  obtain ⟨as, bs, rfl, hfront, hbs⟩ := encode_split h hlow
  cases bs with
  | nil => cases hbs
  | cons c bs =>
    rw [encode_cons] at hbs
    rcases utf8EncodeChar_cases c with ⟨-, hencode⟩ | ⟨-, hwide⟩
    · rw [hencode, singleton_append] at hbs
      exact ⟨as, c, bs, rfl, hfront, (cons.inj hbs).2⟩
    · obtain ⟨lead, tail, hencode, -⟩ := utf8EncodeChar_lead c
      rw [hencode, cons_append] at hbs
      have hhigh := hwide lead (by simp [hencode])
      rw [(cons.inj hbs).1] at hhigh
      omega

theorem encode_cancel (h : encode cs ++ back = encode ds) :
    ∃ bs, ds = cs ++ bs ∧ back = encode bs := by
  obtain ⟨bs, rfl⟩ := prefix_of_encoded ⟨back, h⟩
  rw [encode_append] at h
  exact ⟨bs, rfl, append_cancel_left h⟩

theorem encode_inj : encode cs = encode ds ↔ cs = ds := by
  refine ⟨fun h => ?_, fun h => by rw [h]⟩
  have hdecode := congrArg (lossyChars 0) h
  rwa [lossyChars_encoded, lossyChars_encoded] at hdecode

theorem encode_infix (hne : cs ≠ []) : encode cs <:+: encode ds ↔ cs <:+: ds := by
  constructor
  · rintro ⟨front, back, h⟩
    rw [append_assoc] at h
    obtain ⟨as, bs, rfl, -, hbs⟩ := encode_split h.symm (isBoundary_encode_append hne back)
    obtain ⟨rest, rfl, -⟩ := encode_cancel hbs.symm
    exact ⟨as, rest, by simp⟩
  · rintro ⟨as, bs, rfl⟩
    exact ⟨encode as, encode bs, by simp⟩

/-! ## Texts -/

theorem fromUtf8?_eq_some : fromUtf8? bytes = some s ↔ bytes = utf8Bytes s := by
  refine ⟨eq_utf8Bytes_of_fromUtf8?, ?_⟩
  rintro rfl
  exact fromUTF8?_utf8Bytes s

theorem fromUtf8?_eq_none : fromUtf8? bytes = none ↔ ∀ cs, encode cs ≠ bytes := by
  rw [Option.eq_none_iff_forall_ne_some]
  constructor
  · intro h cs hcs
    refine h (ofList cs) (fromUtf8?_eq_some.mpr ?_)
    rw [utf8Bytes_eq_encode, toList_ofList, hcs]
  · intro h s hs
    exact h s.toList (by rw [← utf8Bytes_eq_encode, fromUtf8?_eq_some.mp hs])

end BittyAi.Lib
