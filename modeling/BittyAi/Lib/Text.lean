/-
BittyAi.Lib.Text — numbers in decimal, white space around a text, a text in quotes, and numbers
printed to a fixed width.
-/
import Mathlib.Data.List.DropRight
import Mathlib.Data.Nat.Digits.Lemmas
import Mathlib.Data.String.Basic

namespace BittyAi.Lib

open List

/-! ## Numbers in decimal -/

def decimalSize (n : Nat) : Nat := (toString n).utf8ByteSize

theorem isAlphanum_range {c : Char} (h : c.isAlphanum = true) : 48 ≤ c.toNat ∧ c.toNat ≤ 122 := by
  delta Char.isAlphanum Char.isAlpha Char.isUpper Char.isLower Char.isDigit at h
  simp only [Bool.or_eq_true, Bool.and_eq_true, decide_eq_true_eq, ge_iff_le,
    UInt32.le_iff_toNat_le] at h
  change (65 ≤ c.toNat ∧ c.toNat ≤ 90 ∨ 97 ≤ c.toNat ∧ c.toNat ≤ 122) ∨
    48 ≤ c.toNat ∧ c.toNat ≤ 57 at h
  omega

theorem utf8ByteSize_ofList_ascii {cs : List Char} (h : ∀ c ∈ cs, c.utf8Size = 1) :
    (String.ofList cs).utf8ByteSize = cs.length := by
  induction cs with
  | nil => rfl
  | cons c cs ih =>
    obtain ⟨hc, hcs⟩ := List.forall_mem_cons.mp h
    simp [String.ofList_cons, hc, ih hcs]
    omega

theorem utf8ByteSize_of_isDigit (cs : List Char) (h : ∀ c ∈ cs, c.isDigit = true) :
    (String.ofList cs).utf8ByteSize = cs.length := by
  refine utf8ByteSize_ofList_ascii fun c hc => Char.utf8Size_eq_one_iff.mpr ?_
  have hd := h c hc
  simp only [Char.isDigit, ge_iff_le, Bool.and_eq_true, decide_eq_true_eq] at hd
  exact UInt32.le_trans hd.2 (by decide)

theorem decimalSize_eq_length (n : Nat) : decimalSize n = (Nat.toDigits 10 n).length := by
  rw [decimalSize, Nat.toString_eq_repr, Nat.repr_eq_ofList_toDigits]
  exact utf8ByteSize_of_isDigit _ fun c hc => Nat.isDigit_of_mem_toDigits (by decide) (by decide) hc

theorem decimalSize_pos (n : Nat) : 0 < decimalSize n := by
  rw [decimalSize_eq_length]
  exact Nat.length_toDigits_pos

theorem decimalSize_le_iff {n k : Nat} (hk : 0 < k) : decimalSize n ≤ k ↔ n < 10 ^ k := by
  rw [decimalSize_eq_length]
  exact Nat.length_toDigits_le_iff (by decide) hk

theorem decimalSize_mono {m n : Nat} (h : m ≤ n) : decimalSize m ≤ decimalSize n := by
  rw [decimalSize_le_iff (decimalSize_pos n)]
  exact lt_of_le_of_lt h ((decimalSize_le_iff (decimalSize_pos n)).mp le_rfl)

theorem toString_nat_inj {m n : Nat} : toString m = toString n ↔ m = n := by
  refine ⟨fun h => ?_, fun h => by rw [h]⟩
  rw [Nat.toString_eq_repr, Nat.toString_eq_repr, Nat.repr_eq_ofList_toDigits,
    Nat.repr_eq_ofList_toDigits, String.ofList_inj] at h
  rw [← Nat.ofDigitChars_toDigits (by decide : 1 < 10) (by decide) (n := m), h,
    Nat.ofDigitChars_toDigits (by decide) (by decide)]

theorem toDigits_head?_ne_zero {n : Nat} (h : 0 < n) : (Nat.toDigits 10 n).head? ≠ some '0' := by
  induction n using Nat.strong_induction_on with
  | _ n ih =>
    rcases Nat.lt_or_ge n 10 with hlt | hge
    · rw [Nat.toDigits_of_lt_base hlt]
      interval_cases n <;> decide
    · have hne : Nat.toDigits 10 (n / 10) ≠ [] :=
        List.ne_nil_of_length_pos Nat.length_toDigits_pos
      rw [Nat.toDigits_of_base_le (by decide) hge, List.head?_append_of_ne_nil _ hne]
      exact ih (n / 10) (by omega) (by omega)

/-! ## Trimming -/

/-- The Unicode `White_Space` property. -/
def isWhitespace (c : Char) : Bool :=
  let n := c.toNat
  (0x9 ≤ n && n ≤ 0xd) || n = 0x20 || n = 0x85 || n = 0xa0 || n = 0x1680 ||
    (0x2000 ≤ n && n ≤ 0x200a) || n = 0x2028 || n = 0x2029 || n = 0x202f || n = 0x205f ||
    n = 0x3000

def trimStart (text : List Char) : List Char := text.dropWhile isWhitespace

def trimChars (text : List Char) : List Char := (trimStart (trimStart text).reverse).reverse

def trim (text : String) : String := String.ofList (trimChars text.toList)

theorem trim_eq_self {text : String} (h : ∀ c ∈ text.toList, isWhitespace c = false) :
    trim text = text := by
  have hdrop : ∀ cs : List Char, (∀ c ∈ cs, isWhitespace c = false) →
      cs.dropWhile isWhitespace = cs := by
    intro cs hcs
    cases cs with
    | nil => rfl
    | cons c cs => simp [hcs c mem_cons_self]
  have hrev : ∀ c ∈ text.toList.reverse, isWhitespace c = false :=
    fun c hc => h c (mem_reverse.mp hc)
  rw [trim, trimChars, trimStart, trimStart, hdrop _ h, hdrop _ hrev, reverse_reverse,
    String.ofList_toList]

theorem trim_trim (text : String) : trim (trim text) = trim text := by
  have htrim : ∀ s : String, trim s =
      String.ofList ((s.toList.dropWhile isWhitespace).rdropWhile isWhitespace) := fun _ => rfl
  have hstart : ((text.toList.dropWhile isWhitespace).rdropWhile isWhitespace).dropWhile
      isWhitespace = (text.toList.dropWhile isWhitespace).rdropWhile isWhitespace := by
    -- what is cut at the end leaves the first character alone
    have hcut := rdropWhile_prefix isWhitespace (text.toList.dropWhile isWhitespace)
    rw [dropWhile_eq_self_iff]
    intro hpos
    rw [List.IsPrefix.getElem hcut hpos]
    exact dropWhile_get_zero_not isWhitespace text.toList (hpos.trans_le hcut.length_le)
  rw [htrim (trim text), htrim text, String.toList_ofList, hstart, rdropWhile_idempotent]

theorem trimChars_split (text : List Char) : ∃ lead trail, text = lead ++ trimChars text ++ trail ∧
    (∀ c ∈ lead, isWhitespace c) ∧ ∀ c ∈ trail, isWhitespace c := by
  refine ⟨text.takeWhile isWhitespace, ((trimStart text).reverse.takeWhile isWhitespace).reverse,
    ?_, fun c => mem_takeWhile_imp, fun c hc => mem_takeWhile_imp (mem_reverse.mp hc)⟩
  have hjoin := fun text : List Char => takeWhile_append_dropWhile (p := isWhitespace) (l := text)
  simp only [trimChars, trimStart, append_assoc, ← reverse_append, hjoin, reverse_reverse]

theorem trimChars_bracketed {lead mid trail : List Char} {a z : Char}
    (hlead : ∀ c ∈ lead, isWhitespace c) (htrail : ∀ c ∈ trail, isWhitespace c)
    (ha : isWhitespace a = false) (hz : isWhitespace z = false) :
    trimChars (lead ++ (a :: (mid ++ [z])) ++ trail) = a :: (mid ++ [z]) := by
  have hstart : ∀ {blank rest : List Char} {c : Char}, (∀ b ∈ blank, isWhitespace b) →
      isWhitespace c = false → trimStart (blank ++ c :: rest) = c :: rest := by
    intro blank rest c hblank hc
    rw [trimStart, dropWhile_append_of_pos hblank, dropWhile_cons_of_neg (by simp [hc])]
  have hrev : ∀ b ∈ trail.reverse, isWhitespace b := fun b hb => htrail b (mem_reverse.mp hb)
  rw [trimChars, append_assoc, cons_append, hstart hlead ha]
  have hturn : (a :: (mid ++ [z] ++ trail)).reverse = trail.reverse ++ z :: (a :: mid).reverse := by
    simp
  rw [hturn, hstart hrev hz]
  simp

/-! ## Quoted text -/

/-- A character in the quotes of a Rust `{:?}`; control characters are written by their number.
All others stand for themselves, also those from `0xa0` on that Rust takes from its tables of
unprintable characters and combining marks and escapes as well. -/
def debugChar (c : Char) : List Char :=
  if c = '"' then ['\\', '"']
  else if c = '\\' then ['\\', '\\']
  else if c = '\t' then ['\\', 't']
  else if c = '\n' then ['\\', 'n']
  else if c = '\r' then ['\\', 'r']
  else if c.toNat = 0 then ['\\', '0']
  else if c.toNat < 0x20 ∨ (0x7f ≤ c.toNat ∧ c.toNat < 0xa0) then
    ['\\', 'u', '\x7b'] ++ Nat.toDigits 16 c.toNat ++ ['\x7d']
  else [c]

/-- A text as Rust prints it with `{:?}`. -/
def debugString (text : String) : String :=
  String.ofList ('"' :: text.toList.flatMap debugChar ++ ['"'])

/-! ## Zero-padded numbers -/

/-- `n` in decimal, padded with zeros on the left to at least `width` digits. -/
def zeroPadded (width n : Nat) : String := String.ofList ((Nat.toDigits 10 n).leftpad width '0')

theorem ofDigitChars_zeros (k : Nat) (cs : List Char) :
    Nat.ofDigitChars 10 (replicate k '0' ++ cs) 0 = Nat.ofDigitChars 10 cs 0 := by
  induction k with
  | zero => rfl
  | succ k ih => rw [replicate_succ, cons_append, Nat.ofDigitChars_cons]; simpa using ih

theorem zeroPadded_inj {width m n : Nat} : zeroPadded width m = zeroPadded width n ↔ m = n := by
  refine ⟨fun h => ?_, fun h => by rw [h]⟩
  have hread := congrArg (fun cs => Nat.ofDigitChars 10 cs 0) (String.ofList_inj.mp h)
  simp only [leftpad, ofDigitChars_zeros] at hread
  rwa [Nat.ofDigitChars_toDigits (by decide) (by decide),
    Nat.ofDigitChars_toDigits (by decide) (by decide)] at hread

end BittyAi.Lib
