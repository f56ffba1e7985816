/-
BittyAi.Runtime.Secret — the secret container of `bitty-ai-runtime/src/secret.rs`, its two
helpers for diagnostic texts, and which secrets `scrub_from` removes from every text.

A match of a secret that is not text cuts a character, so the scrubbed bytes are no text
and the marker alone is returned. A secret that occurs in the marker, such as `secret`, is
put back by it.
-/
import BittyAi.Lib.Replace
import BittyAi.Lib.Utf8

namespace BittyAi.Runtime

open Lib

def maxSecretLen : Nat := 4 * 1024

def secretRedacted : String := "[redacted secret]"

inductive SecretError where
  | empty
  | tooLong (max : Nat)
  deriving DecidableEq

/-- Bytes that `SecretField::new` accepts. -/
structure SecretField where
  bytes : List UInt8
  nonempty : bytes ≠ []
  bounded : bytes.length ≤ maxSecretLen
  deriving DecidableEq

namespace SecretField

def new (value : List UInt8) : Except SecretError SecretField :=
  if hempty : value = [] then .error .empty
  else if hlong : value.length > maxSecretLen then .error (.tooLong maxSecretLen)
  else .ok ⟨value, hempty, Nat.not_lt.mp hlong⟩

def isAbsentFrom (secret : SecretField) (haystack : String) : Bool :=
  if (utf8Bytes haystack).length < secret.bytes.length then true
  else (windows secret.bytes.length (utf8Bytes haystack)).all (· ≠ secret.bytes)

/-- `str::replace` for a secret that is text, and a scan over the bytes otherwise. -/
def scrubFrom (secret : SecretField) (haystack : String) : String :=
  match fromUtf8? secret.bytes with
  | some text => String.ofList (replaceAll text.toList secretRedacted.toList haystack.toList)
  | none =>
    let scrubbed := replaceAll secret.bytes (utf8Bytes secretRedacted) (utf8Bytes haystack)
    (fromUtf8? scrubbed).getD secretRedacted

/-! ## Scrubbing -/

variable {secret : SecretField} {haystack : String}

theorem isAbsentFrom_iff :
    secret.isAbsentFrom haystack = true ↔ ¬secret.bytes <:+: utf8Bytes haystack := by
  unfold isAbsentFrom
  split
  · rename_i hshort
    simp only [true_iff]
    exact fun hinfix => Nat.not_le.mpr hshort hinfix.length_le
  · rw [← mem_windows, List.all_eq_true]
    constructor
    · intro h hmem
      simpa using h _ hmem
    · intro h window hwindow
      have hne : window ≠ secret.bytes := fun heq => h (heq ▸ hwindow)
      simpa using hne

/-! ## Secrets that are text -/

theorem isAbsentFrom_text {text : String} (htext : secret.bytes = utf8Bytes text) :
    secret.isAbsentFrom haystack = true ↔ ¬text.toList <:+: haystack.toList := by
  have hne : text.toList ≠ [] := by
    intro hempty
    apply secret.nonempty
    rw [htext, utf8Bytes_eq_encode, hempty, encode_nil]
  rw [isAbsentFrom_iff, htext, utf8Bytes_eq_encode, utf8Bytes_eq_encode, encode_infix hne]

theorem scrubFrom_text {text : String} (htext : secret.bytes = utf8Bytes text) :
    (secret.scrubFrom haystack).toList =
      replaceAll text.toList secretRedacted.toList haystack.toList := by
  rw [scrubFrom, fromUtf8?_eq_some.mpr htext]
  exact String.toList_ofList

/-! ## Other secrets -/

/-- Octets that are no text can occur in a text only across a character, so what replaces them
does not fit there. -/
theorem not_text_replaceAll {needle bytes : List UInt8} (hne : needle ≠ [])
    (hneedle : ∀ cs, encode cs ≠ needle) {marker text : List Char} (hmarker : marker ≠ [])
    (hoccurs : needle <:+: encode text)
    (hbytes : bytes = replaceAll needle (encode marker) (encode text)) (cs : List Char) :
    encode cs ≠ bytes := by
  obtain ⟨gap, rest, htext, hfirst⟩ := exists_first hoccurs
  rw [htext] at hfirst
  rw [htext, replaceAll_gap hfirst, replaceAll_match hne] at hbytes
  intro hcs
  rw [hbytes] at hcs
  have hmarkerStart :
      isBoundary (encode marker ++ replaceAll needle (encode marker) rest) = true := by
    obtain ⟨c, marker, rfl⟩ := List.exists_cons_of_ne_nil hmarker
    obtain ⟨lead, tail, hencode, hlead, -⟩ := utf8EncodeChar_lead c
    simp [hencode, isBoundary, hlead]
  -- so the gap, and with it what follows it in the haystack, is text
  obtain ⟨front, behind, -, hfront, hbehind⟩ := encode_split hcs hmarkerStart
  obtain ⟨scrubbed, -, hscrubbed⟩ := encode_cancel hbehind.symm
  rw [← hfront] at htext
  obtain ⟨tail, -, htail⟩ := encode_cancel htext.symm
  -- the needle ends inside a character, so a continuation octet follows it
  have hcut : isBoundary rest = false := by
    rw [Bool.eq_false_iff]
    intro hboundary
    obtain ⟨as, -, -, has, -⟩ := encode_split htail.symm hboundary
    exact hneedle as has
  have hstart : isBoundary (needle ++ rest) = true := by
    rw [htail]
    exact isBoundary_encode tail
  have hkept : isBoundary (replaceAll needle (encode marker) rest) = false := by
    cases rest with
    | nil => cases hcut
    | cons b rest =>
      have hskip : ¬needle <+: b :: rest := by
        obtain ⟨a, needle, rfl⟩ := List.exists_cons_of_ne_nil hne
        intro hprefix
        obtain rfl := (List.cons_prefix_cons.mp hprefix).1
        simp [isBoundary] at hcut hstart
        rw [hcut] at hstart
        cases hstart
      rw [replaceAll_skip hskip]
      exact hcut
  rw [hscrubbed, isBoundary_encode] at hkept
  cases hkept

theorem not_infix_marker (h : fromUtf8? secret.bytes = none) :
    ¬secret.bytes <:+: utf8Bytes secretRedacted := by
  rintro ⟨front, back, hmarker⟩
  have hascii : ∀ b ∈ utf8Bytes secretRedacted, isContinuation b = false := by decide +kernel
  have hboundary : ∀ bytes : List UInt8, bytes <:+ utf8Bytes secretRedacted →
      isBoundary bytes = true := by
    intro bytes hsuffix
    cases bytes with
    | nil => rfl
    | cons b bytes => simp [isBoundary, hascii b (hsuffix.subset List.mem_cons_self)]
  rw [fromUtf8?_eq_none] at h
  rw [utf8Bytes_eq_encode, List.append_assoc] at hmarker
  obtain ⟨-, cs, -, -, hcs⟩ := encode_split hmarker.symm
    (hboundary _ ⟨front, by rw [utf8Bytes_eq_encode, hmarker]⟩)
  obtain ⟨as, -, -, has, -⟩ := encode_split hcs
    (hboundary _ ⟨front ++ secret.bytes, by rw [utf8Bytes_eq_encode, ← hmarker]; simp⟩)
  exact h as has

theorem scrub_of_not_text (h : fromUtf8? secret.bytes = none) (haystack : String) :
    secret.isAbsentFrom (secret.scrubFrom haystack) = true := by
  rw [isAbsentFrom_iff, scrubFrom, h]
  by_cases hoccurs : secret.bytes <:+: utf8Bytes haystack
  · have hno : fromUtf8? (replaceAll secret.bytes (utf8Bytes secretRedacted)
        (utf8Bytes haystack)) = none := by
      rw [utf8Bytes_eq_encode] at hoccurs
      rw [fromUtf8?_eq_none, utf8Bytes_eq_encode, utf8Bytes_eq_encode]
      exact not_text_replaceAll secret.nonempty (fromUtf8?_eq_none.mp h) (by decide) hoccurs rfl
    simp only [hno, Option.getD_none]
    exact not_infix_marker h
  · simp only [replaceAll_of_absent hoccurs, fromUtf8?_eq_some.mpr rfl, Option.getD_some]
    exact hoccurs

/-! ## The secrets that are removed -/

/-- A secret is removed from every haystack exactly if it is no text or a text that cannot overlap
the marker. -/
theorem scrub_removes_iff (secret : SecretField) :
    (∀ haystack, secret.isAbsentFrom (secret.scrubFrom haystack) = true) ↔
      ∀ text, secret.bytes = utf8Bytes text → Apart text.toList secretRedacted.toList := by
  cases htext : fromUtf8? secret.bytes with
  | none =>
    refine iff_of_true (scrub_of_not_text htext) fun text hbytes => ?_
    rw [fromUtf8?_eq_some.mpr hbytes] at htext
    cases htext
  | some text =>
    have hbytes := fromUtf8?_eq_some.mp htext
    have hne : text.toList ≠ [] := by
      intro hempty
      apply secret.nonempty
      rw [hbytes, utf8Bytes_eq_encode, hempty, encode_nil]
    have honly : (∀ other, secret.bytes = utf8Bytes other →
        Apart other.toList secretRedacted.toList) ↔ Apart text.toList secretRedacted.toList := by
      refine ⟨fun h => h text hbytes, fun h other hother => ?_⟩
      rwa [← utf8Bytes_inj.mp (hbytes.symm.trans hother)]
    rw [honly, ← absent_replaceAll_iff hne]
    simp only [isAbsentFrom_text hbytes, scrubFrom_text hbytes]
    refine ⟨fun h cs => ?_, fun h haystack => h haystack.toList⟩
    have hcs := h (String.ofList cs)
    rwa [String.toList_ofList] at hcs

/-- The word `secret` is put back by the marker. -/
theorem scrub_restores_secret : ∃ secret, SecretField.new (utf8Bytes "secret") = .ok secret ∧
      secret.isAbsentFrom (secret.scrubFrom "token: secret") = false := by
  refine ⟨⟨utf8Bytes "secret", by decide, by decide⟩, by decide, by decide +kernel⟩

end SecretField

end BittyAi.Runtime
