/-
BittyAi.Lib.JsonText — compact JSON text of strings, objects and arrays.
-/
import BittyAi.Lib.Text

namespace BittyAi.Lib

open List

def jsonChar (c : Char) : List Char :=
  let digit (n : Nat) : Char := if n < 10 then Char.ofNat (48 + n) else Char.ofNat (87 + n)
  if c = '"' then ['\\', '"']
  else if c = '\\' then ['\\', '\\']
  else if c = '\x08' then ['\\', 'b']
  else if c = '\t' then ['\\', 't']
  else if c = '\n' then ['\\', 'n']
  else if c = '\x0c' then ['\\', 'f']
  else if c = '\r' then ['\\', 'r']
  else if c.toNat < 0x20 then ['\\', 'u', '0', '0', digit (c.toNat / 16), digit (c.toNat % 16)]
  else [c]

def jsonString (text : String) : String :=
  String.ofList ('"' :: text.toList.flatMap jsonChar ++ ['"'])

def jsonObject (members : List (String × String)) : String :=
  "\x7b" ++ String.intercalate "," (members.map fun (key, value) =>
    jsonString key ++ ":" ++ jsonString value) ++ "\x7d"

def jsonMembers (members : List (String × String)) : String :=
  "\x7b" ++ String.intercalate "," (members.map fun (key, value) =>
    jsonString key ++ ":" ++ value) ++ "\x7d"

def jsonArray (values : List String) : String := "[" ++ String.intercalate "," values ++ "]"

example : jsonObject [("why", "a \"b\"\n"), ("what", "é")] =
    "\x7b\"why\":\"a \\\"b\\\"\\n\",\"what\":\"é\"\x7d" := by decide +kernel

/-! ## Lengths -/

theorem jsonChar_cases (c : Char) :
    jsonChar c = [c] ∨ (jsonChar c).length ≤ 6 ∧ ∀ d ∈ jsonChar c, d.utf8Size = 1 := by
  have hdigit : ∀ n < 16,
      (if n < 10 then Char.ofNat (48 + n) else Char.ofNat (87 + n)).utf8Size = 1 := by
    decide
  have hpair : ∀ {letter : Char}, letter.utf8Size = 1 → ∀ d ∈ ['\\', letter], d.utf8Size = 1 := by
    intro letter h d hd
    rcases mem_pair.mp hd with rfl | rfl
    · decide
    · exact h
  unfold jsonChar
  dsimp only
  iterate 7
    split
    next => exact .inr ⟨by decide, hpair (by decide)⟩
  split
  next hcontrol =>
    refine .inr ⟨by simp, ?_⟩
    simp only [mem_cons, not_mem_nil, or_false]
    rintro d (rfl | rfl | rfl | rfl | rfl | rfl)
    iterate 4 decide
    · exact hdigit _ (by omega)
    · exact hdigit _ (by omega)
  next => exact .inl rfl

theorem jsonChar_size_le (c : Char) :
    (String.ofList (jsonChar c)).utf8ByteSize ≤ 6 * c.utf8Size := by
  have hpos := c.utf8Size_pos
  rcases jsonChar_cases c with hself | ⟨hlength, hascii⟩
  · simp [hself]
    omega
  · rw [utf8ByteSize_ofList_ascii hascii]
    omega

theorem jsonString_size_le (text : String) :
    (jsonString text).utf8ByteSize ≤ 2 + 6 * text.utf8ByteSize := by
  have hbody : ∀ cs : List Char, (String.ofList (cs.flatMap jsonChar)).utf8ByteSize ≤
      6 * (String.ofList cs).utf8ByteSize := by
    intro cs
    induction cs with
    | nil => simp
    | cons c cs ih =>
      have hc := jsonChar_size_le c
      simp only [flatMap_cons, String.ofList_append, String.ofList_cons,
        String.utf8ByteSize_append, String.utf8ByteSize_singleton]
      omega
  have htext := hbody text.toList
  rw [String.ofList_toList] at htext
  have hquote : ('"' : Char).utf8Size = 1 := by decide
  simp only [jsonString, String.ofList_append, String.ofList_cons, String.ofList_nil,
    String.utf8ByteSize_append, String.utf8ByteSize_singleton, String.utf8ByteSize_empty, hquote]
  omega

theorem intercalate_size_le {values : List String} {m : Nat}
    (h : ∀ value ∈ values, value.utf8ByteSize ≤ m) :
    (String.intercalate "," values).utf8ByteSize ≤ values.length * (m + 1) := by
  induction values with
  | nil => simp
  | cons value rest ih =>
    have hvalue := h value mem_cons_self
    have hrest := ih fun other hother => h other (mem_cons_of_mem _ hother)
    have hcomma : (",").utf8ByteSize = 1 := by decide
    rw [length_cons, Nat.succ_mul]
    cases rest with
    | nil =>
      rw [String.intercalate_singleton]
      omega
    | cons next rest =>
      rw [String.intercalate_cons_cons, String.utf8ByteSize_append, String.utf8ByteSize_append]
      omega

theorem jsonArray_size_le {values : List String} {m : Nat}
    (h : ∀ value ∈ values, value.utf8ByteSize ≤ m) :
    (jsonArray values).utf8ByteSize ≤ 2 + values.length * (m + 1) := by
  have hvalues := intercalate_size_le h
  have hopen : ("[").utf8ByteSize = 1 := by decide
  have hclose : ("]").utf8ByteSize = 1 := by decide
  rw [jsonArray, String.utf8ByteSize_append, String.utf8ByteSize_append]
  omega

theorem length_le_utf8ByteSize (text : String) : text.length ≤ text.utf8ByteSize := by
  have hchars : ∀ cs : List Char, cs.length ≤ (String.ofList cs).utf8ByteSize := by
    intro cs
    induction cs with
    | nil => simp
    | cons c cs ih =>
      have hpos := c.utf8Size_pos
      simp only [String.ofList_cons, String.utf8ByteSize_append, String.utf8ByteSize_singleton,
        length_cons]
      omega
  have htext := hchars text.toList
  rwa [String.ofList_toList, String.length_toList] at htext

theorem jsonArray_length_le_of_sublist {values kept : List String} (h : kept.Sublist values) :
    (jsonArray kept).length ≤ (jsonArray values).length := by
  have hfirst : ∀ (value : String) (rest : List String), rest ≠ [] →
      (String.intercalate "," (value :: rest)).length =
        value.length + 1 + (String.intercalate "," rest).length := by
    intro value rest hrest
    obtain ⟨next, rest, rfl⟩ := exists_cons_of_ne_nil hrest
    have hcomma : (",").length = 1 := by decide
    rw [String.intercalate_cons_cons, String.length_append, String.length_append, hcomma]
  have hjoined : (String.intercalate "," kept).length ≤ (String.intercalate "," values).length := by
    induction h with
    | slnil => exact Nat.le_refl _
    | @cons kept values value h ih =>
      rcases eq_or_ne values [] with rfl | hvalues
      · rw [sublist_nil.mp h]
        simp
      · rw [hfirst value values hvalues]
        omega
    | @cons_cons kept values value h ih =>
      rcases eq_or_ne kept [] with rfl | hkept
      · rcases eq_or_ne values [] with rfl | hvalues
        · exact Nat.le_refl _
        · rw [hfirst value values hvalues, String.intercalate_singleton]
          omega
      · have hvalues : values ≠ [] := by
          rintro rfl
          exact hkept (sublist_nil.mp h)
        rw [hfirst value kept hkept, hfirst value values hvalues]
        omega
  simp only [jsonArray, String.length_append]
  omega

end BittyAi.Lib
