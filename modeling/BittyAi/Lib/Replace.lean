/-
BittyAi.Lib.Replace — replacing every occurrence of a needle by a marker, from left
to right and without overlaps.

`absent_replaceAll_iff` says for which needles no text keeps one: the needle must
not occur in a marker, nor begin in a marker, nor run into one from a gap in front
of it. The last can be harmless: if the needle would have been found earlier, the
gap is not there.
-/
import Mathlib.Data.List.Infix

namespace BittyAi.Lib

open List

section Occurrences

variable {α : Type*} {needle text gap rest : List α}

def windows (size : Nat) (xs : List α) : List (List α) :=
  (range (xs.length + 1 - size)).map fun i => (xs.drop i).take size

theorem mem_windows (needle xs : List α) : needle ∈ windows needle.length xs ↔ needle <:+: xs := by
  simp only [windows, mem_map, mem_range]
  constructor
  · rintro ⟨i, -, h⟩
    exact h ▸ ( take_prefix _ _).isInfix.trans (drop_suffix _ _).isInfix
  · rintro ⟨front, back, rfl⟩
    refine ⟨front.length, ?_, by simp⟩
    simp only [length_append]
    omega

theorem exists_first (h : needle <:+: text) :
    ∃ gap rest, text = gap ++ (needle ++ rest) ∧ ∀ i < gap.length, ¬needle <+: text.drop i := by
  induction text with
  | nil =>
    obtain rfl := eq_nil_of_infix_nil h
    exact ⟨[], [], rfl, by simp⟩
  | cons a text ih =>
    by_cases hhere : needle <+: a :: text
    · obtain ⟨rest, hrest⟩ := hhere
      exact ⟨[], rest, hrest.symm, by simp⟩
    · obtain ⟨gap, rest, htext, hfirst⟩ := ih ((infix_cons_iff.mp h).resolve_left hhere)
      refine ⟨a :: gap, rest, by simp [htext], fun i hi => ?_⟩
      cases i with
      | zero => exact hhere
      | succ i => exact hfirst i (by simpa using hi)

theorem prefix_drop_append {i : Nat} (hi : i < gap.length) :
    needle <+: (gap ++ (needle ++ rest)).drop i ↔ needle <+: (gap ++ needle).drop i := by
  have hlength : needle.length ≤ ((gap ++ needle).drop i).length := by
    rw [length_drop, length_append]
    omega
  have hmore : (gap ++ (needle ++ rest)).drop i = (gap ++ needle).drop i ++ rest := by
    rw [← append_assoc, drop_append_of_le_length (by simp; omega)]
  rw [hmore]
  exact ⟨fun h => prefix_of_prefix_length_le h (prefix_append _ _) hlength,
    fun h => h.trans (prefix_append _ _)⟩

theorem prefix_append_cases {whole left right : List α} (h : whole <+: left ++ right) :
    whole <+: left ∨ ∃ more, more ≠ [] ∧ whole = left ++ more ∧ more <+: right := by
  rcases prefix_or_prefix_of_prefix h (prefix_append left right) with hin | ⟨more, rfl⟩
  · exact .inl hin
  · by_cases hmore : more = []
    · exact .inl (by simp [hmore])
    · exact .inr ⟨more, hmore, rfl, (prefix_append_right_inj left).mp h⟩

theorem scan_induction {P : List α → Prop} (hne : needle ≠ []) (nil : P [])
    (found : ∀ rest, P rest → P (needle ++ rest))
    (skip : ∀ a rest, ¬needle <+: a :: rest → P rest → P (a :: rest)) (text : List α) : P text := by
  have hpos := length_pos_iff.mpr hne
  induction hlen : text.length using Nat.strong_induction_on generalizing text with
  | _ n ih =>
    by_cases hhere : needle <+: text
    · obtain ⟨rest, rfl⟩ := hhere
      rw [length_append] at hlen
      exact found rest (ih rest.length (by omega) rest rfl)
    · cases text with
      | nil => exact nil
      | cons a rest =>
        rw [length_cons] at hlen
        exact skip a rest hhere (ih rest.length (by omega) rest rfl)

end Occurrences

variable {α : Type*} [DecidableEq α]

/-- Replacing; `skip` elements belong to the match that has just been replaced. -/
def replaceFrom (needle marker : List α) : Nat → List α → List α
  | _, [] => []
  | skip + 1, _ :: rest => replaceFrom needle marker skip rest
  | 0, a :: rest =>
    if needle.isPrefixOf (a :: rest) then
      marker ++ replaceFrom needle marker (needle.length - 1) rest
    else a :: replaceFrom needle marker 0 rest

def replaceAll (needle marker text : List α) : List α := replaceFrom needle marker 0 text

variable {needle marker text gap : List α}

/-! ## How the scan goes on -/

theorem replaceFrom_skip (piece rest : List α) :
    replaceFrom needle marker piece.length (piece ++ rest) = replaceAll needle marker rest := by
  induction piece with
  | nil => rfl
  | cons a piece ih => exact ih

@[simp] theorem replaceAll_nil : replaceAll needle marker [] = [] := rfl

theorem replaceAll_match (hne : needle ≠ []) (rest : List α) :
    replaceAll needle marker (needle ++ rest) = marker ++ replaceAll needle marker rest := by
  obtain ⟨a, tail, rfl⟩ := exists_cons_of_ne_nil hne
  have hfound : (a :: tail).isPrefixOf (a :: (tail ++ rest)) = true := by simp
  rw [replaceAll, cons_append, replaceFrom, if_pos hfound]
  simp [replaceFrom_skip]

theorem replaceAll_skip {a : α} {rest : List α} (h : ¬needle <+: a :: rest) :
    replaceAll needle marker (a :: rest) = a :: replaceAll needle marker rest := by
  rw [replaceAll, replaceFrom, if_neg (by simpa using h)]
  rfl

theorem replaceAll_gap {rest : List α} (h : ∀ i < gap.length, ¬needle <+: (gap ++ rest).drop i) :
    replaceAll needle marker (gap ++ rest) = gap ++ replaceAll needle marker rest := by
  induction gap with
  | nil => rfl
  | cons a gap ih =>
    have hhere : ¬needle <+: a :: (gap ++ rest) := h 0 (by simp)
    rw [cons_append, replaceAll_skip hhere, ih, cons_append]
    intro i hi
    exact h (i + 1) (by simpa using hi)

theorem replaceAll_of_absent (h : ¬needle <:+: text) : replaceAll needle marker text = text := by
  induction text with
  | nil => rfl
  | cons a text ih =>
    rw [infix_cons_iff, not_or] at h
    rw [replaceAll_skip h.1, ih h.2]

theorem replaceAll_short (h : text.length < needle.length) : replaceAll needle marker text = text :=
  replaceAll_of_absent fun hinfix => Nat.not_le.mpr h hinfix.length_le

/-! ## What is left -/

structure Apart {α : Type*} (needle marker : List α) : Prop where
  outside : ¬needle <:+: marker
  behind : ∀ tail rest, tail <:+ marker → tail ≠ [] → rest ≠ [] → needle ≠ tail ++ rest
  before : ∀ front back, front ≠ [] → back ≠ [] → needle = front ++ back →
    (back <+: marker ∨ marker <+: back) → ∃ i < front.length, needle <+: (front ++ needle).drop i

theorem Apart.prefix_replaceAll (apart : Apart needle marker) (hne : needle ≠ [])
    (h : ¬needle <+: text) : ¬needle <+: replaceAll needle marker text := by
  by_cases hsome : needle <:+: text
  · obtain ⟨gap, rest, rfl, hfirst⟩ := exists_first hsome
    rw [replaceAll_gap hfirst, replaceAll_match hne]
    intro hfront
    rcases prefix_append_cases hfront with hgap | ⟨back, hback, hneedle, hmarker⟩
    · exact h (hgap.trans (prefix_append _ _))
    · -- the needle would run from the gap into the marker
      have hgap : gap ≠ [] := by
        rintro rfl
        exact h (by simp)
      obtain ⟨i, hi, hearly⟩ := apart.before gap back hgap hback hneedle
        ( prefix_or_prefix_of_prefix hmarker (prefix_append _ _))
      exact hfirst i hi ((prefix_drop_append hi).mpr hearly)
  · rwa [replaceAll_of_absent hsome]

theorem Apart.absent_replaceAll (apart : Apart needle marker) (hne : needle ≠ []) (text : List α) :
    ¬needle <:+: replaceAll needle marker text := by
  induction text using scan_induction hne with
  | nil => simpa [replaceAll_nil] using hne
  | found rest ih =>
    rw [replaceAll_match hne]
    rintro ⟨front, back, h⟩
    rw [append_assoc, append_eq_append_iff] at h
    rcases h with ⟨tail, hmarker, hneedle⟩ | ⟨more, -, hrest⟩
    · -- the occurrence begins in the marker
      rcases prefix_append_cases ⟨back, hneedle⟩ with hin | ⟨more, hmore, heq, -⟩
      · refine apart.outside (hin.isInfix.trans ⟨front, [], by simp [hmarker]⟩)
      · by_cases htail : tail = []
        · subst htail
          exact ih ⟨[], back, by simpa using hneedle⟩
        · exact apart.behind tail more ⟨front, hmarker.symm⟩ htail hmore heq
    · exact ih ⟨more, back, by simp [hrest]⟩
  | skip a rest hskip ih =>
    rw [replaceAll_skip hskip, infix_cons_iff, not_or]
    refine ⟨?_, ih⟩
    rw [← replaceAll_skip hskip]
    exact apart.prefix_replaceAll hne hskip

theorem absent_replaceAll_iff (hne : needle ≠ []) :
    (∀ text, ¬needle <:+: replaceAll needle marker text) ↔ Apart needle marker := by
  refine ⟨fun h => ⟨fun hin => ?_, ?_, ?_⟩, fun apart => apart.absent_replaceAll hne⟩
  · apply h needle
    have hself : replaceAll needle marker needle = marker := by simpa using replaceAll_match hne []
    rwa [hself]
  · rintro tail rest ⟨front, rfl⟩ htail - rfl
    have hshort : rest.length < (tail ++ rest).length := by
      have := length_pos_iff.mpr htail
      rw [length_append]
      omega
    apply h ((tail ++ rest) ++ rest)
    rw [replaceAll_match hne, replaceAll_short hshort]
    exact ⟨front, [], by simp⟩
  · rintro front back hfront hback hneedle hmarker
    by_contra hearly
    have hgap : ∀ rest, replaceAll needle marker (front ++ (needle ++ rest)) =
        front ++ (marker ++ replaceAll needle marker rest) := by
      intro rest
      rw [replaceAll_gap, replaceAll_match hne]
      intro i hi hfound
      exact hearly ⟨i, hi, (prefix_drop_append hi).mp hfound⟩
    rcases hmarker with ⟨more, rfl⟩ | ⟨more, rfl⟩
    · apply h (front ++ (needle ++ []))
      rw [hgap, replaceAll_nil]
      exact ⟨[], more, by simp [hneedle]⟩
    · have hshort : more.length < needle.length := by
        have := length_pos_iff.mpr hfront
        rw [hneedle, length_append, length_append]
        omega
      apply h (front ++ (needle ++ more))
      rw [hgap, replaceAll_short hshort]
      exact ⟨[], [], by simp [hneedle]⟩

end BittyAi.Lib
