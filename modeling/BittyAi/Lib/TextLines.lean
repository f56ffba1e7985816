/-
BittyAi.Lib.TextLines — the lines of a text, and the text with its lines indented.

Nothing is added between two characters of a line, so a pair of characters that stands in the
indented text stands in the text itself, and no later (`indented_pair`). Behind a line break
of the indented text stands a blank (`indented_break`).
-/
import Mathlib.Data.List.Infix
import BittyAi.Lib.Utf8

namespace BittyAi.Lib

open List

variable {b : Char} {line text l r : List Char}

def stripCr (line : List Char) : List Char :=
  if line.getLast? = some '\r' then line.dropLast else line

/-- The lines of a text whose first line has started with `line`. -/
def linesFrom (line : List Char) : List Char → List (List Char)
  | [] => if line.isEmpty then [] else [line]
  | c :: cs => if c = '\n' then stripCr line :: linesFrom [] cs else linesFrom (line ++ [c]) cs

def lines (text : List Char) : List (List Char) := linesFrom [] text

def indentLine (line : List Char) : List Char := ' ' :: ' ' :: (line ++ ['\n'])

def indented (text : List Char) : List Char := (lines text).flatMap indentLine

/-! ## Pairs of characters -/

theorem stripCr_eq (line : List Char) : stripCr line = line ∨ line = stripCr line ++ ['\r'] := by
  unfold stripCr
  split
  next h =>
    obtain ⟨front, rfl⟩ := getLast?_eq_some_iff.mp h
    exact .inr (by simp)
  next => exact .inl rfl

theorem length_le_stripCr (line : List Char) : line.length ≤ (stripCr line).length + 1 := by
  rcases stripCr_eq line with hsame | hcr
  · rw [hsame]
    omega
  · rw [congrArg length hcr, length_append, length_singleton]

theorem pair_cons {a c : Char} {xs : List Char} (h : c :: xs = l ++ a :: b :: r)
    (hne : a ≠ c) : ∃ l', l = c :: l' ∧ xs = l' ++ a :: b :: r := by
  cases l with
  | nil =>
    cases h
    exact absurd rfl hne
  | cons d l' =>
    cases h
    exact ⟨l', rfl, rfl⟩

theorem pair_append_break {a : Char} {rest : List Char} (ha : a ≠ '\n') (hb : b ≠ '\n')
    (h : line ++ '\n' :: rest = l ++ a :: b :: r) :
    (∃ r', line = l ++ a :: b :: r') ∨ ∃ l', l = line ++ '\n' :: l' ∧ rest = l' ++ a :: b :: r := by
  induction line generalizing l with
  | nil =>
    obtain ⟨l', rfl, hrest⟩ := pair_cons h ha
    exact .inr ⟨l', rfl, hrest⟩
  | cons c line ih =>
    cases l with
    | nil =>
      cases line with
      | nil =>
        cases h
        exact absurd rfl hb
      | cons d line =>
        cases h
        exact .inl ⟨line, rfl⟩
    | cons d l =>
      obtain ⟨rfl, htail⟩ := cons_eq_cons.mp h
      rcases ih htail with ⟨r', rfl⟩ | ⟨l', rfl, hrest⟩
      · exact .inl ⟨r', rfl⟩
      · exact .inr ⟨l', rfl, hrest⟩

theorem indented_pair_from {a : Char} (hblank : a ≠ ' ') (ha : a ≠ '\n') (hb : b ≠ '\n')
    (h : (linesFrom line text).flatMap indentLine = l ++ a :: b :: r) :
    ∃ l' r', line ++ text = l' ++ a :: b :: r' ∧ l'.length ≤ l.length := by
  -- a line that was read up to the pair holds it
  have hline : ∀ {line rest l : List Char},
      ' ' :: ' ' :: (line ++ '\n' :: rest) = l ++ a :: b :: r →
        (∃ l' r', line = l' ++ a :: b :: r' ∧ l'.length ≤ l.length) ∨
          ∃ l', l.length = line.length + 3 + l'.length ∧ rest = l' ++ a :: b :: r := by
    intro line rest l h
    obtain ⟨l₁, rfl, h₁⟩ := pair_cons h hblank
    obtain ⟨l₂, rfl, h₂⟩ := pair_cons h₁ hblank
    rcases pair_append_break ha hb h₂ with ⟨r', hr'⟩ | ⟨l', rfl, hrest⟩
    · refine .inl ⟨l₂, r', hr', ?_⟩
      simp only [length_cons]
      omega
    · refine .inr ⟨l', ?_, hrest⟩
      simp only [length_cons, length_append]
      omega
  induction text generalizing line l with
  | nil =>
    rw [linesFrom] at h
    split at h
    · simp at h
    · simp only [flatMap_cons, flatMap_nil, append_nil, indentLine] at h
      rcases hline h with ⟨l', r', hr', hle⟩ | ⟨l', -, hrest⟩
      · exact ⟨l', r', by rw [append_nil, hr'], hle⟩
      · simp at hrest
  | cons c text ih =>
    rw [linesFrom] at h
    split at h
    next hbreak =>
      subst hbreak
      have hsplit : ' ' :: ' ' :: (stripCr line ++ '\n' :: (linesFrom [] text).flatMap indentLine) =
          l ++ a :: b :: r := by
        rw [← h]
        simp [indentLine]
      rcases hline hsplit with ⟨l', r', hr', hle⟩ | ⟨l', hlength, hrest⟩
      · rcases stripCr_eq line with hsame | hcr
        · exact ⟨l', r' ++ '\n' :: text, by rw [← hsame, hr']; simp, hle⟩
        · exact ⟨l', r' ++ '\r' :: '\n' :: text, by rw [hcr, hr']; simp, hle⟩
      · obtain ⟨l'', r'', hr'', hle⟩ := ih hrest
        refine ⟨line ++ '\n' :: l'', r'', ?_, ?_⟩
        · rw [nil_append] at hr''
          simp [hr'']
        · have hstrip := length_le_stripCr line
          simp only [length_append, length_cons]
          omega
    next =>
      obtain ⟨l', r', hr', hle⟩ := ih h
      exact ⟨l', r', by rw [← hr']; simp, hle⟩

theorem indented_pair {a : Char} (hblank : a ≠ ' ') (ha : a ≠ '\n') (hb : b ≠ '\n')
    (h : indented text = l ++ a :: b :: r) :
    ∃ l' r', text = l' ++ a :: b :: r' ∧ l'.length ≤ l.length :=
  indented_pair_from hblank ha hb h

/-! ## Line breaks -/

theorem break_not_mem_stripCr (h : '\n' ∉ line) : '\n' ∉ stripCr line := by
  rcases stripCr_eq line with hsame | hcr
  · rwa [hsame]
  · intro hmem
    rw [hcr] at h
    exact h (mem_append_left _ hmem)

theorem break_not_mem_linesFrom (h : '\n' ∉ line) : ∀ l ∈ linesFrom line text, '\n' ∉ l := by
  induction text generalizing line with
  | nil =>
    rw [linesFrom]
    split
    · simp
    · simpa using h
  | cons c text ih =>
    rw [linesFrom]
    split
    next => exact forall_mem_cons.mpr ⟨break_not_mem_stripCr h, ih not_mem_nil⟩
    next hne => exact ih (by simp [h, Ne.symm hne])

theorem indentLines_break {ls : List (List Char)} (hls : ∀ line ∈ ls, '\n' ∉ line)
    (h : ls.flatMap indentLine = l ++ '\n' :: b :: r) : b = ' ' := by
  induction ls generalizing l with
  | nil => simp at h
  | cons line ls ih =>
    have hline := hls line mem_cons_self
    have hfront : '\n' ∉ ' ' :: ' ' :: line := by simp [hline]
    -- the break behind this line
    have hbreak (h : '\n' :: ls.flatMap indentLine = '\n' :: b :: r) : b = ' ' := by
      cases ls with
      | nil => simp at h
      | cons next ls =>
        simp only [flatMap_cons, indentLine, cons_append, cons_eq_cons] at h
        exact h.2.1.symm
    have hsplit : (' ' :: ' ' :: line) ++ '\n' :: ls.flatMap indentLine = l ++ '\n' :: b :: r := by
      rw [← h]
      simp [indentLine]
    obtain ⟨between, hl, hbetween⟩ | ⟨between, hl, hbetween⟩ := append_eq_append_iff.mp hsplit
    · cases between with
      | nil => exact hbreak hbetween
      | cons c between =>
        rw [cons_append, cons_eq_cons] at hbetween
        exact ih (fun other hother => hls other (mem_cons_of_mem _ hother)) hbetween.2
    · cases between with
      | nil => exact hbreak hbetween.symm
      | cons c between =>
        rw [cons_append, cons_eq_cons] at hbetween
        rw [hl, ← hbetween.1] at hfront
        exact absurd (by simp) hfront

theorem length_le_indented (text : List Char) : text.length ≤ (indented text).length := by
  have hfrom : ∀ (text line : List Char),
      line.length + text.length ≤ ((linesFrom line text).flatMap indentLine).length := by
    intro text
    induction text with
    | nil =>
      intro line
      rw [linesFrom]
      split
      next hempty => simp [isEmpty_iff.mp hempty]
      next => simp [indentLine]; omega
    | cons c text ih =>
      intro line
      rw [linesFrom]
      split
      next =>
        have hstrip := length_le_stripCr line
        have hrest := ih []
        simp only [flatMap_cons, length_append, indentLine, length_cons, length_nil] at hrest ⊢
        omega
      next =>
        have hrest := ih (line ++ [c])
        simp only [length_append, length_cons, length_nil] at hrest ⊢
        omega
  have hall := hfrom text []
  rwa [length_nil, Nat.zero_add] at hall

end BittyAi.Lib
