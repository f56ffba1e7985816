/-
BittyAi.Lib.History — histories in which every element is justified by what came before it.

`Justified R l` reads: whenever `a` occurs in `l`, the elements in front of that occurrence
stand in relation `R` to `a`.
-/
import Mathlib.Data.List.Basic

namespace BittyAi.Lib

open List

variable {α : Type*} {R : List α → α → Prop} {l m : List α} {a : α}

def Justified (R : List α → α → Prop) (l : List α) : Prop :=
  ∀ before a after, l = before ++ a :: after → R before a

theorem justified_nil : Justified R [] := by
  intro before a after h
  simp at h

theorem Justified.append (h : Justified R l)
    (hm : ∀ before a after, m = before ++ a :: after → R (l ++ before) a) :
    Justified R (l ++ m) := by
  intro before a after heq
  rcases append_eq_append_iff.mp heq with ⟨rest, hbefore, hrest⟩ | ⟨rest, hl, hm'⟩
  · rw [hbefore]
    exact hm rest a after hrest
  · cases rest with
    | nil =>
      simp only [append_nil] at hl
      rw [nil_append] at hm'
      simpa [hl] using hm [] a after hm'.symm
    | cons b rest =>
      rw [cons_append, cons.injEq] at hm'
      obtain ⟨rfl, -⟩ := hm'
      exact h before a rest hl

theorem Justified.snoc (h : Justified R l) (ha : R l a) : Justified R (l ++ [a]) := by
  refine h.append ?_
  intro before b after heq
  rcases before with _ | ⟨c, before⟩
  · simp only [nil_append, cons.injEq] at heq
    obtain ⟨rfl, -⟩ := heq
    simpa using ha
  · simp at heq

theorem Justified.append_of_forall (h : Justified R l) (hm : ∀ a ∈ m, ∀ before, R before a) :
    Justified R (l ++ m) :=
  h.append fun before a after heq => hm a (by simp [heq]) (l ++ before)

/-! ## Logs whose entries each concern one key -/

section

variable {κ ρ : Type*} [DecidableEq κ] {key : ρ → κ} {k : κ} {log : List ρ} {row : ρ}

def lastOf (key : ρ → κ) (k : κ) (log : List ρ) : Option ρ :=
  (log.filter fun row => key row = k).getLast?

theorem lastOf_snoc_of_eq (h : key row = k) : lastOf key k (log ++ [row]) = some row := by
  simp [lastOf, h]

theorem lastOf_snoc_of_ne (h : key row ≠ k) : lastOf key k (log ++ [row]) = lastOf key k log := by
  simp [lastOf, h]

theorem lastOf_eq_none : lastOf key k log = none ↔ ∀ row ∈ log, key row ≠ k := by simp [lastOf]

theorem mem_of_lastOf (h : lastOf key k log = some row) : row ∈ log ∧ key row = k := by
  simpa using List.mem_of_getLast? h

theorem getLast?_filter {keep : ρ → Bool} (h : ∀ row, log.getLast? = some row → keep row = true) :
    (log.filter keep).getLast? = log.getLast? := by
  rcases List.eq_nil_or_concat log with rfl | ⟨rest, last, rfl⟩
  · rfl
  · simp [h last (by simp)]

theorem lastOf_filter {keep : ρ → Bool} (h : ∀ row, lastOf key k log = some row → keep row = true) :
    lastOf key k (log.filter keep) = lastOf key k log := by
  unfold lastOf at h ⊢
  have hcomm : ((log.filter keep).filter fun row => decide (key row = k)) =
      (log.filter fun row => key row = k).filter keep := by
    rw [List.filter_filter, List.filter_filter]
    simp only [Bool.and_comm]
  rw [hcomm, getLast?_filter h]

end

end BittyAi.Lib
