/-
BittyAi.Lib.Scan — induction for loops over a list: folds and searches.

A loop `for x in xs { acc = f(acc, x) }` is `xs.foldl f init`. Its invariant
speaks of the items already scanned; the rule also hands the step the items
still to come, for invariants that look ahead.
-/
import Mathlib.Data.List.Sort

namespace BittyAi.Lib

open List

variable {α β : Type*}

/-- If `P` holds of nothing scanned and each step extends it by the scanned
item, it holds of the whole list. -/
theorem foldl_induction {P : List α → β → Prop} {f : β → α → β} {init : β} (xs : List α)
    (nil : P [] init)
    (step : ∀ seen x rest acc, xs = seen ++ x :: rest → P seen acc → P (seen ++ [x]) (f acc x)) :
    P xs (xs.foldl f init) := by
  suffices h : ∀ rest seen acc, xs = seen ++ rest → P seen acc → P xs (rest.foldl f acc) from
    h xs [] init rfl nil
  intro rest
  induction rest with
  | nil =>
    intro seen acc hxs hP
    rw [append_nil] at hxs
    exact hxs ▸ hP
  | cons x rest ih =>
    intro seen acc hxs hP
    exact ih (seen ++ [x]) (f acc x) (by simp [hxs]) (step seen x rest acc hxs hP)

variable {γ : Type*} {R : α → β → Prop}

theorem map_eq_map_of_forall₂ {f : α → γ} {g : β → γ}
    {xs : List α} {ys : List β} (h : List.Forall₂ R xs ys) (hfg : ∀ x y, R x y → f x = g y) :
    xs.map f = ys.map g := by
  rw [← forall₂_eq_eq_eq, forall₂_map_left_iff, forall₂_map_right_iff]
  exact h.imp hfg

theorem exists_left_of_forall₂ {xs : List α} {ys : List β}
    (h : List.Forall₂ R xs ys) {y : β} (hy : y ∈ ys) : ∃ x ∈ xs, R x y := by
  induction h with
  | nil => simp at hy
  | cons hxy _ ih =>
    rcases mem_cons.mp hy with rfl | hy
    · exact ⟨_, mem_cons_self, hxy⟩
    · obtain ⟨x, hx, hR⟩ := ih hy
      exact ⟨x, mem_cons_of_mem _ hx, hR⟩

theorem map_zipIdx_fst (f : α → γ) (xs : List α) (k : Nat) :
    (xs.zipIdx k).map (fun e => f e.1) = xs.map f := by
  have hmap := congrArg (map f) (zipIdx_map_fst k xs)
  rwa [map_map] at hmap

/-- A selection sorted by index, whose items sit at their indices in `xs` and
whose indices differ, is a sublist of `xs`. -/
theorem sublist_of_sorted_indices {f : α → γ} {g : β → γ} {xs : List β}
    {sel : List (Nat × α)} (hsorted : sel.Pairwise fun a b => a.1 < b.1)
    (hget : ∀ s ∈ sel, ∃ x, xs[s.1]? = some x ∧ f s.2 = g x) :
    (sel.map fun s => f s.2).Sublist (xs.map g) := by
  let before : Nat × γ → Nat × γ → Prop := fun a b => a.1 < b.1
  have hantisymm : Std.Antisymm before := ⟨fun a b hab hba => absurd hab (Nat.lt_asymm hba)⟩
  have hsel : (sel.map fun s => (s.1, f s.2)).Pairwise before := pairwise_map.mpr hsorted
  have hxs : (xs.zipIdx.map fun e => (e.2, g e.1)).Pairwise before := by
    have hrange : (xs.zipIdx.map Prod.snd).Pairwise (· < ·) := by
      rw [zipIdx_map_snd]
      exact pairwise_lt_range'
    have hindices := pairwise_map.mp hrange
    exact pairwise_map.mpr hindices
  have hsub : (sel.map fun s => (s.1, f s.2)).Subperm (xs.zipIdx.map fun e => (e.2, g e.1)) := by
    refine subperm_of_subset (hsel.imp fun hlt heq => absurd (heq ▸ hlt) (Nat.lt_irrefl _)) ?_
    intro p hp
    obtain ⟨s, hs, rfl⟩ := mem_map.mp hp
    obtain ⟨x, hx, hfx⟩ := hget s hs
    exact mem_map.mpr ⟨(x, s.1), mem_zipIdx_iff_getElem?.mpr hx, by rw [hfx]⟩
  have hpairs := (sublist_of_subperm_of_pairwise hsub hsel hxs).map Prod.snd
  rw [map_map, map_map] at hpairs
  have hzip := map_zipIdx_fst g xs 0
  exact hzip ▸ hpairs

/-! ## Searches

`Stands text front b` says that a match with value `b` stands in `text` behind `front`. A search
that tests the front and goes on one element further finds the match with the shortest `front`. -/

variable {Stands : List α → List α → β → Prop} {search : List α → Option β}

structure Searches (Stands : List α → List α → β → Prop) (search : List α → Option β) : Prop where
  nil : ∀ front b, ¬Stands [] front b
  search_nil : search [] = none
  cons : ∀ {a c text front b}, Stands (a :: text) (c :: front) b ↔ a = c ∧ Stands text front b
  unique : ∀ {text b b'}, Stands text [] b → Stands text [] b' → b = b'
  step : ∀ a text, (∃ b, Stands (a :: text) [] b ∧ search (a :: text) = some b) ∨
    (∀ b, ¬Stands (a :: text) [] b) ∧ search (a :: text) = search text

namespace Searches

theorem eq_some_iff (h : Searches Stands search) {text : List α} {b : β} :
    search text = some b ↔ ∃ front, Stands text front b ∧
      ∀ front' b', Stands text front' b' → front.length ≤ front'.length := by
  induction text with
  | nil => simp [h.search_nil, h.nil]
  | cons a text ih =>
    rcases h.step a text with ⟨c, hc, hfound⟩ | ⟨hnone, hgo⟩
    · rw [hfound, Option.some.injEq]
      constructor
      · rintro rfl
        exact ⟨[], hc, fun _ _ _ => Nat.zero_le _⟩
      · rintro ⟨front, hfront, hfirst⟩
        obtain rfl := eq_nil_of_length_eq_zero (Nat.le_zero.mp (hfirst [] c hc))
        exact h.unique hc hfront
    · -- every match is one of the rest, one element further
      have hbehind : ∀ {front b}, Stands (a :: text) front b →
          ∃ back, front = a :: back ∧ Stands text back b := by
        intro front b hstands
        cases front with
        | nil => exact absurd hstands (hnone b)
        | cons c front =>
          obtain ⟨rfl, hback⟩ := h.cons.mp hstands
          exact ⟨front, rfl, hback⟩
      rw [hgo, ih]
      constructor
      · rintro ⟨front, hfront, hfirst⟩
        refine ⟨a :: front, h.cons.mpr ⟨rfl, hfront⟩, fun front' b' hstands => ?_⟩
        obtain ⟨back, rfl, hback⟩ := hbehind hstands
        exact Nat.succ_le_succ (hfirst back b' hback)
      · rintro ⟨front, hfront, hfirst⟩
        obtain ⟨back, rfl, hback⟩ := hbehind hfront
        refine ⟨back, hback, fun front' b' hstands => ?_⟩
        exact Nat.le_of_succ_le_succ (hfirst (a :: front') b' (h.cons.mpr ⟨rfl, hstands⟩))

theorem eq_none_iff (h : Searches Stands search) {text : List α} :
    search text = none ↔ ∀ front b, ¬Stands text front b := by
  induction text with
  | nil => simp [h.search_nil, h.nil]
  | cons a text ih =>
    rcases h.step a text with ⟨b, hb, hfound⟩ | ⟨hnone, hgo⟩
    · simpa [hfound] using ⟨[], b, hb⟩
    · rw [hgo, ih]
      refine ⟨fun hrest front b hstands => ?_, fun hall front b hstands =>
        hall (a :: front) b (h.cons.mpr ⟨rfl, hstands⟩)⟩
      cases front with
      | nil => exact hnone b hstands
      | cons c front => exact hrest front b (h.cons.mp hstands).2

end Searches

end BittyAi.Lib
