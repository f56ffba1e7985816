/-
BittyAi.Lib.SortedList — sorted lists: as sets, with equal neighbours collapsed, cut after
the newest rows, and sorted by a small rank.
-/
import Mathlib.Data.List.Sort

namespace BittyAi.Lib

open List

variable {α : Type*}

def dedupAdjacent [DecidableEq α] : List α → List α
  | [] => []
  | [a] => [a]
  | a :: b :: rest => if a = b then dedupAdjacent (b :: rest) else a :: dedupAdjacent (b :: rest)

@[simp] theorem mem_dedupAdjacent [DecidableEq α] {x : α} {xs : List α} :
    x ∈ dedupAdjacent xs ↔ x ∈ xs := by
  induction xs with
  | nil => rfl
  | cons a rest ih =>
    cases rest with
    | nil => rfl
    | cons b rest =>
      rw [dedupAdjacent]
      split
      · rename_i heq
        rw [ih, heq]
        simp
      · rw [mem_cons, ih, ← mem_cons]

def sortDedup [LinearOrder α] (xs : List α) : List α := dedupAdjacent (xs.insertionSort (· ≤ ·))

@[simp] theorem mem_sortDedup [LinearOrder α] {x : α} {xs : List α} :
    x ∈ sortDedup xs ↔ x ∈ xs := by
  rw [sortDedup, mem_dedupAdjacent, mem_insertionSort]

theorem sorted_dedupAdjacent [LinearOrder α] {xs : List α} (h : xs.Pairwise (· ≤ ·)) :
    (dedupAdjacent xs).Pairwise (· < ·) := by
  induction xs with
  | nil => exact .nil
  | cons a rest ih =>
    cases rest with
    | nil => exact pairwise_singleton _ a
    | cons b rest =>
      obtain ⟨ha, hrest⟩ := pairwise_cons.mp h
      rw [dedupAdjacent]
      split
      next => exact ih hrest
      next hne =>
        have hb : a < b := lt_of_le_of_ne (ha b mem_cons_self) hne
        refine pairwise_cons.mpr ⟨fun x hx => ?_, ih hrest⟩
        rcases mem_cons.mp (mem_dedupAdjacent.mp hx) with rfl | hx
        · exact hb
        · exact hb.trans_le ((pairwise_cons.mp hrest).1 x hx)

theorem sorted_sortDedup [LinearOrder α] (xs : List α) : (sortDedup xs).Pairwise (· < ·) :=
  sorted_dedupAdjacent (pairwise_insertionSort (· ≤ ·) xs)

theorem sortDedup_congr [LinearOrder α] {xs ys : List α} (h : ∀ x, x ∈ xs ↔ x ∈ ys) :
    sortDedup xs = sortDedup ys :=
  (sorted_sortDedup xs).eq_of_mem_iff (sorted_sortDedup ys) fun x => by simp [h]

/-! ## The newest rows

`newest age n rows` is what `ORDER BY age DESC LIMIT n` selects. Where no two rows
have the same age, a row is selected exactly if fewer than `n` rows are newer. -/

variable {ρ κ : Type*} [LinearOrder κ] {age : ρ → κ} {n : Nat} {rows : List ρ} {row : ρ}

def newest (age : ρ → κ) (n : Nat) (rows : List ρ) : List ρ :=
  (rows.insertionSort fun a b => age b ≤ age a).take n

theorem countP_newer_of_descending {before after : List ρ}
    (h : (before ++ row :: after).Pairwise fun a b => age b < age a) :
    ((before ++ row :: after).countP fun other => age row < age other) = before.length := by
  rw [pairwise_append, pairwise_cons] at h
  obtain ⟨-, ⟨hafter, -⟩, hbefore⟩ := h
  have hnewer : (before.countP fun other => age row < age other) = before.length := by
    refine countP_eq_length.mpr fun other hother => ?_
    simpa using hbefore other hother row mem_cons_self
  have holder : ((row :: after).countP fun other => age row < age other) = 0 := by
    refine countP_eq_zero.mpr (forall_mem_cons.mpr ⟨by simp, fun other hother => ?_⟩)
    simpa using (hafter other hother).le
  rw [countP_append, hnewer, holder, Nat.add_zero]

theorem descending_of_nodup (h : (rows.map age).Nodup) :
    (rows.insertionSort fun a b => age b ≤ age a).Pairwise fun a b => age b < age a := by
  have hsorted : (rows.insertionSort fun a b => age b ≤ age a).Pairwise fun a b => age b ≤ age a :=
    pairwise_insertionSort _ rows
  have hnodup : ((rows.insertionSort fun a b => age b ≤ age a).map age).Nodup :=
    ((perm_insertionSort _ rows).map age).nodup_iff.mpr h
  rw [List.Nodup, pairwise_map] at hnodup
  exact hsorted.imp₂ (fun _ _ hle hne => lt_of_le_of_ne hle (Ne.symm hne)) hnodup

theorem mem_newest (h : (rows.map age).Nodup) :
    row ∈ newest age n rows ↔ row ∈ rows ∧ (rows.countP fun other => age row < age other) < n := by
  have hperm := perm_insertionSort (fun a b => age b ≤ age a) rows
  have hdesc := descending_of_nodup h
  rw [newest, ← hperm.mem_iff, ← hperm.countP_eq]
  generalize rows.insertionSort (fun a b => age b ≤ age a) = sorted at hdesc
  constructor
  · intro hrow
    obtain ⟨before, after, htake⟩ := append_of_mem hrow
    have hsplit : sorted = before ++ row :: (after ++ sorted.drop n) :=
      calc sorted = sorted.take n ++ sorted.drop n := (take_append_drop n sorted).symm
        _ = _ := by rw [htake, append_assoc, cons_append]
    refine ⟨mem_of_mem_take hrow, ?_⟩
    rw [hsplit] at hdesc ⊢
    rw [countP_newer_of_descending hdesc]
    have hlen := congrArg length htake
    simp only [length_take, length_append, length_cons] at hlen
    omega
  · rintro ⟨hrow, hcount⟩
    obtain ⟨before, after, rfl⟩ := append_of_mem hrow
    rw [countP_newer_of_descending hdesc] at hcount
    rw [take_append, mem_append]
    right
    obtain ⟨k, hk⟩ : ∃ k, n - before.length = k + 1 := ⟨n - before.length - 1, by omega⟩
    simp [hk]

theorem length_newest_le : (newest age n rows).length ≤ n := by simp [newest, length_take]

/-! ## Buckets

A list that is sorted by falling rank and, within a rank, by position is the list of its
buckets (`eq_buckets_of_pairwise`), so the outcome of such a sort is a plain function of the
items. -/

variable {α β : Type*} (rank : α → Nat)

/-- The items of rank below `n`, highest rank first, in list order within a rank. -/
def buckets : Nat → List α → List α
  | 0, _ => []
  | n + 1, xs => xs.filter (rank · = n) ++ buckets n xs

variable {xs : List α} {r : α → α → Prop}

theorem mem_buckets {n : Nat} {x : α} :
    x ∈ buckets rank n xs ↔ x ∈ xs ∧ rank x < n := by
  induction n with
  | zero => simp [buckets]
  | succ n ih =>
    rw [buckets, mem_append, mem_filter, ih, decide_eq_true_eq, ← and_or_left]
    exact and_congr_right fun _ => by omega

theorem buckets_perm_filter (xs : List α) : ∀ n : Nat,
    (buckets rank n xs).Perm (xs.filter (rank · < n))
  | 0 => by simp [buckets]
  | n + 1 => by
      have hsplit := filter_append_perm (fun x => decide (rank x = n)) (xs.filter (rank · < n + 1))
      have htop : (xs.filter (rank · < n + 1)).filter (fun x => decide (rank x = n)) =
          xs.filter (rank · = n) := by
        rw [filter_filter]
        refine filter_congr fun x _ => ?_
        rw [← Bool.decide_and]
        exact decide_eq_decide.mpr (by omega)
      have hrest : (xs.filter (rank · < n + 1)).filter (fun x => !decide (rank x = n)) =
          xs.filter (rank · < n) := by
        rw [filter_filter]
        refine filter_congr fun x _ => ?_
        rw [← decide_not, ← Bool.decide_and]
        exact decide_eq_decide.mpr (by omega)
      rw [htop, hrest] at hsplit
      exact ((buckets_perm_filter xs n).append_left _).trans hsplit

theorem buckets_perm {n : Nat} (h : ∀ x ∈ xs, rank x < n) :
    (buckets rank n xs).Perm xs := by
  have hall : xs.filter (rank · < n) = xs := filter_eq_self.mpr (by simpa using h)
  exact (buckets_perm_filter rank xs n).trans (.of_eq hall)

theorem buckets_pairwise (hrank : ∀ a b, rank b < rank a → r a b)
    (hxs : xs.Pairwise fun a b => rank a = rank b → r a b) : ∀ n : Nat,
    (buckets rank n xs).Pairwise r
  | 0 => List.Pairwise.nil
  | n + 1 => by
      rw [buckets, pairwise_append]
      refine ⟨?_, buckets_pairwise hrank hxs n, ?_⟩
      · refine (hxs.filter _).imp_of_mem fun ha hb h => h ?_
        have ha := (mem_filter.mp ha).2
        have hb := (mem_filter.mp hb).2
        rw [decide_eq_true_eq] at ha hb
        exact ha.trans hb.symm
      · intro a ha b hb
        have ha := (mem_filter.mp ha).2
        have hb := ((mem_buckets rank).mp hb).2
        rw [decide_eq_true_eq] at ha
        exact hrank a b (by omega)

theorem eq_buckets_of_pairwise (hasymm : ∀ a b, r a b → ¬ r b a)
    (hrank : ∀ a b, rank b < rank a → r a b) {xs sorted : List α} {n : Nat}
    (hn : ∀ x ∈ xs, rank x < n) (hxs : xs.Pairwise fun a b => rank a = rank b → r a b)
    (hsorted : sorted.Pairwise r) (hperm : sorted.Perm xs) : sorted = buckets rank n xs :=
  List.Perm.eq_of_pairwise (fun a b _ _ hab hba => absurd hba (hasymm a b hab)) hsorted
    (buckets_pairwise rank hrank hxs n) (hperm.trans (buckets_perm rank hn).symm)

end BittyAi.Lib
