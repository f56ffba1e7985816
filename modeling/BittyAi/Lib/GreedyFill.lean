/-
BittyAi.Lib.GreedyFill — first-fit selection under a budget.

`fill w budget used items` walks `items` once. An item whose weight still fits is kept and
its weight is added to `used`; any other item is dropped and the walk goes on.
-/
import Mathlib.Algebra.BigOperators.Group.List.Basic
import Mathlib.Algebra.Order.Ring.Nat

namespace BittyAi.Lib

open List

variable {α : Type*} (w : α → Nat) (budget : Nat)
variable {used : Nat} {x : α} (xs : List α)

def weight (items : List α) : Nat := (items.map w).sum

@[simp] theorem weight_nil : weight w [] = 0 := rfl

@[simp] theorem weight_cons (x : α) (xs : List α) : weight w (x :: xs) = w x + weight w xs := by
  simp [weight]

theorem weight_perm {xs ys : List α} (h : xs.Perm ys) : weight w xs = weight w ys :=
  (h.map w).sum_eq

def fill (used : Nat) : List α → List α × List α
  | [] => ([], [])
  | x :: xs =>
    if used + w x ≤ budget then (x :: (fill (used + w x) xs).1, (fill (used + w x) xs).2)
    else ((fill used xs).1, x :: (fill used xs).2)

@[simp] theorem fill_nil (used : Nat) : fill w budget used [] = ([], []) := rfl

theorem fill_cons_fits (h : used + w x ≤ budget) : fill w budget used (x :: xs) =
      (x :: (fill w budget (used + w x) xs).1, (fill w budget (used + w x) xs).2) := by
  simp [fill, h]

theorem fill_cons_over (h : ¬ used + w x ≤ budget) :
    fill w budget used (x :: xs) = ((fill w budget used xs).1, x :: (fill w budget used xs).2) := by
  simp [fill, h]

theorem fill_spec : ∀ (xs : List α) (used : Nat),
    ((fill w budget used xs).1 ++ (fill w budget used xs).2).Perm xs ∧
      (fill w budget used xs).1.Sublist xs
  | [], _ => by simp
  | x :: xs, used => by
      by_cases h : used + w x ≤ budget
      · obtain ⟨hperm, hkept⟩ := fill_spec xs (used + w x)
        rw [fill_cons_fits w budget xs h, cons_append]
        exact ⟨hperm.cons x, hkept.cons_cons x⟩
      · obtain ⟨hperm, hkept⟩ := fill_spec xs used
        rw [fill_cons_over w budget xs h]
        exact ⟨perm_middle.trans (hperm.cons x), hkept.cons x⟩

theorem fill_weight_le : ∀ (xs : List α) (used : Nat), used ≤ budget →
    used + weight w (fill w budget used xs).1 ≤ budget
  | [], used, h => by simpa using h
  | x :: xs, used, h => by
      by_cases hx : used + w x ≤ budget
      · have ih := fill_weight_le xs (used + w x) hx
        rw [fill_cons_fits w budget xs hx, weight_cons]
        omega
      · rw [fill_cons_over w budget xs hx]
        exact fill_weight_le xs used h

theorem fill_append : ∀ (xs ys : List α) (used : Nat), fill w budget used (xs ++ ys) =
      ((fill w budget used xs).1 ++
          (fill w budget (used + weight w (fill w budget used xs).1) ys).1,
        (fill w budget used xs).2 ++
          (fill w budget (used + weight w (fill w budget used xs).1) ys).2)
  | [], ys, used => by simp
  | x :: xs, ys, used => by
      by_cases hx : used + w x ≤ budget
      · rw [cons_append, fill_cons_fits w budget _ hx, fill_cons_fits w budget xs hx,
          fill_append xs ys (used + w x)]
        simp only [weight_cons, cons_append, Nat.add_assoc]
      · rw [cons_append, fill_cons_over w budget _ hx, fill_cons_over w budget xs hx,
          fill_append xs ys used]
        simp only [cons_append]

theorem fill_dropped {xs : List α} (h : x ∈ (fill w budget used xs).2) :
    ∃ before after, xs = before ++ x :: after ∧
      budget < used + weight w (fill w budget used before).1 + w x := by
  induction xs generalizing used with
  | nil => simp at h
  | cons y ys ih =>
    by_cases hy : used + w y ≤ budget
    · rw [fill_cons_fits w budget ys hy] at h
      obtain ⟨before, after, rfl, hlt⟩ := ih h
      refine ⟨y :: before, after, rfl, ?_⟩
      rw [fill_cons_fits w budget before hy, weight_cons]
      omega
    · rw [fill_cons_over w budget ys hy] at h
      rcases mem_cons.mp h with rfl | h
      · exact ⟨[], ys, rfl, by simp; omega⟩
      · obtain ⟨before, after, rfl, hlt⟩ := ih h
        refine ⟨y :: before, after, rfl, ?_⟩
        rwa [fill_cons_over w budget before hy]

/-- In a strictly ordered scan, a dropped item did not fit on top of the kept
items that are ordered before it. -/
theorem fill_dropped_sorted {r : α → α → Prop} [DecidableRel r] (hasymm : ∀ a b, r a b → ¬ r b a)
    {xs : List α} (hsorted : xs.Pairwise r) (h : x ∈ (fill w budget used xs).2) :
    budget < used + weight w ((fill w budget used xs).1.filter (r · x)) + w x := by
  obtain ⟨before, after, rfl, hlt⟩ := fill_dropped w budget h
  obtain ⟨-, hafter, hbetween⟩ := pairwise_append.mp hsorted
  have hfront : ∀ a ∈ (fill w budget used before).1, r a x := fun a ha =>
    hbetween a ((fill_spec w budget before used).2.subset ha) x mem_cons_self
  have hback : ∀ a ∈ x :: after, ¬ r a x := forall_mem_cons.mpr
    ⟨fun hxx => hasymm x x hxx hxx, fun a ha => hasymm x a ((pairwise_cons.mp hafter).1 a ha)⟩
  rw [fill_append, filter_append, filter_eq_self.mpr (by simpa using hfront),
    filter_eq_nil_iff.mpr, append_nil]
  · exact hlt
  · intro a ha
    simpa using hback a ((fill_spec w budget _ _).2.subset ha)

theorem fill_map {β : Type*} (f : β → α) : ∀ (ys : List β) (used : Nat),
    fill w budget used (ys.map f) =
      ((fill (fun y => w (f y)) budget used ys).1.map f,
        (fill (fun y => w (f y)) budget used ys).2.map f)
  | [], _ => rfl
  | y :: ys, used => by
      by_cases h : used + w (f y) ≤ budget
      · rw [map_cons, fill_cons_fits w budget _ h, fill_map f ys,
          fill_cons_fits (fun y => w (f y)) budget ys h]
        rfl
      · rw [map_cons, fill_cons_over w budget _ h, fill_map f ys,
          fill_cons_over (fun y => w (f y)) budget ys h]
        rfl

/-! ## Reading a selection back by key -/

theorem filter_mem_kept {κ : Type*} [DecidableEq κ] (key : α → κ) {items kept dropped : List α}
    (hperm : (kept ++ dropped).Perm items) (hnodup : (items.map key).Nodup) :
    (items.filter fun x => key x ∈ kept.map key).Perm kept := by
  refine (hperm.symm.filter _).trans (.of_eq ?_)
  have hdisj := nodup_append.mp (map_append (f := key) ▸ (hperm.map key).nodup_iff.mpr hnodup)
  rw [filter_append, filter_eq_self.mpr, filter_eq_nil_iff.mpr, append_nil]
  · intro x hx hkept
    exact hdisj.2.2 (key x) (by simpa using hkept) (key x) (mem_map_of_mem hx) rfl
  · intro x hx
    simpa using mem_map_of_mem (f := key) hx

theorem sum_map_le_of_forall₂ {β : Type*} {R : α → β → Prop} {f : α → Nat} {g : β → Nat}
    {xs : List α} {ys : List β} (h : List.Forall₂ R xs ys) (hle : ∀ x y, R x y → g y ≤ f x) :
    (ys.map g).sum ≤ weight f xs := by
  induction h with
  | nil => simp
  | cons hxy _ ih =>
    have := hle _ _ hxy
    rw [map_cons, sum_cons, weight_cons]
    omega

/-! ## Packing

A list is cut into consecutive groups under a cap. A group is closed when it weighs something and
the next element would overflow it, so an element over the cap shares its group exactly with the
weightless elements that were met since the group was opened (`Buries`). -/

variable {α : Type*} (w : α → Nat) (cap : Nat)

/-- The groups of `rest`, the first one being open and holding `group` so far. -/
def pack (group : List α) : List α → List (List α)
  | [] => if group.isEmpty then [] else [group]
  | x :: rest =>
    if 0 < weight w group ∧ cap < weight w group + w x then group :: pack [x] rest
    else pack (group ++ [x]) rest

/-- `x` is over the cap and follows a weightless element, and the last element before it
that weighs anything, if any, is over the cap too. -/
def Buries (before : List α) (x : α) : Prop :=
  cap < w x ∧ (∃ blank ∈ before.getLast?, w blank = 0) ∧
    ∀ solid ∈ (before.filter (0 < w ·)).getLast?, cap < w solid

/-- What the open group tells of the elements before the next one. -/
structure Opened (before group : List α) : Prop where
  ends : group.getLast? = before.getLast?
  full : cap < weight w group → ∃ x ∈ group.getLast?, cap < w x
  solid : (weight w group = 0 ∨ cap < weight w group) ↔
    ∀ last ∈ (before.filter (0 < w ·)).getLast?, cap < w last

variable {w cap} {group before rest : List α} {x : α}

@[simp] theorem weight_snoc : weight w (group ++ [x]) = weight w group + w x := by simp [weight]

theorem flatten_pack : (pack w cap group rest).flatten = group ++ rest := by
  induction rest generalizing group with
  | nil => cases group <;> simp [pack]
  | cons x rest ih => rw [pack]; split <;> simp [ih]

theorem ne_nil_of_mem_pack {g : List α} (h : g ∈ pack w cap group rest) : g ≠ [] := by
  induction rest generalizing group with
  | nil => cases group <;> simp_all [pack]
  | cons x rest ih =>
    rw [pack] at h
    split at h
    next hsplit =>
      rcases mem_cons.mp h with rfl | h
      · rintro rfl
        simp at hsplit
      · exact ih h
    next => exact ih h

theorem getLast?_solid_snoc : ((before ++ [x]).filter (0 < w ·)).getLast? =
    if 0 < w x then some x else (before.filter (0 < w ·)).getLast? := by
  split <;> simp_all

theorem opened_nil : Opened w cap ([] : List α) [] := ⟨rfl, by simp, by simp⟩

theorem Opened.close (h : Opened w cap before group)
    (hsplit : 0 < weight w group ∧ cap < weight w group + w x) :
    Opened w cap (before ++ [x]) [x] := by
  refine ⟨by simp, by simp, ?_⟩
  rw [getLast?_solid_snoc]
  split
  · simp
    omega
  · have := h.solid.mp (by omega)
    simp_all

theorem Opened.grow (h : Opened w cap before group)
    (hsplit : ¬(0 < weight w group ∧ cap < weight w group + w x)) :
    Opened w cap (before ++ [x]) (group ++ [x]) := by
  refine ⟨by simp, ?_, ?_⟩
  · simp only [weight_snoc, getLast?_concat, Option.mem_some_iff, exists_eq_left']
    omega
  · rw [getLast?_solid_snoc, weight_snoc]
    split
    · simp only [Option.mem_some_iff, forall_eq']
      omega
    · rw [← h.solid]
      omega

theorem Opened.not_buries (h : Opened w cap before group) (hpos : 0 < weight w group) :
    ¬Buries w cap before x := by
  rintro ⟨-, ⟨blank, hblank, hzero⟩, hsolid⟩
  obtain ⟨last, hlast, hover⟩ := h.full ((h.solid.mpr hsolid).resolve_left (by omega))
  cases hblank.symm.trans (h.ends.symm.trans hlast)
  omega

theorem Opened.buries_iff (h : Opened w cap before group) (hzero : weight w group = 0)
    (hx : cap < w x) : Buries w cap before x ↔ group ≠ [] := by
  refine ⟨?_, fun hne => ⟨hx, ?_, h.solid.mp (.inl hzero)⟩⟩
  · rintro ⟨-, ⟨blank, hblank, -⟩, -⟩ rfl
    simp [← h.ends] at hblank
  · refine ⟨group.getLast hne, by rw [← h.ends, getLast?_eq_some_getLast hne]; rfl, ?_⟩
    have hweight := hzero
    rw [← dropLast_append_getLast hne, weight_snoc] at hweight
    omega

/-- The groups of two or more keep the cap exactly if no element is buried. -/
theorem pack_capped_iff (h : Opened w cap before group) :
    (∀ g ∈ pack w cap group rest, 2 ≤ g.length → weight w g ≤ cap) ↔
      (2 ≤ group.length → weight w group ≤ cap) ∧
        ∀ mid x after, rest = mid ++ x :: after → ¬Buries w cap (before ++ mid) x := by
  induction rest generalizing before group with
  | nil => cases group <;> simp [pack]
  | cons x rest ih =>
    have hfirst : (∀ mid y after, x :: rest = mid ++ y :: after →
        ¬Buries w cap (before ++ mid) y) ↔ ¬Buries w cap before x ∧
          ∀ mid y after, rest = mid ++ y :: after → ¬Buries w cap (before ++ [x] ++ mid) y := by
      constructor
      · intro h
        refine ⟨by simpa using h [] x rest rfl, fun mid y after heq => ?_⟩
        simpa using h (x :: mid) y after (by simp [heq])
      · rintro ⟨hx, hrest⟩ (_ | ⟨z, mid⟩) y after heq
        · cases heq
          simpa using hx
        · cases heq
          simpa using hrest mid y after rfl
    rw [hfirst, pack]
    split
    next hsplit =>
      simp [ih (h.close hsplit), h.not_buries hsplit.1]
    next hsplit =>
      rw [ih (h.grow hsplit), ← and_assoc]
      refine and_congr_left fun _ => ?_
      simp only [length_append, length_singleton, weight_snoc]
      by_cases hfits : weight w group + w x ≤ cap
      · have : ¬Buries w cap before x := fun hburies => by have := hburies.1; omega
        simp [this]
        omega
      · rw [h.buries_iff (by omega) (by omega), not_not, ← length_eq_zero_iff]
        omega

end BittyAi.Lib
