/-
BittyAi.Lib.Worklist — loops over a queue, and searches that mark what they push.

`work` takes from the front of a queue and puts what a step pushes at its end, until the
queue is empty or a step stops the loop. `search` is the breadth-first shape of it: a node
is marked when it is pushed, so it is pushed once, and the nodes a universe has left bound
the loop.
-/
import Mathlib.Algebra.Order.BigOperators.Group.List
import Mathlib.Algebra.Order.Ring.Nat
import Mathlib.Data.List.Nodup
import Mathlib.Data.List.Perm.Subperm

namespace BittyAi.Lib

open List

variable {σ ρ α : Type}

/-! ## Loops over a queue -/

/-- Run `step` on the front of the queue, with a bound on the number of rounds. -/
def work (step : σ → α → Except ρ (σ × List α)) : Nat → σ → List α → Except ρ σ
  | 0, s, _ => .ok s
  | _ + 1, s, [] => .ok s
  | fuel + 1, s, x :: rest =>
    match step s x with
    | .error r => .error r
    | .ok (s', pushed) => work step fuel s' (rest ++ pushed)

/-- How a loop that keeps `I` ends: with an empty queue, or stopped by a step. -/
def Ends (step : σ → α → Except ρ (σ × List α)) (I : σ → List α → Prop) : Except ρ σ → Prop
  | .ok s => I s []
  | .error r => ∃ s x rest, I s (x :: rest) ∧ step s x = .error r

theorem work_rule {step : σ → α → Except ρ (σ × List α)} {I : σ → List α → Prop}
    (measure : σ → List α → Nat)
    (hstep : ∀ s x rest s' pushed, I s (x :: rest) → step s x = .ok (s', pushed) →
      I s' (rest ++ pushed) ∧ measure s' (rest ++ pushed) < measure s (x :: rest))
    (hqueue : ∀ s queue, queue.length ≤ measure s queue)
    {fuel : Nat} {s : σ} {queue : List α} (hfuel : measure s queue ≤ fuel) (h : I s queue) :
    Ends step I (work step fuel s queue) := by
  induction fuel generalizing s queue with
  | zero =>
    have hempty : queue = [] := eq_nil_of_length_eq_zero (by have := hqueue s queue; omega)
    rw [hempty] at h
    simpa [work, Ends] using h
  | succ fuel ih =>
    cases queue with
    | nil => simpa [work, Ends] using h
    | cons x rest =>
      rw [work]
      cases hx : step s x with
      | error r => exact ⟨s, x, rest, h, hx⟩
      | ok next =>
        obtain ⟨hI, hless⟩ := hstep s x rest next.1 next.2 h hx
        exact ih (by omega) hI

/-! ## Loops that mark rows -/

section Rows

variable {κ τ : Type} [DecidableEq κ] {key : τ → κ} {weight : τ → Nat}

def unseenWeight (key : τ → κ) (weight : τ → Nat) (seen : List κ) : List τ → Nat
  | [] => 0
  | row :: rows => (if key row ∈ seen then 0 else weight row) + unseenWeight key weight seen rows

theorem unseenWeight_eq (seen : List κ) (rows : List τ) : unseenWeight key weight seen rows =
    ((rows.filter (key · ∉ seen)).map weight).sum := by
  induction rows with
  | nil => rfl
  | cons row rows ih => by_cases hrow : key row ∈ seen <;> simp [unseenWeight, hrow, ih]

theorem unseenWeight_snoc {seen : List κ} {row : τ} {rows : List τ} (hrow : row ∈ rows)
    (hnew : key row ∉ seen) :
    unseenWeight key weight (seen ++ [key row]) rows + weight row ≤
      unseenWeight key weight seen rows := by
  have hsplit := ((filter_append_perm (key · ≠ key row) (rows.filter (key · ∉ seen))).map
    weight).sum_nat
  have hone : weight row ∈ ((rows.filter (key · ∉ seen)).filter
      fun other => !decide (key other ≠ key row)).map weight :=
    mem_map_of_mem (by simp [hrow, hnew])
  have hless := le_sum_of_mem hone
  have hrest : rows.filter (key · ∉ seen ++ [key row]) =
      (rows.filter (key · ∉ seen)).filter (key · ≠ key row) := by
    simp [filter_filter, Bool.and_comm]
  rw [map_append, sum_append] at hsplit
  rw [unseenWeight_eq, unseenWeight_eq, hrest]
  omega

/-- A loop each round of which drops the front, or sees a new row and pushes at most what
the row weighs. -/
theorem work_rows_rule {step : σ → α → Except ρ (σ × List α)} {I : σ → List α → Prop}
    {seen : σ → List κ} {rows : List τ}
    (hstep : ∀ s x rest s' pushed, I s (x :: rest) → step s x = .ok (s', pushed) →
      I s' (rest ++ pushed) ∧ (seen s' = seen s ∧ pushed = [] ∨
        ∃ row ∈ rows, key row ∉ seen s ∧ seen s' = seen s ++ [key row] ∧
          pushed.length ≤ weight row))
    {fuel : Nat} {s : σ} {queue : List α}
    (hfuel : queue.length + unseenWeight key weight (seen s) rows ≤ fuel) (h : I s queue) :
    Ends step I (work step fuel s queue) := by
  refine work_rule (fun s queue => queue.length + unseenWeight key weight (seen s) rows) ?_ ?_
    hfuel h
  · intro s x rest s' pushed hI hx
    obtain ⟨hI', hmoved⟩ := hstep s x rest s' pushed hI hx
    refine ⟨hI', ?_⟩
    rcases hmoved with ⟨hseen, rfl⟩ | ⟨row, hrow, hnew, hseen, hpushed⟩
    · simp [hseen]
    · have hless := @unseenWeight_snoc κ τ _ key weight _ _ _ hrow hnew
      rw [hseen, length_append, length_cons]
      omega
  · intro s queue
    exact Nat.le_add_right _ _

end Rows

/-! ## Walks that mark what they take -/

/-- A walk along `next` so far: a root, and what a seen node leads to, is seen, queued or to be
skipped, and a root leads to everything met. -/
structure Walked (next : α → List α) (skip : α → Prop) (roots seen queue : List α) : Prop where
  rooted : ∀ x ∈ roots, x ∈ seen ∨ x ∈ queue ∨ skip x
  closed : ∀ x ∈ seen, ∀ y ∈ next x, y ∈ seen ∨ y ∈ queue ∨ skip y
  sound : ∀ x, x ∈ seen ∨ x ∈ queue →
    ∃ root ∈ roots, Relation.ReflTransGen (fun a b => b ∈ next a) root x

section Walks

variable {next : α → List α} {skip : α → Prop} {roots seen rest : List α} {x : α}

theorem walked_start : Walked next skip roots [] roots where
  rooted := fun _ hroot => .inr (.inl hroot)
  closed := by simp
  sound := fun root hroot => ⟨root, by simpa using hroot, .refl⟩

theorem met_mono {seen' rest' : List α} (hseen : seen ⊆ seen') (hrest : rest ⊆ rest')
    (hx : x ∈ seen' ∨ skip x) (y : α) (hy : y ∈ seen ∨ y ∈ x :: rest ∨ skip y) :
    y ∈ seen' ∨ y ∈ rest' ∨ skip y := by
  rcases hy with hy | hy | hskip
  · exact .inl (hseen hy)
  · rcases mem_cons.mp hy with rfl | hy
    · exact hx.imp_right .inr
    · exact .inr (.inl (hrest hy))
  · exact .inr (.inr hskip)

theorem Walked.drop (h : Walked next skip roots seen (x :: rest)) (hdone : x ∈ seen ∨ skip x) :
    Walked next skip roots seen rest := by
  have hmet := met_mono (Subset.refl seen) (Subset.refl rest) hdone
  exact ⟨fun y hy => hmet y (h.rooted y hy), fun y hy z hz => hmet z (h.closed y hy z hz),
    fun y hy => h.sound y (hy.imp_right (mem_cons_of_mem _))⟩

theorem Walked.see [DecidableEq α] (h : Walked next skip roots seen (x :: rest)) :
    Walked next skip roots (seen ++ [x]) (rest ++ (next x).filter (· ∉ seen ++ [x])) := by
  have hmet := @met_mono _ skip seen rest x _ _ (subset_append_left seen [x])
    (subset_append_left rest ((next x).filter (· ∉ seen ++ [x]))) (.inl (by simp))
  obtain ⟨root, hroot, hchain⟩ := h.sound x (.inr mem_cons_self)
  refine ⟨fun y hy => hmet y (h.rooted y hy), fun y hy z hz => ?_, fun y hy => ?_⟩
  · rcases mem_append.mp hy with hy | hy
    · exact hmet z (h.closed y hy z hz)
    · rw [mem_singleton.mp hy] at hz
      by_cases hseen : z ∈ seen ++ [x]
      · exact .inl hseen
      · exact .inr (.inl (mem_append_right _ (by simpa [hz] using hseen)))
  · simp only [mem_append, mem_singleton, mem_filter] at hy
    rcases hy with (hseen | rfl) | hrest | hlink
    · exact h.sound y (.inl hseen)
    · exact ⟨root, hroot, hchain⟩
    · exact h.sound y (.inr (mem_cons_of_mem _ hrest))
    · exact ⟨root, hroot, .tail hchain hlink.1⟩

end Walks

/-! ## Nodes met for the first time -/

section Marking

variable [DecidableEq α]

def fresh : List α → List α → List α
  | _, [] => []
  | seen, x :: xs => if x ∈ seen then fresh seen xs else x :: fresh (x :: seen) xs

@[simp] theorem mem_fresh {seen xs : List α} {y : α} : y ∈ fresh seen xs ↔ y ∈ xs ∧ y ∉ seen := by
  induction xs generalizing seen with
  | nil => simp [fresh]
  | cons x xs ih =>
    by_cases hx : x ∈ seen
    · simp only [fresh, hx, if_true, ih, mem_cons]
      grind
    · simp only [fresh, hx, if_false, ih, mem_cons]
      grind

theorem nodup_fresh (seen xs : List α) : (fresh seen xs).Nodup := by
  induction xs generalizing seen with
  | nil => simp [fresh]
  | cons x xs ih =>
    by_cases hx : x ∈ seen
    · simpa [fresh, hx] using ih seen
    · simp [fresh, hx, ih]

def unseen (nodes seen : List α) : Nat := (nodes.filter (· ∉ seen)).length

theorem unseen_append {nodes seen new : List α} (hnodup : new.Nodup) (hsub : new ⊆ nodes)
    (hnew : ∀ x ∈ new, x ∉ seen) :
    unseen nodes (seen ++ new) + new.length ≤ unseen nodes seen := by
  have hrest : unseen nodes (seen ++ new) =
      ((nodes.filter (· ∉ seen)).filter (· ∉ new)).length := by
    simp [unseen, filter_filter, Bool.and_comm]
  have hmet : new ⊆ (nodes.filter (· ∉ seen)).filter (fun x => !decide (x ∉ new)) := by
    intro x hx
    simp [hsub hx, hnew x hx, hx]
  have hsplit := @length_eq_length_filter_add _ (nodes.filter (· ∉ seen)) (· ∉ new)
  have hless := (subperm_of_subset hnodup hmet).length_le
  rw [hrest, unseen]
  omega

/-! ## Searches -/

/-- One round of a search: what `expand` names and is not seen yet is marked and
pushed. -/
def searchStep (expand : σ → List α → α → Except ρ (σ × List α)) (state : σ × List α) (x : α) :
    Except ρ ((σ × List α) × List α) :=
  match expand state.1 state.2 x with
  | .error r => .error r
  | .ok (s', next) => .ok ((s', state.2 ++ fresh state.2 next), fresh state.2 next)

def search (expand : σ → List α → α → Except ρ (σ × List α)) (fuel : Nat) (s : σ)
    (seen queue : List α) : Except ρ (σ × List α) :=
  work (searchStep expand) fuel (s, seen) queue

def SearchEnds (expand : σ → List α → α → Except ρ (σ × List α))
    (I : σ → List α → List α → Prop) : Except ρ (σ × List α) → Prop
  | .ok (s, seen) => I s seen []
  | .error r => ∃ s seen x rest, I s seen (x :: rest) ∧ expand s seen x = .error r

theorem search_rule {expand : σ → List α → α → Except ρ (σ × List α)}
    {I : σ → List α → List α → Prop} {nodes : List α}
    (hstep : ∀ s seen x rest s' next, I s seen (x :: rest) → expand s seen x = .ok (s', next) →
      next ⊆ nodes ∧ I s' (seen ++ fresh seen next) (rest ++ fresh seen next))
    {fuel : Nat} {s : σ} {seen queue : List α} (hfuel : queue.length + unseen nodes seen ≤ fuel)
    (h : I s seen queue) : SearchEnds expand I (search expand fuel s seen queue) := by
  have hends : Ends (searchStep expand) (fun state queue => I state.1 state.2 queue)
      (search expand fuel s seen queue) := by
    refine work_rule (fun state queue => queue.length + unseen nodes state.2) ?_ ?_ hfuel h
    · intro state x rest state' pushed hI hx
      unfold searchStep at hx
      cases hexpand : expand state.1 state.2 x with
      | error r => simp [hexpand] at hx
      | ok found =>
        simp only [hexpand, Except.ok.injEq, Prod.mk.injEq] at hx
        obtain ⟨rfl, rfl⟩ := hx
        obtain ⟨hsub, hI'⟩ := hstep _ _ _ _ _ _ hI hexpand
        have hless := unseen_append (nodup_fresh state.2 found.2)
          (fun y hy => hsub (mem_fresh.mp hy).1) (fun y hy => (mem_fresh.mp hy).2)
        refine ⟨hI', ?_⟩
        simp only [length_append, length_cons]
        omega
    · intro state queue
      exact Nat.le_add_right _ _
  cases hsearch : search expand fuel s seen queue with
  | ok result => simpa [hsearch, Ends, SearchEnds] using hends
  | error r =>
    rw [hsearch] at hends
    obtain ⟨state, x, rest, hI, hx⟩ := hends
    refine ⟨state.1, state.2, x, rest, hI, ?_⟩
    unfold searchStep at hx
    cases hexpand : expand state.1 state.2 x with
    | error r' => simpa [hexpand] using hx
    | ok found => simp [hexpand] at hx

/-! ## Closure -/

structure Frontier (next : α → List α) (seen queue : List α) : Prop where
  queued : queue ⊆ seen
  closed : ∀ x ∈ seen, x ∈ queue ∨ next x ⊆ seen

theorem Frontier.step {next : α → List α} {seen rest : List α} {x : α}
    (h : Frontier next seen (x :: rest)) :
    Frontier next (seen ++ fresh seen (next x)) (rest ++ fresh seen (next x)) := by
  refine ⟨fun y hy => ?_, fun y hy => ?_⟩
  · rcases mem_append.mp hy with hrest | hfresh
    · exact mem_append_left _ (h.queued (mem_cons_of_mem _ hrest))
    · exact mem_append_right _ hfresh
  · rcases mem_append.mp hy with hseen | hfresh
    · rcases h.closed y hseen with hqueued | hclosed
      · rcases mem_cons.mp hqueued with rfl | hrest
        · refine .inr fun z hz => ?_
          by_cases hzseen : z ∈ seen
          · exact mem_append_left _ hzseen
          · exact mem_append_right _ (mem_fresh.mpr ⟨hz, hzseen⟩)
        · exact .inl (mem_append_left _ hrest)
      · exact .inr fun z hz => mem_append_left _ (hclosed hz)
    · exact .inl (mem_append_right _ hfresh)

omit [DecidableEq α] in
theorem Frontier.reaches {next : α → List α} {seen : List α} (h : Frontier next seen [])
    {r : α → α → Prop} (hr : ∀ a b, r a b → b ∈ next a) {x y : α} (hx : x ∈ seen)
    (hxy : Relation.ReflTransGen r x y) : y ∈ seen := by
  induction hxy with
  | refl => exact hx
  | tail _ hstep ih =>
    rcases h.closed _ ih with hqueued | hclosed
    · cases hqueued
    · exact hclosed (hr _ _ hstep)

end Marking

end BittyAi.Lib
