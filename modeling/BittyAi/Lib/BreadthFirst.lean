/-
BittyAi.Lib.BreadthFirst — the order in which a breadth-first search meets nodes.

A route is a list of positions: which successor to take at each step; the shorter one is
sooner, then the one whose successors come first. A search that marks what it pushes meets
the nodes in the order of their soonest routes, so the first node that it stops at has the
soonest route to any node that it would stop at.
-/
import Mathlib.Data.List.Induction
import Mathlib.Data.List.Lex
import Mathlib.Data.Prod.Lex
import BittyAi.Lib.Worklist

namespace BittyAi.Lib

open List

/-! ## Routes -/

/-- `π` is shorter than `ρ`, or as long and before it in the order of positions. -/
def Sooner (π ρ : List Nat) : Prop := π.length < ρ.length ∨ π.length = ρ.length ∧ π < ρ

variable {π ρ : List Nat}

theorem sooner_iff : Sooner π ρ ↔ toLex (π.length, π) < toLex (ρ.length, ρ) :=
  (Prod.Lex.toLex_lt_toLex (x := (_, _)) (y := (_, _))).symm

theorem Sooner.irrefl (π : List Nat) : ¬Sooner π π := by simp [Sooner]

theorem Sooner.trans {π ρ σ : List Nat} (h : Sooner π ρ) (h' : Sooner ρ σ) : Sooner π σ :=
  sooner_iff.mpr ((sooner_iff.mp h).trans (sooner_iff.mp h'))

theorem Sooner.asymm (h : Sooner π ρ) : ¬Sooner ρ π :=
  fun h' => Sooner.irrefl π (h.trans h')

theorem Sooner.trichotomy (π ρ : List Nat) : Sooner π ρ ∨ π = ρ ∨ Sooner ρ π := by
  simp only [sooner_iff]
  refine (lt_trichotomy _ _).imp_right (Or.imp_left fun h => ?_)
  exact congrArg Prod.snd (toLex_inj.mp h)

theorem sooner_snoc (π : List Nat) (j : Nat) : Sooner π (π ++ [j]) := .inl (by simp)

theorem lt_append_of_lt (hlen : π.length = ρ.length) (h : π < ρ)
    (xs ys : List Nat) : π ++ xs < ρ ++ ys := by
  induction h with
  | nil => simp at hlen
  | rel h => exact .rel h
  | cons _ ih => exact .cons (ih (by simpa using hlen))

theorem Sooner.snoc (h : Sooner π ρ) (i j : Nat) :
    Sooner (π ++ [i]) (ρ ++ [j]) := by
  rcases h with h | ⟨hlen, hlt⟩
  · exact .inl (by simpa using h)
  · exact .inr ⟨by simpa using hlen, lt_append_of_lt hlen hlt [i] [j]⟩

theorem sooner_snoc_snoc (π : List Nat) {i j : Nat} (h : i < j) : Sooner (π ++ [i]) (π ++ [j]) :=
  .inr ⟨by simp, append_left_lt (cons_lt_cons_iff.mpr (.inl h))⟩

variable {α : Type}

def follow (next : α → List α) (start : α) (π : List Nat) : Option α :=
  π.foldl (fun node j => node.bind fun x => (next x)[j]?) (some start)

section Follow

variable {next : α → List α} {start x y : α} {π : List Nat} {j : Nat}

@[simp] theorem follow_snoc :
    follow next start (π ++ [j]) = (follow next start π).bind fun x => (next x)[j]? := by
  simp [follow]

theorem follow_snoc_eq_some : follow next start (π ++ [j]) = some y ↔
      ∃ x, follow next start π = some x ∧ (next x)[j]? = some y := by
  simp [Option.bind_eq_some_iff]

theorem exists_follow_iff :
    (∃ π, follow next start π = some y) ↔
      Relation.ReflTransGen (fun a b => b ∈ next a) start y := by
  constructor
  · rintro ⟨π, hπ⟩
    induction π using reverseRecOn generalizing y with
    | nil =>
      cases hπ
      exact .refl
    | append_singleton π j ih =>
      obtain ⟨x, hx, hy⟩ := follow_snoc_eq_some.mp hπ
      exact (ih hx).tail (mem_of_getElem? hy)
  · intro h
    induction h with
    | refl => exact ⟨[], rfl⟩
    | tail _ hstep ih =>
      obtain ⟨π, hπ⟩ := ih
      obtain ⟨j, hj⟩ := getElem?_of_mem hstep
      exact ⟨π ++ [j], follow_snoc_eq_some.mpr ⟨_, hπ, hj⟩⟩

end Follow

/-! ## Positions of new nodes -/

theorem fresh_positions [DecidableEq α] (seen xs : List α) : ∃ js : List Nat, js.Pairwise (· < ·) ∧
    js.map (fun j => xs[j]?) = (fresh seen xs).map some ∧
    ∀ j y, xs[j]? = some y → y ∈ seen ∨ ∃ i ∈ js, i ≤ j ∧ xs[i]? = some y := by
  induction xs generalizing seen with
  | nil => exact ⟨[], .nil, rfl, by simp⟩
  | cons x xs ih =>
    by_cases hx : x ∈ seen
    · obtain ⟨js, hsorted, hvalues, hfirst⟩ := ih seen
      refine ⟨js.map (· + 1), ?_, ?_, ?_⟩
      · exact pairwise_map.mpr (hsorted.imp (by omega))
      · simpa [fresh, hx, Function.comp_def] using hvalues
      · intro j y hy
        cases j with
        | zero =>
          simp only [getElem?_cons_zero, Option.some.injEq] at hy
          exact .inl (hy ▸ hx)
        | succ j =>
          rcases hfirst j y (by simpa using hy) with hseen | ⟨i, hi, hij, hval⟩
          · exact .inl hseen
          · exact .inr ⟨i + 1, mem_map_of_mem hi, by omega, by simpa using hval⟩
    · obtain ⟨js, hsorted, hvalues, hfirst⟩ := ih (x :: seen)
      refine ⟨0 :: js.map (· + 1), ?_, ?_, ?_⟩
      · refine pairwise_cons.mpr ⟨by simp, ?_⟩
        exact pairwise_map.mpr (hsorted.imp (by omega))
      · simpa [fresh, hx, Function.comp_def] using hvalues
      · intro j y hy
        cases j with
        | zero => exact .inr ⟨0, mem_cons_self, le_rfl, hy⟩
        | succ j =>
          rcases hfirst j y (by simpa using hy) with hseen | ⟨i, hi, hij, hval⟩
          · rcases mem_cons.mp hseen with rfl | hseen
            · exact .inr ⟨0, mem_cons_self, by omega, rfl⟩
            · exact .inl hseen
          · exact .inr ⟨i + 1, mem_cons_of_mem _ (mem_map_of_mem hi), by omega,
              by simpa using hval⟩

/-! ## The search -/

/-- The seen nodes have routes in the order in which they were met: `done` those of the nodes
taken from the queue, `waiting` those of the queue. -/
structure Routes (next : α → List α) (start : α) (stop : α → Prop) (seen queue : List α)
    (done waiting : List (List Nat)) : Prop where
  ordered : (done ++ waiting).Pairwise Sooner
  seen_eq : (done ++ waiting).map (follow next start) = seen.map some
  queue_eq : waiting.map (follow next start) = queue.map some
  started : [] ∈ done ++ waiting
  grown : ∀ π ∈ done ++ waiting, π = [] ∨ ∃ κ ∈ done, ∃ i, π = κ ++ [i]
  closed : ∀ κ ∈ done, ∀ j y, follow next start (κ ++ [j]) = some y →
    ∃ π ∈ done ++ waiting, follow next start π = some y ∧ ¬Sooner (κ ++ [j]) π
  passed : ∀ κ ∈ done, ∀ x, follow next start κ = some x → ¬stop x

def Explored (next : α → List α) (start : α) (stop : α → Prop) (seen queue : List α) : Prop :=
  ∃ done waiting, Routes next start stop seen queue done waiting

section Explored

variable {next : α → List α} {start : α} {stop : α → Prop} {seen queue : List α}

theorem explored_start : Explored next start stop [start] [start] :=
  ⟨[], [[]], by simp [pairwise_cons], rfl, rfl, by simp, by simp, by simp, by simp⟩

variable {done waiting : List (List Nat)}

theorem Routes.sooner_front {π : List Nat}
    (h : Routes next start stop seen queue done (π :: waiting)) (j : Nat) :
    ∀ σ ∈ done ++ π :: waiting, Sooner σ (π ++ [j]) := by
  intro σ hσ
  rcases h.grown σ hσ with rfl | ⟨κ, hκ, i, rfl⟩
  · exact .inl (by simp)
  · exact ((pairwise_append.mp h.ordered).2.2 κ hκ π mem_cons_self).snoc i j

theorem Explored.step [DecidableEq α] {x : α} {rest : List α}
    (h : Explored next start stop seen (x :: rest)) (hx : ¬stop x) :
    Explored next start stop (seen ++ fresh seen (next x)) (rest ++ fresh seen (next x)) := by
  obtain ⟨done, waiting, h⟩ := h
  cases waiting with
  | nil => simpa using h.queue_eq
  | cons π waiting =>
    have hqueue := h.queue_eq
    simp only [map_cons, cons.injEq] at hqueue
    obtain ⟨hπ, hwaiting⟩ := hqueue
    obtain ⟨js, hsorted, hvalues, hfirst⟩ := fresh_positions seen (next x)
    have hnew : (js.map fun j => π ++ [j]).map (follow next start) =
        (fresh seen (next x)).map some := by
      rw [← hvalues, map_map]
      exact map_congr_left fun j _ => by simp [hπ]
    have hroutes : (done ++ [π]) ++ (waiting ++ js.map fun j => π ++ [j]) =
        (done ++ π :: waiting) ++ js.map fun j => π ++ [j] := by simp
    refine ⟨done ++ [π], waiting ++ js.map fun j => π ++ [j], ?_, ?_, ?_, ?_, ?_, ?_, ?_⟩
    · rw [hroutes, pairwise_append]
      refine ⟨h.ordered, pairwise_map.mpr (hsorted.imp (sooner_snoc_snoc π)), ?_⟩
      intro σ hσ ρ hρ
      obtain ⟨j, -, rfl⟩ := mem_map.mp hρ
      exact h.sooner_front j σ hσ
    · rw [hroutes, map_append, h.seen_eq, hnew, map_append]
    · rw [map_append, hwaiting, hnew, map_append]
    · rw [hroutes]
      exact mem_append_left _ h.started
    · intro σ hσ
      rw [hroutes] at hσ
      rcases mem_append.mp hσ with hold | hnew
      · rcases h.grown σ hold with hnil | ⟨κ, hκ, i, hi⟩
        · exact .inl hnil
        · exact .inr ⟨κ, mem_append_left _ hκ, i, hi⟩
      · obtain ⟨j, -, rfl⟩ := mem_map.mp hnew
        exact .inr ⟨π, by simp, j, rfl⟩
    · intro κ hκ j y hy
      rw [hroutes]
      rcases mem_append.mp hκ with hdone | hfront
      · obtain ⟨σ, hσ, hlead, hsooner⟩ := h.closed κ hdone j y hy
        exact ⟨σ, mem_append_left _ hσ, hlead, hsooner⟩
      · obtain rfl := mem_singleton.mp hfront
        have hpos : (next x)[j]? = some y := by simpa [hπ] using hy
        rcases hfirst j y hpos with hseen | ⟨i, hi, hij, hval⟩
        · -- the successor was met before: its route is sooner than this one
          have hmem : some y ∈ (done ++ κ :: waiting).map (follow next start) := by
            rw [h.seen_eq]
            exact mem_map_of_mem hseen
          obtain ⟨σ, hσ, hlead⟩ := mem_map.mp hmem
          exact ⟨σ, mem_append_left _ hσ, hlead, (h.sooner_front j σ hσ).asymm⟩
        · refine ⟨κ ++ [i], mem_append_right _ (mem_map_of_mem hi), ?_, ?_⟩
          · simp [hπ, hval]
          · rcases Nat.lt_or_eq_of_le hij with hlt | rfl
            · exact (sooner_snoc_snoc κ hlt).asymm
            · exact Sooner.irrefl _
    · refine forall_mem_append.mpr ⟨h.passed, forall_mem_singleton.mpr fun z hz => ?_⟩
      cases hπ.symm.trans hz
      exact hx

/-- Every route that is sooner than those of the queue leads to a node that was taken from
it, on a route that is not later. -/
theorem Routes.taken (h : Routes next start stop seen queue done waiting) {ρ : List Nat} {y : α}
    (hρ : follow next start ρ = some y) (hsooner : ∀ π ∈ waiting, Sooner ρ π) :
    ∃ κ ∈ done, follow next start κ = some y ∧ ¬Sooner ρ κ := by
  -- a met route that is not later than `ρ` is none of the queue's
  have hdone : ∀ ρ, (∀ π ∈ waiting, Sooner ρ π) → ∀ σ ∈ done ++ waiting, ¬Sooner ρ σ →
      σ ∈ done := by
    intro ρ hsooner σ hσ hle
    rcases mem_append.mp hσ with hd | hw
    · exact hd
    · exact absurd (hsooner σ hw) hle
  induction ρ using reverseRecOn generalizing y with
  | nil => exact ⟨[], hdone [] hsooner [] h.started (Sooner.irrefl []), hρ, Sooner.irrefl []⟩
  | append_singleton ρ j ih =>
    obtain ⟨x, hx, hxy⟩ := follow_snoc_eq_some.mp hρ
    obtain ⟨κ, hκ, hlead, hle⟩ := ih hx fun π hπ => (sooner_snoc ρ j).trans (hsooner π hπ)
    obtain ⟨σ, hσ, hy, hσle⟩ := h.closed κ hκ j y (follow_snoc_eq_some.mpr ⟨x, hlead, hxy⟩)
    have hnot : ¬Sooner (ρ ++ [j]) σ := by
      intro hlt
      rcases Sooner.trichotomy κ ρ with hlt' | rfl | hgt
      · exact hσle ((hlt'.snoc j j).trans hlt)
      · exact hσle hlt
      · exact hle hgt
    exact ⟨σ, hdone _ hsooner σ hσ hnot, hy, hnot⟩

theorem Explored.met (h : Explored next start stop seen []) {y : α}
    (hy : Relation.ReflTransGen (fun a b => b ∈ next a) start y) : y ∈ seen ∧ ¬stop y := by
  obtain ⟨done, waiting, h⟩ := h
  have hwaiting : waiting = [] := by simpa using h.queue_eq
  subst hwaiting
  obtain ⟨ρ, hρ⟩ := exists_follow_iff.mpr hy
  obtain ⟨κ, hκ, hlead, -⟩ := h.taken hρ (by simp)
  have hmem : some y ∈ seen.map some := by
    rw [← h.seen_eq, ← hlead]
    exact mem_map_of_mem (mem_append_left _ hκ)
  exact ⟨by simpa using hmem, h.passed κ hκ y hlead⟩

theorem Explored.mem_iff (h : Explored next start stop seen []) {y : α} :
    y ∈ seen ↔ Relation.ReflTransGen (fun a b => b ∈ next a) start y := by
  refine ⟨fun hy => exists_follow_iff.mp ?_, fun hy => (h.met hy).1⟩
  obtain ⟨done, waiting, h⟩ := h
  have hmem : some y ∈ (done ++ waiting).map (follow next start) := by
    rw [h.seen_eq]
    exact mem_map_of_mem hy
  obtain ⟨π, -, hπ⟩ := mem_map.mp hmem
  exact ⟨π, hπ⟩

theorem Explored.front {x : α} {rest : List α} (h : Explored next start stop seen (x :: rest)) :
    ∃ π, follow next start π = some x ∧
      ∀ ρ y, follow next start ρ = some y → stop y → ¬Sooner ρ π := by
  obtain ⟨done, waiting, h⟩ := h
  cases waiting with
  | nil => simpa using h.queue_eq
  | cons π waiting =>
    have hqueue := h.queue_eq
    simp only [map_cons, cons.injEq] at hqueue
    refine ⟨π, hqueue.1, fun ρ y hρ hstop hsooner => ?_⟩
    have hordered := (pairwise_cons.mp (pairwise_append.mp h.ordered).2.1).1
    have hwaiting : ∀ σ ∈ π :: waiting, Sooner ρ σ :=
      forall_mem_cons.mpr ⟨hsooner, fun σ hσ => hsooner.trans (hordered σ hσ)⟩
    obtain ⟨κ, hκ, hlead, -⟩ := h.taken hρ hwaiting
    exact h.passed κ hκ y hlead hstop

end Explored

end BittyAi.Lib
