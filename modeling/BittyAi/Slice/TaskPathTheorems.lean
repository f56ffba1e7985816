/-
BittyAi.Slice.TaskPathTheorems — the path search of `bitty-ai-slice/src/task_dag.rs`.

`Noted` says how the notes of `find_path` grow, which task was met from which, so that the
walk back along them ends at the start on a path without repetition; `findPath_cases` says
that the search finds such a path or that there is none.
-/
import BittyAi.Slice.TaskDag

namespace BittyAi.Slice

open Lib List

/-! ## Paths -/

structure SimplePath {α : Type} (r : α → α → Prop) (a b : α) (path : List α) : Prop where
  first : path.head? = some a
  last : path.getLast? = some b
  linked : path.IsChain r
  nodup : path.Nodup

structure IsCycle {α : Type} (r : α → α → Prop) (cycle : List α) : Prop where
  closed : cycle.head? = cycle.getLast?
  long : 2 ≤ cycle.length
  linked : cycle.IsChain r
  nodup : cycle.tail.Nodup

section Paths

variable {α : Type} {r : α → α → Prop} {a b c : α} {path : List α}

theorem simplePath_self (r : α → α → Prop) (a : α) : SimplePath r a a [a] :=
  ⟨rfl, rfl, .singleton a, nodup_singleton a⟩

theorem SimplePath.linked_snoc (h : SimplePath r a b path) (hbc : r b c) :
    (path ++ [c]).IsChain r :=
  h.linked.append (.singleton c) (by simp [h.last, hbc])

theorem SimplePath.snoc (h : SimplePath r a b path) (hbc : r b c) (hc : c ∉ path) :
    SimplePath r a c (path ++ [c]) where
  first := by rw [head?_append, h.first]; rfl
  last := by simp
  linked := h.linked_snoc hbc
  nodup := nodup_append.mpr ⟨h.nodup, nodup_singleton c, by grind⟩

theorem SimplePath.reaches (h : SimplePath r a b path) : Relation.ReflTransGen r a b := by
  obtain ⟨hhead, hlast, hlinked, -⟩ := h
  cases path with
  | nil => cases hhead
  | cons x path =>
    cases hhead
    exact relationReflTransGen_of_exists_isChain_cons path hlinked (getLast_of_mem_getLast? hlast)

theorem SimplePath.isCycle {r' : α → α → Prop} (h : SimplePath r a b path)
    (hr : ∀ x y, r x y → r' x y) (hback : r' b a) : IsCycle r' (path ++ [a]) := by
  have h' : SimplePath r' a b path := ⟨h.first, h.last, h.linked.imp hr, h.nodup⟩
  have hlinked := h'.linked_snoc hback
  obtain ⟨hhead, -, -, hnodup⟩ := h
  cases path with
  | nil => cases hhead
  | cons x path =>
    cases hhead
    refine ⟨getLast?_concat.symm, by simp, hlinked, ?_⟩
    exact (perm_append_singleton a path).nodup_iff.mpr hnodup

end Paths

/-! ## Parents -/

def metTasks (start : TaskId) (parent : List (TaskId × TaskId)) : List TaskId :=
  start :: parent.map (·.1)

inductive Noted (deps : List (TaskId × TaskId)) (start : TaskId) : List (TaskId × TaskId) → Prop
  | nil : Noted deps start []
  | cons {x y : TaskId} {older : List (TaskId × TaskId)} (edge : (y, x) ∈ deps)
      (new : x ∉ metTasks start older) (met : y ∈ metTasks start older)
      (h : Noted deps start older) : Noted deps start ((x, y) :: older)

section Parents

variable {deps parent : List (TaskId × TaskId)} {start x : TaskId}

theorem mem_metTasks_round {new : List TaskId} {y : TaskId} :
    y ∈ metTasks start (new.map (·, x) ++ parent) ↔ y ∈ metTasks start parent ∨ y ∈ new := by
  simp [metTasks, Function.comp_def, or_comm, or_left_comm]

theorem Noted.round (h : Noted deps start parent) (hx : x ∈ metTasks start parent)
    {new : List TaskId} (hedges : ∀ y ∈ new, (x, y) ∈ deps)
    (hnew : ∀ y ∈ new, y ∉ metTasks start parent) (hnodup : new.Nodup) :
    Noted deps start (new.map (·, x) ++ parent) := by
  induction new with
  | nil => exact h
  | cons y new ih =>
    obtain ⟨hfirst, hnodup⟩ := nodup_cons.mp hnodup
    obtain ⟨hedge, hedges⟩ := forall_mem_cons.mp hedges
    obtain ⟨hy, hnew⟩ := forall_mem_cons.mp hnew
    refine .cons hedge ?_ (mem_metTasks_round.mpr (.inl hx)) (ih hedges hnew hnodup)
    exact fun hmem => (mem_metTasks_round.mp hmem).elim hy hfirst

theorem Noted.pathBack (h : Noted deps start parent) (hx : x ∈ metTasks start parent) :
    ∃ path, SimplePath (fun a b => (a, b) ∈ deps) start x path ∧ path ⊆ metTasks start parent ∧
      ∀ newer fuel, (∀ e ∈ newer, e.1 ∉ metTasks start parent) → parent.length < fuel →
        Slice.pathBack (newer ++ parent) start fuel x = some path := by
  have hstart : ∀ newer fuel, 0 < fuel → Slice.pathBack newer start fuel start = some [start] := by
    intro newer fuel hfuel
    obtain ⟨fuel, rfl⟩ := Nat.exists_eq_succ_of_ne_zero hfuel.ne'
    rw [Slice.pathBack, if_pos rfl]
  induction h generalizing x with
  | nil =>
    obtain rfl : x = start := by simpa [metTasks] using hx
    exact ⟨[x], simplePath_self _ x, by simp [metTasks], fun newer fuel _ => hstart _ fuel⟩
  | @cons z y older edge new met h ih =>
    have hsub : metTasks start older ⊆ metTasks start ((z, y) :: older) := by simp [metTasks]
    -- the new note does not change the walks from the tasks met before
    have hback : ∀ {w path}, (∀ newer fuel, (∀ e ∈ newer, e.1 ∉ metTasks start older) →
          older.length < fuel → Slice.pathBack (newer ++ older) start fuel w = some path) →
        ∀ newer fuel, (∀ e ∈ newer, e.1 ∉ metTasks start ((z, y) :: older)) →
          older.length < fuel →
          Slice.pathBack (newer ++ (z, y) :: older) start fuel w = some path := by
      intro w path hwalk newer fuel hnewer hfuel
      rw [append_cons]
      refine hwalk _ fuel (forall_mem_append.mpr ⟨fun e he hmem => ?_, ?_⟩) hfuel
      · exact hnewer e he (hsub hmem)
      · exact forall_mem_singleton.mpr new
    by_cases hold : x ∈ metTasks start older
    · obtain ⟨path, hpath, hmet, hwalk⟩ := ih hold
      exact ⟨path, hpath, List.Subset.trans hmet hsub, fun newer fuel hnewer hfuel =>
        hback hwalk newer fuel hnewer (Nat.lt_of_succ_lt hfuel)⟩
    · obtain rfl : x = z := by grind [metTasks]
      obtain ⟨path, hpath, hmet, hwalk⟩ := ih met
      refine ⟨path ++ [x], hpath.snoc edge fun hmem => hold (hmet hmem), ?_, ?_⟩
      · grind [metTasks]
      · intro newer fuel hnewer hfuel
        obtain ⟨fuel, rfl⟩ := Nat.exists_eq_succ_of_ne_zero (Nat.ne_zero_of_lt hfuel)
        have hlookup : (newer ++ (x, y) :: older).lookup x = some y := by
          rw [lookup_append, lookup_eq_none_iff.mpr, Option.none_or, lookup_cons_self]
          intro e he
          have hne := hnewer e he
          grind [metTasks]
        have hne : x ≠ start := by
          rintro rfl
          simp [metTasks] at hold
        rw [Slice.pathBack, if_neg hne, hlookup]
        simp [hback hwalk newer fuel hnewer (Nat.lt_of_succ_lt_succ hfuel)]

end Parents

/-! ## The search -/

structure Searching (store : TaskStore) (start goal : TaskId) (parent : List (TaskId × TaskId))
    (visited queue : List TaskId) : Prop where
  frontier : Frontier (successors store.deps) visited queue
  noted : Noted store.deps start parent
  visited_iff : ∀ x, x ∈ visited ↔ x ∈ metTasks start parent
  goal_queued : goal ∈ visited → goal ∈ queue

section Search

variable {store : TaskStore} {start goal current : TaskId} {parent parent' : List (TaskId × TaskId)}
  {visited rest next : List TaskId}

theorem mem_successors_deps {a b : TaskId} : b ∈ successors store.deps a ↔ (a, b) ∈ store.deps := by
  simp [successors]

theorem findPathStep_searches (h : Searching store start goal parent visited (current :: rest))
    (hstep : findPathStep store start goal parent visited current = .ok (parent', next)) :
    next ⊆ store.deps.map (·.2) ∧ Searching store start goal parent'
      (visited ++ fresh visited next) (rest ++ fresh visited next) := by
  unfold findPathStep at hstep
  split at hstep
  · cases hstep
  next hgoal =>
    cases hstep
    have hcurrent := (h.visited_iff current).mp (h.frontier.queued mem_cons_self)
    have hfresh : ∀ y ∈ fresh visited (successors store.deps current),
        (current, y) ∈ store.deps ∧ y ∉ metTasks start parent := by
      intro y hy
      rw [mem_fresh, mem_successors_deps, h.visited_iff] at hy
      exact hy
    refine ⟨fun y hy => ?_, h.frontier.step,
      h.noted.round hcurrent (fun y hy => (hfresh y hy).1) (fun y hy => (hfresh y hy).2)
        (nodup_fresh _ _), fun x => ?_, fun hvisited => ?_⟩
    · exact mem_map.mpr ⟨(current, y), mem_successors_deps.mp hy, rfl⟩
    · rw [mem_append, h.visited_iff, mem_metTasks_round]
    · rcases mem_append.mp hvisited with hold | hnew
      · rcases mem_cons.mp (h.goal_queued hold) with rfl | hrest
        · exact absurd rfl hgoal
        · exact mem_append_left _ hrest
      · exact mem_append_right _ hnew

theorem findPath_cases (store : TaskStore) (start goal : TaskId) :
    findPath store start goal = .ok none ∧
        ¬Relation.ReflTransGen (fun a b => (a, b) ∈ store.deps) start goal ∨
      ∃ path, findPath store start goal = .ok (some path) ∧
        SimplePath (fun a b => (a, b) ∈ store.deps) start goal path := by
  have hstart : Searching store start goal [] [start] [start] :=
    ⟨⟨List.Subset.refl _, fun x hx => .inl hx⟩, .nil, fun x => Iff.rfl, id⟩
  have hfuel : [start].length + unseen (store.deps.map (·.2)) [start] ≤ store.deps.length + 1 := by
    have := length_filter_le (fun x => decide (x ∉ [start])) (store.deps.map (·.2))
    simp only [length_map, length_singleton, unseen] at this ⊢
    omega
  have hends : SearchEnds (findPathStep store start goal) (Searching store start goal)
      (search (findPathStep store start goal) (store.deps.length + 1) [] _ _) :=
    search_rule (fun _ _ _ _ _ _ => findPathStep_searches) hfuel hstart
  unfold findPath
  cases hsearch : search (findPathStep store start goal) (store.deps.length + 1) [] [start]
      [start] with
  | ok result =>
    rw [hsearch] at hends
    have hdone : Searching store start goal result.1 result.2 [] := hends
    refine .inl ⟨rfl, fun hpath => ?_⟩
    have hmet : start ∈ result.2 := (hdone.visited_iff start).mpr mem_cons_self
    have hreach := hdone.frontier.reaches (fun a b => mem_successors_deps.mpr) hmet hpath
    simpa using hdone.goal_queued hreach
  | error found =>
    rw [hsearch] at hends
    obtain ⟨parent, visited, x, rest, h, hstep⟩ := hends
    unfold findPathStep at hstep
    split at hstep
    next hgoal =>
      subst hgoal
      have hmet := (h.visited_iff x).mp (h.frontier.queued mem_cons_self)
      obtain ⟨path, hpath, -, hwalk⟩ := h.noted.pathBack hmet
      have hfound : found = some path := by
        rw [← hwalk [] (parent.length + 1) (by simp) (Nat.lt_succ_self _)]
        exact (Except.error.inj hstep).symm
      exact .inr ⟨path, by rw [hfound], hpath⟩
    next => cases hstep

theorem findPath_none (h : findPath store start goal = .ok none) :
    ¬Relation.ReflTransGen (fun a b => (a, b) ∈ store.deps) start goal := by
  rcases findPath_cases store start goal with ⟨-, hnot⟩ | ⟨path, hpath, -⟩
  · exact hnot
  · rw [hpath] at h
    cases h

end Search

end BittyAi.Slice
