/-
BittyAi.Slice.TaskDagTheorems — every operation of the engine is a move of the board.

What a call can do is said once: `TaskEffect` lists the ways a call succeeds, with
everything the later modules need of the tables, and `exec_effect` shows that a call does
one of them or leaves the tables as they were.
-/
import BittyAi.Lib.KeyedTable
import BittyAi.Slice.TaskBoard
import BittyAi.Slice.TaskPathTheorems

namespace BittyAi.Slice

open Lib Session Exiting List

variable {store store' : TaskStore} {id x : TaskId} {task task' : TaskNode}
  {condition : TaskNode → Bool} {change : TaskNode → TaskNode} {rest : List TaskId}

/-! ## Lookups -/

namespace TaskStore

def board (store : TaskStore) : Board TaskId where
  status id := (store.find? id).map (·.status)
  edge p d := (p, d) ∈ store.deps

def generation? (store : TaskStore) (id : TaskId) : Option Nat :=
  (store.find? id).map (·.generation)

theorem id_of_find? (h : store.find? id = some task) : task.id = id := by
  simpa using find?_some h

theorem mem_of_find? (h : store.find? id = some task) : task ∈ store.tasks :=
  mem_of_find?_eq_some h

theorem status_of_find? (h : store.find? id = some task) :
    store.board.status id = some task.status := by
  simp [board, h]

theorem find?_of_status {status : TaskStatus} (h : store.board.status id = some status) :
    ∃ task, store.find? id = some task ∧ task.status = status := by
  simpa [board] using h

@[simp] theorem hasTask_iff : store.hasTask id = true ↔ store.board.status id ≠ none := by
  simp [hasTask, board, Option.isSome_iff_ne_none]

@[simp] theorem mem_dependents : x ∈ store.dependents id ↔ store.board.edge id x := by
  simp [dependents, successors, board]

@[simp] theorem mem_prerequisites : x ∈ store.prerequisites id ↔ store.board.edge x id := by
  simp [prerequisites, board]

theorem find?_updateWhere (hid : ∀ task, (change task).id = task.id) (id : TaskId) :
    (store.updateWhere condition change).find? id =
      (store.find? id).map fun task => if condition task then change task else task :=
  find?_key_map fun task => by split <;> simp [hid]

theorem map_id_updateWhere (hid : ∀ task, (change task).id = task.id) :
    (store.updateWhere condition change).tasks.map (·.id) = store.tasks.map (·.id) := by
  simp only [updateWhere, map_map]
  refine map_congr_left fun task _ => ?_
  by_cases hc : condition task <;> simp [hc, hid]

structure Changed (store store' : TaskStore) (id : TaskId) (task' : TaskNode) : Prop where
  at_task : store'.find? id = some task'
  elsewhere : ∀ x, x ≠ id → store'.find? x = store.find? x
  deps : store'.deps = store.deps
  ids : store'.tasks.map (·.id) = store.tasks.map (·.id)

theorem changed_updateWhere
    (hid : ∀ task, (change task).id = task.id) (hfound : store.find? id = some task)
    (hcondition : condition task = true) (honly : ∀ row, condition row = true → row.id = id) :
    Changed store (store.updateWhere condition change) id (change task) where
  at_task := by rw [find?_updateWhere hid, hfound, Option.map_some, if_pos hcondition]
  elsewhere x hx := by
    rw [find?_updateWhere hid]
    cases hfind : store.find? x with
    | none => rfl
    | some row =>
      have hrow : condition row ≠ true := fun hc => hx (id_of_find? hfind ▸ honly row hc)
      rw [Option.map_some, if_neg hrow]
  deps := rfl
  ids := map_id_updateWhere hid

theorem Changed.setsStatus (h : Changed store store' id task') :
    SetsStatus store.board store'.board id task'.status where
  at_task := by simp [board, h.at_task]
  elsewhere x hx := by simp [board, h.elsewhere x hx]

theorem Changed.edges (h : Changed store store' id task') :
    store'.board.edge = store.board.edge := by
  simp [board, h.deps]

structure Framed (store store' : TaskStore) : Prop where
  deps : store'.deps = store.deps
  ids : store'.tasks.map (·.id) = store.tasks.map (·.id)
  generation : ∀ id, store'.generation? id = store.generation? id

theorem Framed.refl (store : TaskStore) : Framed store store := ⟨rfl, rfl, fun _ => rfl⟩

theorem Framed.trans {a b c : TaskStore} (hab : Framed a b) (hbc : Framed b c) : Framed a c where
  deps := hbc.deps.trans hab.deps
  ids := hbc.ids.trans hab.ids
  generation id := (hbc.generation id).trans (hab.generation id)

theorem Framed.edge_iff (h : Framed store store') (p d : TaskId) :
    store'.board.edge p d ↔ store.board.edge p d := by
  show (p, d) ∈ store'.deps ↔ (p, d) ∈ store.deps
  rw [h.deps]

theorem framed_setStatus (store : TaskStore) (id : TaskId) (status : TaskStatus)
    (nowMs : UInt64) : Framed store (store.setStatus id status nowMs) where
  deps := rfl
  ids := map_id_updateWhere fun _ => rfl
  generation x := by
    have hfind := @find?_updateWhere store (fun task => task.id = id)
      (fun task => { task with status := status, updatedAtMs := nowMs }) (fun _ => rfl) x
    rw [generation?, generation?, setStatus, hfind, Option.map_map]
    congr 1
    funext task
    by_cases h : task.id = id <;> simp [h]

theorem changed_setStatus (hfound : store.find? id = some task) (status : TaskStatus)
    (nowMs : UInt64) :
    Changed store (store.setStatus id status nowMs) id
      { task with status := status, updatedAtMs := nowMs } := by
  have hid : decide (task.id = id) = true := by simpa using id_of_find? hfound
  unfold setStatus
  exact changed_updateWhere (fun _ => rfl) hfound hid fun row hrow => of_decide_eq_true hrow

end TaskStore

open TaskStore

/-! ## Reading -/

section Reading

variable {s : TaskStore} {R : TaskEngineError → TaskStore → Prop}

@[simp] theorem wp_getTask {id : TaskId} {Q : TaskNode → TaskStore → Prop} :
    wp (getTask id) Q R s ↔
      (∀ task, s.find? id = some task → Q task s) ∧
        (s.find? id = none → R (.taskNotFound id) s) := by
  unfold getTask
  rw [wp_bind, wp_read]
  cases s.find? id <;> simp

@[simp] theorem wp_updateTasks {Q : Nat → TaskStore → Prop} :
    wp (updateTasks condition change) Q R s ↔
      Q (s.tasks.countP condition) (s.updateWhere condition change) := wp_lift

def StatusesOf (s : TaskStore) (ids : List TaskId) (statuses : List TaskStatus) : Prop :=
  List.Forall₂ (fun id status => s.board.status id = some status) ids statuses

theorem wp_getStatuses {ids : List TaskId} {Q : List TaskStatus → TaskStore → Prop}
    (hok : ∀ statuses, StatusesOf s ids statuses → Q statuses s) (herror : ∀ e, R e s) :
    wp (getStatuses ids) Q R s := by
  induction ids generalizing Q with
  | nil => exact wp_pure.mpr (hok [] .nil)
  | cons id rest ih =>
    simp only [getStatuses, wp_bind, wp_getTask, wp_pure]
    refine ⟨fun task hfound => ih fun statuses hstatuses => ?_, fun _ => herror _⟩
    exact hok _ (.cons (status_of_find? hfound) hstatuses)

variable {ids : List TaskId} {statuses : List TaskStatus}

theorem StatusesOf.any_iff (h : StatusesOf s ids statuses) (p : TaskStatus → Bool) :
    statuses.any p = true ↔ ∃ id ∈ ids, ∃ status, s.board.status id = some status ∧ p status := by
  induction h with
  | nil => simp
  | cons hid _ ih => simp [ih, hid]

theorem StatusesOf.all_iff (h : StatusesOf s ids statuses) (p : TaskStatus → Bool) :
    statuses.all p = true ↔ ∀ id ∈ ids, ∃ status, s.board.status id = some status ∧ p status := by
  induction h with
  | nil => simp
  | cons hid _ ih => simp [ih, hid]

theorem StatusesOf.evaluates (h : StatusesOf s ids statuses) {required : TaskId → Prop}
    (hrequired : ∀ id, required id ↔ id ∈ ids) :
    Evaluates s.board.status required (evaluate statuses) := by
  have hblocking := h.any_iff (·.isBlocking)
  have hunfinished := h.any_iff (· ≠ .succeeded)
  unfold evaluate
  split
  · rename_i hany
    obtain ⟨p, hp, status, hstatus, hb⟩ := hblocking.mp hany
    exact .blocked ((hrequired p).mpr hp) ⟨status, hstatus, hb⟩
  · rename_i hany
    rw [hblocking] at hany
    split
    · rename_i hsome
      obtain ⟨p, hp, status, hstatus, hne⟩ := hunfinished.mp hsome
      refine .pending ((hrequired p).mpr hp) (by simpa [hstatus] using hne) ?_
      rintro q hq ⟨status', hstatus', hb⟩
      exact hany ⟨q, (hrequired q).mp hq, status', hstatus', hb⟩
    · rename_i hnone
      refine .ready fun p hp => ?_
      have hall : statuses.all (· = .succeeded) = true := by simpa using hnone
      obtain ⟨status, hstatus, hs⟩ := (h.all_iff (· = .succeeded)).mp hall p ((hrequired p).mp hp)
      rw [hstatus, of_decide_eq_true hs]

end Reading

/-! ## The completion cascade -/

section Settling

variable {s done : TaskStore} {nowMs : UInt64} {t : TaskId}

/-- What the loop over the dependents of `t` keeps; `rest` is still to come. -/
structure Settling (done : TaskStore) (t : TaskId) (rest : List TaskId) (s : TaskStore) :
    Prop where
  framed : Framed done s
  moves : ∀ x, s.board.status x = done.board.status x ∨
    (done.board.status x = some .pending ∨ done.board.status x = some .blocked) ∧
      (s.board.status x = some .ready ∧
          (∀ p, done.board.edge p x → done.board.status p = some .succeeded) ∨
        s.board.status x = some .blocked ∧ Infected done.board x)
  reaches : ∀ x status, done.board.edge t x → x ∉ rest → s.board.status x = some status →
    status.isWaiting = true → ∃ p, done.board.edge p x ∧ done.board.status p ≠ some .succeeded

theorem Settling.succeeded_iff (h : Settling done t rest s) (x : TaskId) :
    s.board.status x = some .succeeded ↔ done.board.status x = some .succeeded := by
  rcases h.moves x with hsame | ⟨hwas | hwas, ⟨hnow, -⟩ | ⟨hnow, -⟩⟩
  · rw [hsame]
  all_goals simp [hwas, hnow]

theorem Settling.waited (h : Settling done t rest s)
    (hx : s.board.status x = some .pending ∨ s.board.status x = some .blocked) :
    done.board.status x = some .pending ∨ done.board.status x = some .blocked := by
  rcases h.moves x with hsame | ⟨hwas, -⟩
  · rwa [← hsame]
  · exact hwas

theorem Settling.infected (h : Settling done t rest s) {p : TaskId} (hedge : done.board.edge p x)
    (hp : Blocking s.board.status p) : Infected done.board x := by
  rcases h.moves p with hsame | ⟨hwas, ⟨hnow, -⟩ | ⟨-, hinfected⟩⟩
  · exact .source hedge (hp.of_eq hsame)
  · exact absurd hp (not_blocking_of_status hnow rfl)
  · rcases hwas with hpending | hblocked
    · exact .spread hedge hpending hinfected
    · exact .source hedge ⟨_, hblocked, rfl⟩

theorem Settling.skip (h : Settling done t (x :: rest) s)
    (hx : ∀ status, s.board.status x = some status → status.isWaiting = true →
      ∃ p, done.board.edge p x ∧ done.board.status p ≠ some .succeeded) :
    Settling done t rest s := by
  refine ⟨h.framed, h.moves, fun y status hedge hy hstatus hwaiting => ?_⟩
  by_cases hyx : y = x
  · subst hyx
    exact hx status hstatus hwaiting
  · exact h.reaches y status hedge (by simp [hyx, hy]) hstatus hwaiting

theorem Settling.move {status : TaskStatus} (h : Settling done t (x :: rest) s)
    (hfound : s.find? x = some task)
    (hwas : done.board.status x = some .pending ∨ done.board.status x = some .blocked)
    (hnow : status = .ready ∧ (∀ p, done.board.edge p x → done.board.status p = some .succeeded) ∨
      status = .blocked ∧ Infected done.board x ∧
        ∃ p, done.board.edge p x ∧ done.board.status p ≠ some .succeeded) :
    Settling done t rest (s.setStatus x status nowMs) := by
  obtain ⟨hat, helse⟩ := (changed_setStatus hfound status nowMs).setsStatus
  refine ⟨h.framed.trans (framed_setStatus s x status nowMs), fun y => ?_, ?_⟩
  · by_cases hyx : y = x
    · subst hyx
      rw [hat]
      rcases hnow with ⟨rfl, hall⟩ | ⟨rfl, hinfected, -⟩
      · exact .inr ⟨hwas, .inl ⟨rfl, hall⟩⟩
      · exact .inr ⟨hwas, .inr ⟨rfl, hinfected⟩⟩
    · rw [helse y hyx]
      exact h.moves y
  · intro y status' hedge hy hstatus hwaiting
    by_cases hyx : y = x
    · subst hyx
      rcases hnow with ⟨rfl, -⟩ | ⟨-, -, hreason⟩
      · cases hat.symm.trans hstatus
        cases hwaiting
      · exact hreason
    · rw [helse y hyx] at hstatus
      exact h.reaches y status' hedge (by simp [hyx, hy]) hstatus hwaiting

theorem settleDependent_settles (h : Settling done t (x :: rest) s) :
    wp (settleDependent nowMs x) (fun _ => Settling done t rest) (fun _ _ => True) s := by
  simp only [settleDependent, wp_bind, wp_getTask, wp_ite, wp_read, wp_pure, wp_modify]
  refine ⟨fun task hfound => ⟨fun hstatus => ?_, fun hstatus => ?_⟩, fun _ => trivial⟩
  · have hwaiting : s.board.status x = some .pending ∨ s.board.status x = some .blocked := by
      rw [status_of_find? hfound]
      simpa using hstatus
    refine wp_getStatuses (fun statuses hstatuses => ?_) fun _ => trivial
    have hall := hstatuses.all_iff (· = .succeeded)
    simp only [mem_prerequisites, h.framed.edge_iff, decide_eq_true_eq, exists_eq_right,
      h.succeeded_iff] at hall
    refine ⟨fun hsucceeded => ?_, fun hsome => ⟨fun hblocked => ?_, fun _ => ?_⟩⟩
    · exact h.move hfound (h.waited hwaiting) (.inl ⟨rfl, hall.mp hsucceeded⟩)
    · have hreason : ∃ p, done.board.edge p x ∧ done.board.status p ≠ some .succeeded := by
        rw [hall] at hsome
        push Not at hsome
        exact hsome
      obtain ⟨p, hp, status, hpstatus, hblocking⟩ := (hstatuses.any_iff _).mp hblocked.1
      have hedge := (h.framed.edge_iff p x).mp (mem_prerequisites.mp hp)
      exact h.move hfound (h.waited hwaiting)
        (.inr ⟨rfl, h.infected hedge ⟨status, hpstatus, hblocking⟩, hreason⟩)
    · refine h.skip fun _ _ _ => ?_
      rw [hall] at hsome
      push Not at hsome
      exact hsome
  · refine h.skip fun status hx hwaiting => ?_
    cases (status_of_find? hfound).symm.trans hx
    cases hs : task.status <;> simp [hs] at hstatus hwaiting <;> cases hwaiting

theorem settle_dependents (done : TaskStore) (t : TaskId) :
    wp (each (fun _ dependent => settleDependent nowMs dependent) (done.dependents t) ())
      (fun _ s => Framed done s ∧ Settled done.board t s.board) (fun _ _ => True) done := by
  have hstart : Settling done t (done.dependents t) done := by
    refine ⟨.refl done, fun _ => .inl rfl, fun x _ hedge hx => ?_⟩
    exact absurd (mem_dependents.mpr hedge) hx
  refine wp_mono (wp_each (I := fun rest _ s => Settling done t rest s)
    (fun x rest _ s h => settleDependent_settles h) _ () done hstart) ?_ fun _ _ _ => trivial
  intro _ s h
  refine ⟨h.framed, ?_, h.moves, fun x status hedge => h.reaches x status hedge (by simp)⟩
  funext p d
  exact propext (h.framed.edge_iff p d)

end Settling

/-! ## The block cascade -/

section Cascading

variable {s stopped : TaskStore} {nowMs : UInt64} {t : TaskId}

structure Cascading (stopped : TaskStore) (t : TaskId) (s : TaskStore)
    (visited queue : List TaskId) : Prop where
  framed : Framed stopped s
  moves : ∀ x, s.board.status x = stopped.board.status x ∨
    (stopped.board.status x = some .pending ∨ stopped.board.status x = some .ready) ∧
      s.board.status x = some .blocked ∧
      ∃ p, stopped.board.edge p x ∧ (p = t ∨ s.board.status p = some .blocked)
  queued : queue ⊆ visited
  origin : ∀ x ∈ visited, ∃ p, stopped.board.edge p x ∧ (p = t ∨ s.board.status p = some .blocked)
  covers : ∀ p x, stopped.board.edge p x →
    p = t ∨ s.board.status p ≠ stopped.board.status p → x ∈ visited
  handled : ∀ x ∈ visited, x ∈ queue ∨
    s.board.status x ≠ some .pending ∧ s.board.status x ≠ some .ready

variable {visited : List TaskId}

theorem Cascading.skip (h : Cascading stopped t s visited (x :: rest))
    (hx : s.board.status x ≠ some .pending ∧ s.board.status x ≠ some .ready) :
    Cascading stopped t s visited rest := by
  refine ⟨h.framed, h.moves, fun y hy => h.queued (mem_cons_of_mem _ hy), h.origin,
    h.covers, fun y hy => ?_⟩
  by_cases hyx : y = x
  · exact .inr (hyx ▸ hx)
  · rcases h.handled y hy with hqueued | hdone
    · exact .inl ((mem_cons.mp hqueued).resolve_left hyx)
    · exact .inr hdone

theorem Cascading.block (h : Cascading stopped t s visited (x :: rest))
    (hfound : s.find? x = some task)
    (hx : s.board.status x = some .pending ∨ s.board.status x = some .ready) :
    let blocked := s.setStatus x .blocked nowMs
    let new := fresh visited (blocked.dependents x)
    Cascading stopped t blocked (visited ++ new) (rest ++ new) := by
  intro blocked new
  obtain ⟨hat, helse⟩ := (changed_setStatus hfound .blocked nowMs).setsStatus
  replace hat : blocked.board.status x = some .blocked := hat
  have hwas : s.board.status x = stopped.board.status x := by
    rcases h.moves x with hsame | ⟨-, hnow, -⟩
    · exact hsame
    · rcases hx with hx | hx <;> simp [hnow] at hx
  -- what is blocked stays blocked
  have hstays : ∀ p, s.board.status p = some .blocked → blocked.board.status p = some .blocked := by
    intro p hp
    by_cases hpx : p = x
    · rw [hpx, hat]
    · rw [helse p hpx, hp]
  have horigin : ∀ y ∈ visited, ∃ p, stopped.board.edge p y ∧
      (p = t ∨ blocked.board.status p = some .blocked) := by
    intro y hy
    obtain ⟨p, hedge, hp⟩ := h.origin y hy
    exact ⟨p, hedge, hp.imp_right (hstays p)⟩
  have hnew : ∀ y, y ∈ new ↔ stopped.board.edge x y ∧ y ∉ visited := by
    intro y
    rw [mem_fresh, mem_dependents]
    exact and_congr_left fun _ => h.framed.edge_iff x y
  refine ⟨h.framed.trans (framed_setStatus s x .blocked nowMs), ?_, ?_, ?_, ?_, ?_⟩
  · intro y
    by_cases hyx : y = x
    · subst hyx
      exact .inr ⟨hwas ▸ hx, hat, horigin y (h.queued mem_cons_self)⟩
    · rw [helse y hyx]
      rcases h.moves y with hsame | ⟨hy, hnow, p, hedge, hp⟩
      · exact .inl hsame
      · exact .inr ⟨hy, hnow, p, hedge, hp.imp_right (hstays p)⟩
  · intro y hy
    rcases mem_append.mp hy with hrest | hfresh
    · exact mem_append_left _ (h.queued (mem_cons_of_mem _ hrest))
    · exact mem_append_right _ hfresh
  · intro y hy
    rcases mem_append.mp hy with hvisited | hfresh
    · exact horigin y hvisited
    · exact ⟨x, ((hnew y).mp hfresh).1, .inr hat⟩
  · intro p y hedge hp
    by_cases hpx : p = x
    · subst hpx
      by_cases hy : y ∈ visited
      · exact mem_append_left _ hy
      · exact mem_append_right _ ((hnew y).mpr ⟨hedge, hy⟩)
    · rw [helse p hpx] at hp
      exact mem_append_left _ (h.covers p y hedge hp)
  · intro y hy
    by_cases hyx : y = x
    · subst hyx
      exact .inr (by simp [hat])
    · rw [helse y hyx]
      rcases mem_append.mp hy with hvisited | hfresh
      · rcases h.handled y hvisited with hqueued | hdone
        · exact .inl (mem_append_left _ ((mem_cons.mp hqueued).resolve_left hyx))
        · exact .inr hdone
      · exact .inl (mem_append_right _ hfresh)

theorem cascadeStep_cascades {visited rest next : List TaskId} {s' : TaskStore}
    (h : Cascading stopped t s visited (x :: rest))
    (hstep : cascadeStep nowMs s visited x = .ok (s', next)) :
    next ⊆ stopped.deps.map (·.2) ∧
      Cascading stopped t s' (visited ++ fresh visited next) (rest ++ fresh visited next) := by
  unfold cascadeStep at hstep
  cases hfound : s.find? x with
  | none => simp [hfound] at hstep
  | some task =>
    simp only [hfound] at hstep
    split at hstep
    · rename_i hstatus
      cases hstep
      have hx : s.board.status x = some .pending ∨ s.board.status x = some .ready := by
        rw [status_of_find? hfound]
        simpa using hstatus
      refine ⟨fun y hy => ?_, h.block hfound hx⟩
      rw [mem_dependents] at hy
      exact mem_map.mpr ⟨(x, y), (h.framed.edge_iff x y).mp hy, rfl⟩
    · rename_i hstatus
      cases hstep
      refine ⟨nil_subset _, ?_⟩
      simp only [fresh, append_nil]
      refine h.skip ?_
      rw [status_of_find? hfound]
      simpa using hstatus

theorem cascadeBlockDownstream_cascades (stopped : TaskStore) (t : TaskId) (nowMs : UInt64) :
    wp (cascadeBlockDownstream t nowMs)
      (fun _ s => Framed stopped s ∧ Cascaded stopped.board t s.board) (fun _ _ => True)
      stopped := by
  have hfirst : ∀ x, x ∈ fresh [] (stopped.dependents t) ↔ stopped.board.edge t x := by
    intro x
    rw [mem_fresh, mem_dependents]
    simp
  have hstart : Cascading stopped t stopped (fresh [] (stopped.dependents t))
      (fresh [] (stopped.dependents t)) := by
    refine ⟨.refl stopped, fun _ => .inl rfl, List.Subset.refl _, fun x hx => ?_,
      fun p x hedge hp => ?_, fun x hx => .inl hx⟩
    · exact ⟨t, (hfirst x).mp hx, .inl rfl⟩
    · rcases hp with rfl | hne
      · exact (hfirst x).mpr hedge
      · exact absurd rfl hne
  have hfuel : (fresh [] (stopped.dependents t)).length +
      unseen (stopped.deps.map (·.2)) (fresh [] (stopped.dependents t)) ≤ stopped.deps.length := by
    have hsub : fresh [] (stopped.dependents t) ⊆ stopped.deps.map (·.2) := fun x hx =>
      mem_map.mpr ⟨(t, x), (hfirst x).mp hx, rfl⟩
    have hunseen := @unseen_append _ _ _ [] _ (nodup_fresh [] (stopped.dependents t)) hsub (by simp)
    simp only [nil_append, unseen, not_mem_nil, not_false_eq_true, decide_true,
      filter_true, length_map] at hunseen ⊢
    omega
  have hends : SearchEnds (cascadeStep nowMs) (Cascading stopped t)
      (search (cascadeStep nowMs) stopped.deps.length stopped _ _) :=
    search_rule (fun s visited x rest s' next => cascadeStep_cascades) hfuel hstart
  unfold wp cascadeBlockDownstream
  dsimp only
  cases hsearch : search (cascadeStep nowMs) stopped.deps.length stopped
      (fresh [] (stopped.dependents t)) (fresh [] (stopped.dependents t)) with
  | error e => trivial
  | ok result =>
    rw [hsearch] at hends
    have hdone : Cascading stopped t result.1 result.2 [] := hends
    refine ⟨hdone.framed, ?_, hdone.moves, fun p x hedge hp => ?_⟩
    · funext p d
      exact propext (hdone.framed.edge_iff p d)
    · exact (hdone.handled x (hdone.covers p x hedge hp)).resolve_left (by simp)

end Cascading

/-! ## Effects -/

inductive TaskEffect (s : TaskStore) : TaskCommand → TaskReply → TaskStore → Prop
  | create {draft : TaskDraft} {nowMs : UInt64} {node : TaskNode}
      (new : s.find? draft.id = none)
      (known : ∀ dep ∈ draft.dependencies, s.board.status dep ≠ none)
      (evaluates : Evaluates s.board.status (· ∈ draft.dependencies) node.status)
      (hid : node.id = draft.id) (hgeneration : node.generation = 0) :
      TaskEffect s (.createTask draft nowMs) (.task node)
        ⟨s.tasks ++ [node], s.deps ++ (sortDedup draft.dependencies).map (·, draft.id)⟩
  | relink {p d : TaskId} : TaskEffect s (.addDependency p d) .done s
  | link {p d : TaskId} {s' : TaskStore} (new : (p, d) ∉ s.deps)
      (deps : s'.deps = s.deps ++ [(p, d)]) (ids : s'.tasks.map (·.id) = s.tasks.map (·.id))
      (generation : ∀ id, s'.generation? id = s.generation? id)
      (linked : Linked p d s.board s'.board) : TaskEffect s (.addDependency p d) .done s'
  | assign {id : TaskId} {agent : String} {nowMs : UInt64} {task task' : TaskNode}
      {s' : TaskStore} (found : s.find? id = some task) (ready : task.status = .ready)
      (changed : Changed s s' id task') (status : task'.status = .running)
      (generation : task'.generation = task.generation + 1) :
      TaskEffect s (.assignTask id agent nowMs) (.token (task.generation + 1)) s'
  | complete {id : TaskId} {token : Nat} {checkpoint : Option ContentHash} {nowMs : UInt64}
      {task task' node : TaskNode} {done s' : TaskStore} (found : s.find? id = some task)
      (running : task.status = .running) (current : task.generation = token)
      (changed : Changed s done id task') (status : task'.status = .succeeded)
      (generation : task'.generation = token) (framed : Framed done s')
      (settled : Settled done.board id s'.board) :
      TaskEffect s (.completeTask id token checkpoint nowMs) (.task node) s'
  | fail {id : TaskId} {token : Nat} {reason : String} {nowMs : UInt64}
      {task task' node : TaskNode} {stopped s' : TaskStore} (found : s.find? id = some task)
      (running : task.status = .running) (current : task.generation = token)
      (changed : Changed s stopped id task') (status : task'.status = .failed)
      (generation : task'.generation = token) (framed : Framed stopped s')
      (cascaded : Cascaded stopped.board id s'.board) :
      TaskEffect s (.failTask id token reason nowMs) (.task node) s'
  | cancel {id : TaskId} {nowMs : UInt64} {task task' node : TaskNode} {stopped s' : TaskStore}
      (found : s.find? id = some task) (unfinished : task.status.isTerminal = false)
      (changed : Changed s stopped id task') (status : task'.status = .cancelled)
      (generation : task'.generation = task.generation + 1) (framed : Framed stopped s')
      (cascaded : Cascaded stopped.board id s'.board) :
      TaskEffect s (.cancelTask id nowMs) (.task node) s'
  | retry {id : TaskId} {nowMs : UInt64} {task task' node : TaskNode} {s' : TaskStore}
      (found : s.find? id = some task)
      (stopped : task.status = .failed ∨ task.status = .cancelled)
      (changed : Changed s s' id task')
      (evaluates : Evaluates s.board.status (s.board.edge · id) task'.status)
      (generation : task'.generation = task.generation + 1) :
      TaskEffect s (.retryTask id nowMs) (.task node) s'

section Effects

variable {s : TaskStore} {nowMs : UInt64}

def Unchanged (s : TaskStore) : TaskEngineError → TaskStore → Prop := fun _ s' => s' = s

theorem checkDraft_spec (draft : TaskDraft) :
    wp (checkDraft draft) (fun _ s' => s' = s) (Unchanged s) s := by
  simp [checkDraft, Unchanged]

theorem checkDependencies_spec (id : TaskId) (deps : List TaskId) : wp (checkDependencies id deps)
      (fun _ s' => s' = s ∧ ∀ dep ∈ deps, s.board.status dep ≠ none) (Unchanged s) s := by
  induction deps with
  | nil => simp [checkDependencies]
  | cons dep rest ih =>
    simp only [checkDependencies, wp_bind, wp_refuse, wp_read]
    refine ⟨fun _ => rfl, fun _ => ⟨fun _ => rfl, fun hknown => ?_⟩⟩
    refine wp_mono ih (fun _ s' h => ⟨h.1, ?_⟩) fun _ _ h => h
    exact forall_mem_cons.mpr ⟨hasTask_iff.mp (by simpa using hknown), h.2⟩

theorem createTask_effect (draft : TaskDraft) : wp (createTask draft nowMs)
      (fun node => TaskEffect s (.createTask draft nowMs) (.task node)) (Unchanged s) s := by
  simp only [createTask, wp_bind, wp_read, wp_refuse, wp_modify, wp_pure]
  refine wp_mono (checkDraft_spec draft) ?_ fun _ _ h => h
  rintro _ s' rfl
  refine ⟨fun _ => rfl, fun hnew => ?_⟩
  refine wp_mono (checkDependencies_spec draft.id draft.dependencies) ?_ fun _ _ h => h
  rintro _ s' ⟨rfl, hknown⟩
  refine wp_getStatuses (fun statuses hstatuses => ?_) fun _ => rfl
  refine .create ?_ hknown (hstatuses.evaluates fun id => by simp) rfl rfl
  simpa [hasTask] using hnew

/-- What a new prerequisite of status `required` makes of a task. -/
def linkedStatus (status required : TaskStatus) : TaskStatus :=
  if status = .ready then
    if required.isBlocking then .blocked else if required ≠ .succeeded then .pending else .ready
  else status

theorem linked_of_status {s' : TaskStore} {p d : TaskId} {task required : TaskNode}
    (hfound : s.find? d = some task) (hrequired : s.find? p = some required)
    (hopen : ¬(task.status = .running ∨ task.status.isTerminal = true))
    (hpath : findPath s d p = .ok none) (hdeps : s'.deps = s.deps ++ [(p, d)])
    (helse : ∀ x, x ≠ d → s'.board.status x = s.board.status x)
    (hd : s'.board.status d = some (linkedStatus task.status required.status)) :
    Linked p d s.board s'.board := by
  have hp := status_of_find? hrequired
  have hblocking : Blocking s.board.status p ↔ required.status.isBlocking = true := by
    simp [Blocking, hp]
  have hwas := status_of_find? hfound
  refine ⟨by simp [hp], ?_, findPath_none hpath, fun x y => ?_, helse, ?_, ?_, ?_, ?_⟩
  · rw [hwas]
    cases hstatus : task.status <;> simp [hstatus, TaskStatus.isTerminal] at hopen ⊢
  · show (x, y) ∈ s'.deps ↔ (x, y) ∈ s.deps ∨ _
    rw [hdeps]
    simp
  · intro hne
    rw [hd, hwas, linkedStatus, if_neg (by simpa [hwas] using hne)]
  · intro hready hb
    rw [hd, linkedStatus, if_pos (by simpa [hwas] using hready), if_pos (hblocking.mp hb)]
  · intro hready hb hne
    rw [hd, linkedStatus, if_pos (by simpa [hwas] using hready),
      if_neg (by rwa [← hblocking]), if_pos (by simpa [hp] using hne)]
  · intro hready hsucceeded
    have hrs : required.status = .succeeded := by simpa [hp] using hsucceeded
    rw [hd, linkedStatus, if_pos (by simpa [hwas] using hready), hrs]
    rfl

theorem addDependency_effect (p d : TaskId) :
    wp (addDependency p d) (fun _ => TaskEffect s (.addDependency p d) .done) (Unchanged s) s := by
  simp only [addDependency, wp_bind, wp_refuse, wp_read, wp_ite, wp_getTask, wp_pure]
  refine ⟨fun _ => rfl, fun _ => ⟨fun _ => rfl, fun hknown => ⟨fun _ => rfl, fun _ => ?_⟩⟩⟩
  refine ⟨fun _ => .relink, fun hnew => ⟨fun task hfound => ?_, fun _ => rfl⟩⟩
  refine ⟨fun _ => rfl, fun hopen => ?_⟩
  cases hpath : findPath s d p with
  | error e => exact wp_exit.mpr rfl
  | ok result =>
    cases result with
    | some path => exact wp_exit.mpr rfl
    | none =>
      let linked : TaskStore := { s with deps := s.deps ++ [(p, d)] }
      have hlinked : linked.find? d = some task := hfound
      have hfinish : ∀ required s', s.find? p = some required → Framed linked s' →
          SetsStatus linked.board s'.board d (linkedStatus task.status required.status) →
          TaskEffect s (.addDependency p d) .done s' := fun required s' hrequired hframed hsets =>
        .link hnew hframed.deps hframed.ids hframed.generation
          (linked_of_status hfound hrequired hopen hpath hframed.deps hsets.elsewhere hsets.at_task)
      -- where the status stays as it is
      have hkeep : ∀ required, s.find? p = some required →
          linkedStatus task.status required.status = task.status →
          TaskEffect s (.addDependency p d) .done linked := fun required hrequired hsame =>
        hfinish required linked hrequired (.refl linked)
          ⟨by rw [hsame, status_of_find? hlinked], fun _ _ => rfl⟩
      simp only [wp_bind, wp_modify, wp_getTask, wp_ite, wp_pure]
      refine ⟨fun required hrequired => ⟨fun hready => ⟨fun hblocking => ?_, fun hblocking =>
        ⟨fun hne => ?_, fun hne => ?_⟩⟩, fun hready => ?_⟩, fun hmissing => ?_⟩
      · refine hfinish required _ hrequired (framed_setStatus linked d .blocked _) ?_
        rw [linkedStatus, if_pos hready, if_pos hblocking]
        exact (changed_setStatus hlinked .blocked _).setsStatus
      · refine hfinish required _ hrequired (framed_setStatus linked d .pending _) ?_
        rw [linkedStatus, if_pos hready, if_neg hblocking, if_pos hne]
        exact (changed_setStatus hlinked .pending _).setsStatus
      · exact hkeep required hrequired (by
          rw [linkedStatus, if_pos hready, if_neg hblocking, if_neg hne, hready])
      · exact hkeep required hrequired (by rw [linkedStatus, if_neg hready])
      · exact absurd hmissing (show s.find? p ≠ none by simpa [hasTask] using hknown)

theorem addDependency_cycle (p d : TaskId) : wp (addDependency p d) (fun _ _ => True)
      (fun e _ => ∀ cycle, e = .cycleDetected cycle →
        IsCycle (fun a b => (a, b) ∈ s.deps ++ [(p, d)]) cycle) s := by
  simp only [addDependency, wp_bind, wp_refuse, wp_read, wp_ite, wp_getTask, wp_pure]
  refine ⟨by simp, fun _ => ⟨by simp, fun _ => ⟨by simp, fun _ => ⟨fun _ => trivial, fun _ => ?_⟩⟩⟩⟩
  refine ⟨fun task _ => ⟨by simp, fun _ => ?_⟩, by simp⟩
  rcases findPath_cases s d p with ⟨hnone, -⟩ | ⟨path, hpath, hsimple⟩
  · simp [hnone]
  · simp only [hpath, wp_exit, TaskEngineError.cycleDetected.injEq]
    rintro cycle rfl
    exact hsimple.isCycle (fun a b h => mem_append_left _ h) (by simp)

/-- The path search is exact, and so is the cycle reported from it. -/
theorem find_path_exact (store : TaskStore) (start goal : TaskId) :
    ∃ found, findPath store start goal = .ok found ∧
      (found.isSome = true ↔ Relation.ReflTransGen store.board.edge start goal) ∧
      (∀ path, found = some path → SimplePath store.board.edge start goal path) ∧
      ∀ cycle after, addDependency goal start store = (.error (.cycleDetected cycle), after) →
        IsCycle (fun a b => (a, b) ∈ store.deps ++ [(goal, start)]) cycle := by
  have hcycle : ∀ cycle after, addDependency goal start store =
        (.error (.cycleDetected cycle), after) →
      IsCycle (fun a b => (a, b) ∈ store.deps ++ [(goal, start)]) cycle :=
    fun cycle after hrun => of_wp_error (addDependency_cycle goal start) hrun cycle rfl
  rcases findPath_cases store start goal with ⟨hnone, hnot⟩ | ⟨path, hpath, hsimple⟩
  · exact ⟨none, hnone, iff_of_false (by simp) hnot, by simp, hcycle⟩
  · refine ⟨some path, hpath, iff_of_true rfl hsimple.reaches, ?_, hcycle⟩
    rintro _ ⟨⟩
    exact hsimple

theorem countP_pos_of_find?
    (hfound : s.find? id = some task) (h : condition task = true) :
    s.tasks.countP condition ≠ 0 :=
  Nat.pos_iff_ne_zero.mp (countP_pos_iff.mpr ⟨task, mem_of_find? hfound, h⟩)

theorem assignTask_effect (id : TaskId) (agent : String) : wp (assignTask id agent nowMs)
      (fun token => TaskEffect s (.assignTask id agent nowMs) (.token token)) (Unchanged s) s := by
  simp only [assignTask, wp_bind, wp_refuse, wp_getTask, wp_updateTasks, wp_ite, wp_pure, wp_exit]
  refine ⟨fun _ => rfl, fun _ => ⟨fun _ => rfl, fun _ => ⟨fun task hfound => ?_, fun _ => rfl⟩⟩⟩
  refine ⟨fun _ => rfl, fun hready => ?_⟩
  rw [not_not] at hready
  have hcondition : (decide (task.id = id) && decide (task.status = .ready) &&
      decide (task.generation = task.generation)) = true := by
    simp [id_of_find? hfound, hready]
  refine ⟨fun hrows => absurd hrows (countP_pos_of_find? hfound hcondition), fun _ => ?_⟩
  refine .assign hfound hready (changed_updateWhere (fun _ => rfl) hfound hcondition ?_) rfl rfl
  intro row hrow
  simp only [Bool.and_eq_true, decide_eq_true_eq] at hrow
  exact hrow.1.1

theorem finishUpdate_spec {token : Nat} {target : TaskStatus}
    (hid : ∀ row, (change row).id = row.id)
    (hfound : s.find? id = some task) (hrunning : task.status = .running)
    (htoken : task.generation = token) :
    wp (finishUpdate id token target change)
      (fun _ s' => Changed s s' id (change task)) (fun _ _ => True) s := by
  simp only [finishUpdate, wp_bind, wp_updateTasks, wp_ite, wp_pure]
  have hcondition : (decide (task.id = id) && decide (task.status = .running) &&
      decide (task.generation = token)) = true := by
    simp [id_of_find? hfound, hrunning, htoken]
  refine ⟨fun hrows => absurd hrows (countP_pos_of_find? hfound hcondition), fun _ => ?_⟩
  refine changed_updateWhere hid hfound hcondition fun row hrow => ?_
  simp only [Bool.and_eq_true, decide_eq_true_eq] at hrow
  exact hrow.1.1

theorem find?_ne_none_of_framed {a b c : TaskStore} (hchanged : Changed a b id task')
    (hframed : Framed b c) : c.find? id ≠ none := by
  have hgeneration := hframed.generation id
  rw [generation?, generation?, hchanged.at_task] at hgeneration
  intro hnone
  simp [hnone] at hgeneration

theorem completeTask_effect (id : TaskId) (token : Nat) (checkpoint : Option ContentHash) :
    wp (completeTask id token checkpoint nowMs)
      (fun node => TaskEffect s (.completeTask id token checkpoint nowMs) (.task node))
      (Unchanged s) s := by
  simp only [completeTask, wp_bind, wp_refuse, wp_getTask, wp_transaction]
  refine ⟨fun task hfound => ⟨fun _ => rfl, fun hrunning => ⟨fun _ => rfl, fun htoken => ?_⟩⟩,
    fun _ => rfl⟩
  rw [not_not] at hrunning htoken
  refine wp_mono (finishUpdate_spec (fun _ => rfl) hfound hrunning htoken) ?_ fun _ _ _ => rfl
  intro _ done hchanged
  rw [wp_read]
  refine wp_mono (settle_dependents done id) ?_ fun _ _ _ => rfl
  rintro _ s' ⟨hframed, hsettled⟩
  refine ⟨fun node _ => ?_, fun hnone => absurd hnone (find?_ne_none_of_framed hchanged hframed)⟩
  exact .complete hfound hrunning htoken hchanged rfl htoken hframed hsettled

theorem failTask_effect (id : TaskId) (token : Nat) (reason : String) :
    wp (failTask id token reason nowMs)
      (fun node => TaskEffect s (.failTask id token reason nowMs) (.task node))
      (Unchanged s) s := by
  simp only [failTask, wp_bind, wp_refuse, wp_getTask, wp_transaction]
  refine ⟨fun _ => rfl, fun _ => ⟨fun task hfound => ⟨fun _ => rfl, fun hrunning =>
    ⟨fun _ => rfl, fun htoken => ?_⟩⟩, fun _ => rfl⟩⟩
  rw [not_not] at hrunning htoken
  refine wp_mono (finishUpdate_spec (fun _ => rfl) hfound hrunning htoken) ?_ fun _ _ _ => rfl
  intro _ stopped hchanged
  refine wp_mono (cascadeBlockDownstream_cascades stopped id nowMs) ?_ fun _ _ _ => rfl
  rintro _ s' ⟨hframed, hcascaded⟩
  refine ⟨fun node _ => ?_, fun hnone => absurd hnone (find?_ne_none_of_framed hchanged hframed)⟩
  exact .fail hfound hrunning htoken hchanged rfl htoken hframed hcascaded

theorem cancelTask_effect (id : TaskId) : wp (cancelTask id nowMs)
      (fun node => TaskEffect s (.cancelTask id nowMs) (.task node)) (Unchanged s) s := by
  simp only [cancelTask, wp_bind, wp_refuse, wp_getTask, wp_transaction, wp_updateTasks, wp_ite,
    wp_exit]
  refine ⟨fun task hfound => ⟨fun _ => rfl, fun hunfinished => ?_⟩, fun _ => rfl⟩
  have hunfinished : task.status.isTerminal = false := by simpa using hunfinished
  have hcondition : (decide (task.id = id) && !task.status.isTerminal) = true := by
    simp [id_of_find? hfound, hunfinished]
  refine ⟨fun hrows => absurd hrows (countP_pos_of_find? hfound hcondition), fun _ => ?_⟩
  have hchanged := @changed_updateWhere s id task
    (fun row => decide (row.id = id) && !row.status.isTerminal)
    (fun row =>
      { row with status := .cancelled, generation := task.generation + 1, updatedAtMs := nowMs })
    (fun _ => rfl) hfound hcondition fun row hrow => by
      simp only [Bool.and_eq_true, decide_eq_true_eq] at hrow
      exact hrow.1
  refine wp_mono (cascadeBlockDownstream_cascades _ id nowMs) ?_ fun _ _ _ => rfl
  rintro _ s' ⟨hframed, hcascaded⟩
  refine ⟨fun node _ => ?_, fun hnone => absurd hnone (find?_ne_none_of_framed hchanged hframed)⟩
  exact .cancel hfound hunfinished hchanged rfl rfl hframed hcascaded

theorem retryTask_effect (id : TaskId) : wp (retryTask id nowMs)
      (fun node => TaskEffect s (.retryTask id nowMs) (.task node)) (Unchanged s) s := by
  simp only [retryTask, getDependencies, wp_bind, wp_refuse, wp_getTask, wp_read, wp_modify]
  refine ⟨fun task hfound => ⟨fun _ => rfl, fun hstopped => ⟨fun _ => rfl, fun _ => ?_⟩⟩,
    fun _ => rfl⟩
  rw [not_not] at hstopped
  refine wp_getStatuses (fun statuses hstatuses => ?_) fun _ => rfl
  have hchanged := @changed_updateWhere s id task (fun row => decide (row.id = id)) (fun row =>
      { row with
        status := evaluate statuses, generation := task.generation + 1, failureReason := none
        assignedAgent := none, checkpoint := none, updatedAtMs := nowMs })
    (fun _ => rfl) hfound (decide_eq_true (id_of_find? hfound)) fun row hrow =>
      of_decide_eq_true hrow
  refine ⟨fun node _ => ?_, fun hnone => absurd hnone (by simp [hchanged.at_task])⟩
  exact .retry hfound hstopped hchanged (hstatuses.evaluates fun p => mem_prerequisites.symm) rfl

theorem exec_effect (command : TaskCommand) :
    wp command.exec (TaskEffect s command) (Unchanged s) s := by
  cases command <;> simp only [TaskCommand.exec, wp_bind, wp_pure]
  case createTask draft nowMs => exact createTask_effect draft
  case addDependency p d => exact addDependency_effect p d
  case assignTask id agent nowMs => exact assignTask_effect id agent
  case completeTask id token checkpoint nowMs => exact completeTask_effect id token checkpoint
  case failTask id token reason nowMs => exact failTask_effect id token reason
  case cancelTask id nowMs => exact cancelTask_effect id
  case retryTask id nowMs => exact retryTask_effect id

end Effects

/-! ## Runs -/

section Runs

variable {s s' : TaskStore} {command : TaskCommand} {reply : TaskReply}

theorem exec_cases (s : TaskStore) (command : TaskCommand) : (∃ e, command.exec s = (.error e, s)) ∨
      ∃ reply s', command.exec s = (.ok reply, s') ∧ TaskEffect s command reply s' := by
  rcases hexec : command.exec s with ⟨e | reply, s'⟩
  · have hsame : s' = s := of_wp_error (exec_effect command) hexec
    exact .inl ⟨e, by rw [hsame]⟩
  · exact .inr ⟨reply, s', rfl, of_wp_ok (exec_effect command) hexec⟩

theorem runCommands_keeps {I : TaskStore → Prop}
    (step : ∀ s command reply s', TaskEffect s command reply s' → I s → I s')
    (commands : List TaskCommand) (h : I s) : I (runCommands s commands) := by
  induction commands generalizing s with
  | nil => exact h
  | cons command rest ih =>
    show I (runCommands (command.exec s).2 rest)
    rcases exec_cases s command with ⟨e, hexec⟩ | ⟨reply, s', hexec, heffect⟩
    · simpa [hexec] using ih h
    · simpa [hexec] using ih (step s command reply s' heffect h)

variable {deps : List (TaskId × TaskId)}

theorem find?_append_new {node : TaskNode} (hnew : s.find? node.id = none) :
    (⟨s.tasks ++ [node], deps⟩ : TaskStore).find? node.id = some node := by
  simp only [TaskStore.find?] at hnew
  simp [TaskStore.find?, find?_append, hnew]

theorem find?_append_old {node : TaskNode} (hx : x ≠ node.id) :
    (⟨s.tasks ++ [node], deps⟩ : TaskStore).find? x = s.find? x := by
  simp [TaskStore.find?, find?_append, Ne.symm hx]

theorem TaskEffect.moves (h : TaskEffect s command reply s') :
    s' = s ∨ (∃ p d, command = .addDependency p d ∧ Linked p d s.board s'.board) ∨
      BoardStep s.board s'.board := by
  cases h with
  | @create draft nowMs node new known evaluates hid hgeneration =>
    rw [← hid] at new ⊢
    refine .inr (.inr (.create (t := node.id) (by simp [board, new]) known evaluates ?_ ?_))
    · intro p d
      simp [board, mem_sortDedup, eq_comm]
    · constructor
      · simp [board, find?_append_new new]
      · intro x hx
        simp [board, find?_append_old hx]
  | relink => exact .inl rfl
  | link new deps ids generation linked => exact .inr (.inl ⟨_, _, rfl, linked⟩)
  | assign found ready changed status generation =>
    exact .inr (.inr (.assign (by rw [status_of_find? found, ready]) changed.edges
      (status ▸ changed.setsStatus)))
  | complete found running current changed status generation framed settled =>
    exact .inr (.inr (.complete (by rw [status_of_find? found, running]) changed.edges
      (status ▸ changed.setsStatus) settled))
  | fail found running current changed status generation framed cascaded =>
    exact .inr (.inr (.stop (status_of_find? found) (.inl ⟨status, running⟩) changed.edges
      changed.setsStatus cascaded))
  | cancel found unfinished changed status generation framed cascaded =>
    exact .inr (.inr (.stop (status_of_find? found) (.inr ⟨status, unfinished⟩) changed.edges
      changed.setsStatus cascaded))
  | retry found stopped changed evaluates generation =>
    exact .inr (.inr (.retry (status_of_find? found) stopped evaluates changed.edges
      changed.setsStatus))

def TaskCommand.target? : TaskCommand → Option TaskId
  | .createTask _ _ | .addDependency _ _ => none
  | .assignTask id _ _ | .completeTask id _ _ _ | .failTask id _ _ _ | .cancelTask id _
  | .retryTask id _ => some id

theorem Settled.running {b b' : Board TaskId} {t x : TaskId} (hs : Settled b t b')
    (h : b'.status x = some .running) : b.status x = some .running := by
  rcases hs.moves x with hsame | ⟨-, ⟨hnow, -⟩ | ⟨hnow, -⟩⟩
  · rwa [hsame] at h
  · simp [hnow] at h
  · simp [hnow] at h

theorem Cascaded.running {b b' : Board TaskId} {t x : TaskId} (hc : Cascaded b t b')
    (h : b'.status x = some .running) : b.status x = some .running := by
  rcases hc.moves x with hsame | ⟨-, hnow, -⟩
  · rwa [hsame] at h
  · simp [hnow] at h

theorem Evaluates.not_running {status : TaskId → Option TaskStatus} {required : TaskId → Prop}
    {result : TaskStatus} (h : Evaluates status required result) : result ≠ .running := by
  cases h <;> simp

/-- A successful call on a task changes its row, and what follows starts no task; only an
assignment leaves it running, under the token it returns. -/
theorem TaskEffect.touched (h : TaskEffect s command reply s') {id : TaskId}
    (hid : command.target? = some id) :
    ∃ task task' done, s.find? id = some task ∧ Changed s done id task' ∧ Framed done s' ∧
      (∀ x, s'.board.status x = some .running → done.board.status x = some .running) ∧
      task.generation ≤ task'.generation ∧
      (task'.status = .running → ∃ agent nowMs,
        command = .assignTask id agent nowMs ∧ reply = .token task'.generation) := by
  cases h with
  | create | relink | link => cases hid
  | assign found ready changed status generation =>
    cases hid
    exact ⟨_, _, s', found, changed, .refl s', fun _ h => h, by omega,
      fun _ => ⟨_, _, rfl, by rw [generation]⟩⟩
  | complete found running current changed status generation framed settled =>
    cases hid
    exact ⟨_, _, _, found, changed, framed, fun _ => settled.running, by omega, by simp [status]⟩
  | fail found running current changed status generation framed cascaded
  | cancel found unfinished changed status generation framed cascaded =>
    cases hid
    exact ⟨_, _, _, found, changed, framed, fun _ => cascaded.running, by omega, by simp [status]⟩
  | retry found stopped changed evaluates generation =>
    cases hid
    exact ⟨_, _, s', found, changed, .refl s', fun _ h => h, by omega,
      fun h => absurd h evaluates.not_running⟩

theorem TaskEffect.ids (h : TaskEffect s command reply s') :
    s'.tasks.map (·.id) = s.tasks.map (·.id) ∨
      ∃ id, s.find? id = none ∧ s'.tasks.map (·.id) = s.tasks.map (·.id) ++ [id] := by
  cases htarget : command.target? with
  | some id =>
    obtain ⟨task, task', done, -, changed, framed, -⟩ := h.touched htarget
    exact .inl (framed.ids.trans changed.ids)
  | none =>
    cases h with
    | @create draft nowMs node new known evaluates hid hgeneration =>
      exact .inr ⟨draft.id, new, by simp [hid]⟩
    | relink => exact .inl rfl
    | link new deps ids generation linked => exact .inl ids
    | _ => cases htarget

theorem TaskEffect.ids_nodup (h : TaskEffect s command reply s')
    (hs : (s.tasks.map (·.id)).Nodup) : (s'.tasks.map (·.id)).Nodup := by
  rcases h.ids with hsame | ⟨id, hnew, happend⟩
  · rwa [hsame]
  · rw [happend, nodup_append]
    refine ⟨hs, nodup_singleton id, ?_⟩
    simp only [TaskStore.find?, find?_eq_none, decide_eq_true_eq] at hnew
    intro a ha b hb
    obtain ⟨task, htask, rfl⟩ := mem_map.mp ha
    rw [mem_singleton.mp hb]
    exact hnew task htask

theorem find?_of_mem (hs : (s.tasks.map (·.id)).Nodup)
    (htask : task ∈ s.tasks) : s.find? task.id = some task :=
  (find?_key_eq_some hs).mpr ⟨htask, rfl⟩

end Runs

end BittyAi.Slice
