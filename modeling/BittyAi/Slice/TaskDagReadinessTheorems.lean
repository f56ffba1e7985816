/-
BittyAi.Slice.TaskDagReadinessTheorems — which tasks may run.

That nothing stays pending behind a task that cannot succeed is kept by every operation but
one: `add_dependency` looks again at a ready dependent only, and does
not look further down. `lateLinkRun` leaves a pending task behind a failed one.
-/
import BittyAi.Slice.TaskDagTheorems

namespace BittyAi.Slice

open Lib TaskStore

variable {store s s' : TaskStore} {id x : TaskId} {task : TaskNode} {command : TaskCommand}
  {reply : TaskReply}

/-! ## The invariant of the tables -/

structure Sound (store : TaskStore) : Prop where
  ids_nodup : (store.tasks.map (·.id)).Nodup
  consistent : Consistent store.board

theorem sound_empty : Sound .empty where
  ids_nodup := List.nodup_nil
  consistent :=
    ⟨fun p d h => by simp [board, empty] at h, fun p d s h => by simp [board, empty] at h,
      fun d s h => by simp [board, empty, find?] at h⟩

theorem TaskEffect.sound (h : TaskEffect s command reply s') (hs : Sound s) : Sound s' := by
  refine ⟨h.ids_nodup hs.ids_nodup, ?_⟩
  rcases h.moves with rfl | ⟨p, d, -, hlinked⟩ | hstep
  · exact hs.consistent
  · exact hlinked.consistent hs.consistent
  · exact hstep.consistent hs.consistent

theorem sound_runCommands (commands : List TaskCommand) : Sound (runCommands .empty commands) :=
  runCommands_keeps (fun _ _ _ _ heffect hs => heffect.sound hs) commands sound_empty

theorem Sound.status_of_mem (h : Sound store) (htask : task ∈ store.tasks) :
    store.board.status task.id = some task.status :=
  status_of_find? (find?_of_mem h.ids_nodup htask)

theorem exists_row (h : store.board.status id ≠ none) :
    ∃ row ∈ store.tasks, row.id = id := by
  obtain ⟨status, hstatus⟩ := Option.ne_none_iff_exists'.mp h
  obtain ⟨row, hrow, -⟩ := find?_of_status hstatus
  exact ⟨row, mem_of_find? hrow, id_of_find? hrow⟩

/-! ## Readiness -/

/-- After any calls, a task that is ready, running, succeeded or failed has only
succeeded prerequisites, and one that is pending or blocked has one that has not
succeeded. -/
theorem task_waits_for_prerequisites (commands : List TaskCommand) {task : TaskNode}
    (htask : task ∈ (runCommands .empty commands).tasks) :
    (task.status ∈ [.ready, .running, .succeeded, .failed] →
      ∀ p, (p, task.id) ∈ (runCommands .empty commands).deps →
        ∃ row ∈ (runCommands .empty commands).tasks, row.id = p ∧ row.status = .succeeded) ∧
    (task.status ∈ [.pending, .blocked] → ∃ row ∈ (runCommands .empty commands).tasks,
        (row.id, task.id) ∈ (runCommands .empty commands).deps ∧ row.status ≠ .succeeded) := by
  have hsound := sound_runCommands commands
  have hstatus := hsound.status_of_mem htask
  constructor
  · intro hdispatched p hedge
    have hs : task.status.isDispatched = true := by
      simp only [List.mem_cons, List.not_mem_nil, or_false] at hdispatched
      rcases hdispatched with h | h | h | h <;> rw [h] <;> rfl
    have hp := hsound.consistent.satisfied p task.id task.status hedge hstatus hs
    obtain ⟨row, hrow, rfl⟩ := exists_row (hsound.consistent.closed p task.id hedge).1
    rw [hsound.status_of_mem hrow] at hp
    exact ⟨row, hrow, rfl, Option.some.inj hp⟩
  · intro hwaiting
    have hs : task.status.isWaiting = true := by
      simp only [List.mem_cons, List.not_mem_nil, or_false] at hwaiting
      rcases hwaiting with h | h <;> rw [h] <;> rfl
    obtain ⟨p, hedge, hp⟩ := hsound.consistent.waits task.id task.status hstatus hs
    obtain ⟨row, hrow, rfl⟩ := exists_row (hsound.consistent.closed p task.id hedge).1
    rw [hsound.status_of_mem hrow] at hp
    exact ⟨row, hrow, hedge, fun h => hp (by rw [h])⟩

def requiredId : TaskId := ⟨"schema", by decide⟩
def dependentId : TaskId := ⟨"migrate", by decide⟩
def lateId : TaskId := ⟨"review", by decide⟩

def waitingRun : List TaskCommand :=
  [.createTask { id := requiredId, title := "Schema" } 1,
    .createTask { id := dependentId, title := "Migrate", dependencies := [requiredId] } 2]

theorem task_waits_for_prerequisites_waitingRun :
    ∃ task ∈ (runCommands .empty waitingRun).tasks, task.status = .pending ∧
      ∃ row ∈ (runCommands .empty waitingRun).tasks,
        (row.id, task.id) ∈ (runCommands .empty waitingRun).deps ∧ row.status ≠ .succeeded := by
  obtain ⟨task, htask, hpending⟩ : ∃ task ∈ (runCommands .empty waitingRun).tasks,
      task.status = .pending := by decide +kernel
  exact ⟨task, htask, hpending,
    (task_waits_for_prerequisites waitingRun htask).2 (by simp [hpending])⟩

/-! ## Propagation -/

def SafeCommand (store : TaskStore) : TaskCommand → Prop
  | .addDependency prerequisite dependent => SafeLink store.board prerequisite dependent
  | _ => True

def SafeCommands : TaskStore → List TaskCommand → Prop
  | _, [] => True
  | store, command :: rest => SafeCommand store command ∧ SafeCommands (command.exec store).2 rest

theorem TaskEffect.propagated (h : TaskEffect s command reply s') (hs : Sound s)
    (hsafe : SafeCommand s command) (hb : Propagated s.board) : Propagated s'.board := by
  rcases h.moves with rfl | ⟨p, d, rfl, hlinked⟩ | hstep
  · exact hb
  · exact (hlinked.propagated_iff hs.consistent hb).mpr hsafe
  · exact hstep.propagated hs.consistent hb

theorem propagated_runCommands {commands : List TaskCommand} (hs : Sound store)
    (hb : Propagated store.board) (hsafe : SafeCommands store commands) :
    Propagated (runCommands store commands).board := by
  induction commands generalizing store with
  | nil => exact hb
  | cons command rest ih =>
    obtain ⟨hcommand, hrest⟩ := hsafe
    show Propagated (runCommands (command.exec store).2 rest).board
    rcases exec_cases store command with ⟨e, hexec⟩ | ⟨reply, s', hexec, heffect⟩
    · simp only [hexec] at hrest ⊢
      exact ih hs hb hrest
    · simp only [hexec] at hrest ⊢
      exact ih (heffect.sound hs) (heffect.propagated hs hcommand hb) hrest

/-- After calls whose links are all safe, no pending task has a prerequisite that
failed, was cancelled or is blocked. -/
theorem pending_task_not_behind_blocking (commands : List TaskCommand)
    (hsafe : SafeCommands .empty commands) {task row : TaskNode}
    (htask : task ∈ (runCommands .empty commands).tasks)
    (hrow : row ∈ (runCommands .empty commands).tasks)
    (hdep : (row.id, task.id) ∈ (runCommands .empty commands).deps)
    (hpending : task.status = .pending) :
    row.status ≠ .failed ∧ row.status ≠ .cancelled ∧ row.status ≠ .blocked := by
  have hsound := sound_runCommands commands
  have hb := propagated_runCommands sound_empty (fun p d h => by simp [board, empty] at h) hsafe
  have hblocking := hb row.id task.id hdep (by rw [hsound.status_of_mem htask, hpending])
  have hstatus := hsound.status_of_mem hrow
  refine ⟨?_, ?_, ?_⟩ <;> intro h <;> exact hblocking ⟨_, h ▸ hstatus, rfl⟩

def safeLinkRun : List TaskCommand :=
  waitingRun ++
    [.createTask { id := lateId, title := "Review" } 3, .addDependency lateId dependentId]

theorem pending_task_not_behind_blocking_safeLinkRun :
    ∃ task ∈ (runCommands .empty safeLinkRun).tasks,
      ∃ row ∈ (runCommands .empty safeLinkRun).tasks,
        (row.id, task.id) ∈ (runCommands .empty safeLinkRun).deps ∧ task.status = .pending ∧
          row.status ≠ .failed ∧ row.status ≠ .cancelled ∧ row.status ≠ .blocked := by
  obtain ⟨task, htask, row, hrow, hdep, hpending⟩ : ∃ task ∈ (runCommands .empty safeLinkRun).tasks,
        ∃ row ∈ (runCommands .empty safeLinkRun).tasks,
          (row.id, task.id) ∈ (runCommands .empty safeLinkRun).deps ∧ task.status = .pending := by
    decide +kernel
  have hready : (runCommands .empty (safeLinkRun.take 3)).board.status lateId = some .ready := by
    decide +kernel
  have hsafe : SafeLink (runCommands .empty (safeLinkRun.take 3)).board lateId dependentId :=
    fun _ hblocking => absurd hblocking (not_blocking_of_status hready rfl)
  exact ⟨task, htask, row, hrow, hdep, hpending,
    pending_task_not_behind_blocking safeLinkRun ⟨trivial, trivial, trivial, hsafe, trivial⟩
      htask hrow hdep hpending⟩

/-- `review` fails before `migrate`, which waits for `schema`, is linked to it. -/
def lateLinkRun : List TaskCommand :=
  waitingRun ++
    [.createTask { id := lateId, title := "Review" } 3,
      .assignTask lateId "agent" 4,
      .failTask lateId 1 "rejected" 5,
      .addDependency lateId dependentId]

/-- The link is accepted and leaves the task pending behind the failed one. -/
theorem pending_behind_failed_lateLinkRun : ∃ task ∈ (runCommands .empty lateLinkRun).tasks,
      ∃ row ∈ (runCommands .empty lateLinkRun).tasks,
        (row.id, task.id) ∈ (runCommands .empty lateLinkRun).deps ∧ task.status = .pending ∧
          row.status = .failed := by
  decide +kernel

/-! ## The order of the dependencies

`create_task` adds edges into a task that nothing requires yet, and `add_dependency`
adds an edge only after a search has found no path back; so no run closes a cycle.
The sort keeps its ready tasks by the negated priority, and the least `i32`, which
`create_task` accepts, has no negation: one such task stops every sort of the store. -/

theorem TaskEffect.acyclic (h : TaskEffect s command reply s') (hs : Sound s)
    (ha : Acyclic s.board.edge) : Acyclic s'.board.edge := by
  rcases h.moves with rfl | ⟨p, d, -, hlinked⟩ | hstep
  · exact ha
  · exact hlinked.acyclic ha
  · exact hstep.acyclic hs.consistent ha

theorem acyclic_runCommands (commands : List TaskCommand) :
    Acyclic (runCommands .empty commands).board.edge := by
  have hempty : Acyclic TaskStore.empty.board.edge := by
    intro x hx
    cases hx with
    | single h | tail _ h => simp [board, empty] at h
  have hkept : Sound (runCommands .empty commands) ∧
      Acyclic (runCommands .empty commands).board.edge :=
    runCommands_keeps (I := fun s => Sound s ∧ Acyclic s.board.edge)
      (fun _ _ _ _ heffect h => ⟨heffect.sound h.1, heffect.acyclic h.1 h.2⟩) commands
      ⟨sound_empty, hempty⟩
  exact hkept.2

theorem mem_ids_of_status (h : store.board.status id ≠ none) : id ∈ store.tasks.map (·.id) := by
  obtain ⟨row, hrow, rfl⟩ := exists_row h
  exact List.mem_map_of_mem hrow

theorem listTasks_perm (store : TaskStore) : store.listTasks.Perm store.tasks :=
  List.perm_insertionSort _ _

theorem topologicalSort_eq (hs : Sound store) (ha : Acyclic store.board.edge) :
    ∃ order, order.Perm (store.tasks.map (·.id)) ∧ (∀ e ∈ store.deps, Before order e.1 e.2) ∧
      topologicalSort store = if order.any store.negationOverflows then
        .error (.panicked "attempt to negate with overflow") else .ok order := by
  have hids : (store.listTasks.map (·.id)).Perm (store.tasks.map (·.id)) :=
    (listTasks_perm store).map _
  have hends : ∀ e ∈ store.deps,
      e ∈ (store.listTasks.map (·.id)).product (store.listTasks.map (·.id)) := by
    intro e he
    obtain ⟨hp, hd⟩ := hs.consistent.closed e.1 e.2 he
    exact List.mem_product.mpr ⟨hids.mem_iff.mpr (mem_ids_of_status hp),
      hids.mem_iff.mpr (mem_ids_of_status hd)⟩
  unfold topologicalSort
  by_cases hempty : store.listTasks = []
  · -- with no task there is no edge
    have hdeps : ∀ e ∈ store.deps, Before [] e.1 e.2 := by
      intro e he
      simpa [hempty] using List.mem_product.mp (hends e he)
    exact ⟨[], by simpa [hempty] using hids, hdeps, by simp [hempty]⟩
  · obtain ⟨hperm, hbefore⟩ :=
      @kahn_sorts TaskId _ (store.dispatchLe · ·) _ _ _ (hids.nodup_iff.mpr hs.ids_nodup) hends ha
    have hlength := hperm.length_eq
    rw [List.length_map] at hlength
    refine ⟨_, hperm.trans hids, hbefore, ?_⟩
    simp [hempty, hlength]

theorem any_negationOverflows (hs : Sound store) {order : List TaskId}
    (hperm : order.Perm (store.tasks.map (·.id))) :
    order.any store.negationOverflows = false ↔
      ∀ task ∈ store.tasks, task.priority ≠ Int32.minValue := by
  rw [hperm.any_eq, List.any_map, List.any_eq_false]
  refine forall₂_congr fun task htask => ?_
  simp [negationOverflows, find?_of_mem hs.ids_nodup htask]

/-- After any calls the dependencies have no cycle and relate stored tasks. The topological
sort succeeds with every task exactly once, each after its prerequisites, exactly when no
stored task has the least priority. -/
theorem topologicalSort_orders_tasks (commands : List TaskCommand) :
    Acyclic (fun p d => (p, d) ∈ (runCommands .empty commands).deps) ∧
    (∀ e ∈ (runCommands .empty commands).deps,
      e.1 ∈ (runCommands .empty commands).tasks.map (·.id) ∧
        e.2 ∈ (runCommands .empty commands).tasks.map (·.id)) ∧
    ((∃ order, topologicalSort (runCommands .empty commands) = .ok order ∧ order.Nodup ∧
        order.Perm ((runCommands .empty commands).tasks.map (·.id)) ∧
        ∀ e ∈ (runCommands .empty commands).deps, Before order e.1 e.2) ↔
      ∀ task ∈ (runCommands .empty commands).tasks, task.priority ≠ Int32.minValue) := by
  have hs := sound_runCommands commands
  have ha := acyclic_runCommands commands
  refine ⟨ha, ?_, ?_⟩
  · intro e he
    obtain ⟨hp, hd⟩ := hs.consistent.closed e.1 e.2 he
    exact ⟨mem_ids_of_status hp, mem_ids_of_status hd⟩
  · obtain ⟨order, hperm, hbefore, hsort⟩ := topologicalSort_eq hs ha
    rw [← any_negationOverflows hs hperm, hsort]
    cases order.any (runCommands .empty commands).negationOverflows with
    | false =>
      exact iff_of_true ⟨order, rfl, hperm.nodup_iff.mpr hs.ids_nodup, hperm, hbefore⟩ rfl
    | true => simp

/-- A draft with the least priority is stored, and the sort of the store does not return. -/
theorem topologicalSort_least_priority :
    let store := runCommands .empty
      [.createTask { id := requiredId, title := "Schema", priority := Int32.minValue } 1]
    store.tasks.map (·.id) = [requiredId] ∧ store.deps = [] ∧
      topologicalSort store = .error (.panicked "attempt to negate with overflow") := by
  refine ⟨by decide +kernel, by decide +kernel, rfl⟩

/-- After any calls no tasks wait for each other alone: behind a task that waits stands one that can
be assigned, runs, or has failed or been cancelled. -/
theorem waiting_task_has_cause (commands : List TaskCommand) {task : TaskNode}
    (htask : task ∈ (runCommands .empty commands).tasks)
    (hwaiting : task.status.isWaiting = true) :
    ∃ row ∈ (runCommands .empty commands).tasks,
      row.status ∈ [.ready, .running, .failed, .cancelled] ∧
        Relation.TransGen (fun p d => (p, d) ∈ (runCommands .empty commands).deps)
          row.id task.id := by
  classical
  have hsound := sound_runCommands commands
  have hacyclic := acyclic_runCommands commands
  generalize runCommands .empty commands = store at *
  -- the first of the waiting tasks that lead to `task`
  obtain ⟨x, hx, hfirst⟩ := @Acyclic.exists_source _ _ hacyclic
    ((store.tasks.filter fun row => row.status.isWaiting = true ∧
      Relation.ReflTransGen store.board.edge row.id task.id).map (·.id))
    (List.ne_nil_of_mem (List.mem_map_of_mem (List.mem_filter.mpr
      ⟨htask, decide_eq_true ⟨hwaiting, .refl⟩⟩)))
  obtain ⟨waiting, hmem, rfl⟩ := List.mem_map.mp hx
  obtain ⟨hmem, hleads⟩ := List.mem_filter.mp hmem
  obtain ⟨hstatus, hleads⟩ := of_decide_eq_true hleads
  obtain ⟨p, hedge, hp⟩ :=
    hsound.consistent.waits waiting.id _ (hsound.status_of_mem hmem) hstatus
  obtain ⟨row, hrow, rfl⟩ := exists_row (hsound.consistent.closed p _ hedge).1
  rw [hsound.status_of_mem hrow] at hp
  refine ⟨row, hrow, ?_, .head' hedge hleads⟩
  have hnot : row.status.isWaiting ≠ true := fun h => hfirst row.id (List.mem_map_of_mem
    (List.mem_filter.mpr ⟨hrow, decide_eq_true ⟨h, .head hedge hleads⟩⟩)) hedge
  revert hp hnot
  cases row.status <;> simp [TaskStatus.isWaiting]

theorem waiting_task_has_cause_waitingRun : ∃ row ∈ (runCommands .empty waitingRun).tasks,
    row.status ∈ [.ready, .running, .failed, .cancelled] := by
  obtain ⟨task, htask, hpending⟩ : ∃ task ∈ (runCommands .empty waitingRun).tasks,
      task.status.isWaiting = true := by decide +kernel
  obtain ⟨row, hrow, hstatus, -⟩ := waiting_task_has_cause waitingRun htask hpending
  exact ⟨row, hrow, hstatus⟩

/-! ## Tokens

A token is the generation that `assign_task` leaves behind; every assignment, cancellation
and retry increases it, so a token is good for one assignment. -/

/-! ## Effects on one task -/

def TaskCommand.Finishes (id : TaskId) (token : Nat) : TaskCommand → Prop
  | .completeTask id' token' _ _ | .failTask id' token' _ _ => id' = id ∧ token' = token
  | _ => False

variable {b b' : Board TaskId} {token : Nat}

theorem generation_of_find? (h : s.find? x = some task) :
    s.generation? x = some task.generation := by
  simp [generation?, h]

theorem TaskStore.Changed.generation_at {task' : TaskNode} (h : Changed s s' x task') :
    s'.generation? x = some task'.generation :=
  generation_of_find? h.at_task

theorem TaskStore.Changed.generation_elsewhere {id : TaskId} {task' : TaskNode}
    (h : Changed s s' id task') (hx : x ≠ id) : s'.generation? x = s.generation? x := by
  simp [generation?, h.elsewhere x hx]

theorem Linked.running {p d : TaskId} (hl : Linked p d b b')
    (h : b'.status x = some .running) : b.status x = some .running := by
  by_cases hxd : x = d
  · subst hxd
    by_cases hready : b.status x = some .ready
    · by_cases hp : Blocking b.status p
      · simp [hl.blocked hready hp] at h
      · by_cases hsucceeded : b.status p = some .succeeded
        · simp [hl.ready hready hsucceeded] at h
        · simp [hl.pending hready hp hsucceeded] at h
    · rwa [hl.kept hready] at h
  · rwa [hl.elsewhere x hxd] at h

section Effect

variable (h : TaskEffect s command reply s')
include h

theorem TaskEffect.elsewhere (hx : command.target? ≠ some x) :
    (∀ g, s.generation? x = some g → s'.generation? x = some g) ∧
      (s'.board.status x = some .running → s.board.status x = some .running) := by
  cases htarget : command.target? with
  | some id =>
    obtain ⟨task, task', done, -, changed, framed, hstarts, -, -⟩ := h.touched htarget
    have hne : x ≠ id := fun heq => hx (by rw [heq, htarget])
    rw [framed.generation, changed.generation_elsewhere hne, ← changed.setsStatus.elsewhere x hne]
    exact ⟨fun g h => h, hstarts x⟩
  | none =>
    cases h with
    | @create draft nowMs node new known evaluates hid hgeneration =>
      rw [← hid] at new
      by_cases hnode : x = node.id
      · subst hnode
        simp [generation?, board, new, find?_append_new new, evaluates.not_running]
      · simp [generation?, board, find?_append_old hnode]
    | relink => exact ⟨fun g h => h, fun h => h⟩
    | link new deps ids generation linked =>
      exact ⟨fun g h => by rw [generation, h], linked.running⟩
    | _ => cases htarget

/-- A successful call on a task does not decrease its generation, and only an
assignment leaves it running, under the token it returns. -/
theorem TaskEffect.at_target (hx : command.target? = some x) :
    ∃ g g', s.generation? x = some g ∧ s'.generation? x = some g' ∧ g ≤ g' ∧
      (s'.board.status x = some .running →
        ∃ agent nowMs, command = .assignTask x agent nowMs ∧ reply = .token g') := by
  obtain ⟨task, task', done, found, changed, framed, hstarts, hle, hassigned⟩ := h.touched hx
  refine ⟨_, _, generation_of_find? found, (framed.generation _).trans changed.generation_at, hle,
    fun hrunning => ?_⟩
  have hnow := changed.setsStatus.at_task.symm.trans (hstarts x hrunning)
  exact hassigned (Option.some.inj hnow)

theorem TaskEffect.generation_le {g : Nat} (hg : s.generation? x = some g) :
    ∃ g', s'.generation? x = some g' ∧ g ≤ g' := by
  by_cases hx : command.target? = some x
  · obtain ⟨old, new, hold, hnew, hle, -⟩ := h.at_target hx
    cases hg.symm.trans hold
    exact ⟨new, hnew, hle⟩
  · exact ⟨g, (h.elsewhere hx).1 g hg, le_rfl⟩

def RunsUnder (s : TaskStore) (x : TaskId) (token : Nat) : Prop :=
  s.board.status x = some .running ∧ s.generation? x = some token

/-- A task that runs under a token after a call was assigned by it, or ran under the
token before and was not what the call was made on. -/
theorem TaskEffect.runsUnder (hruns : RunsUnder s' x token) :
    (∃ agent nowMs, command = .assignTask x agent nowMs ∧ reply = .token token) ∨
      RunsUnder s x token ∧ command.target? ≠ some x := by
  obtain ⟨hrunning, htoken⟩ := hruns
  by_cases hx : command.target? = some x
  · obtain ⟨old, new, -, hnew, -, hassigned⟩ := h.at_target hx
    cases hnew.symm.trans htoken
    exact .inl (hassigned hrunning)
  · obtain ⟨hgeneration, hstarted⟩ := h.elsewhere hx
    have hran := hstarted hrunning
    obtain ⟨task, hfound, -⟩ := find?_of_status hran
    have hkept := hgeneration _ (generation_of_find? hfound)
    cases hkept.symm.trans htoken
    exact .inr ⟨⟨hran, generation_of_find? hfound⟩, hx⟩

theorem TaskEffect.runs_of_finishes (hfinishes : command.Finishes x token) :
    RunsUnder s x token := by
  cases h with
  | complete found running current changed status generation framed settled
  | fail found running current changed status generation framed cascaded =>
    obtain ⟨rfl, rfl⟩ := hfinishes
    exact ⟨by rw [status_of_find? found, running], by rw [generation_of_find? found, current]⟩
  | _ => cases hfinishes

end Effect

theorem TaskEffect.assigned {agent : String} {nowMs : UInt64}
    (h : TaskEffect s (.assignTask x agent nowMs) (.token token) s') :
    ∃ g, s.generation? x = some g ∧ token = g + 1 ∧ s'.generation? x = some token := by
  cases h with
  | assign found ready changed status generation =>
    exact ⟨_, generation_of_find? found, rfl, by rw [changed.generation_at, generation]⟩

/-! ## Runs -/

def storeAfter (commands : List TaskCommand) (n : Nat) : TaskStore :=
  runCommands .empty (commands.take n)

/-- The `n`th call is `command` and succeeds with `reply`. -/
def Succeeds (commands : List TaskCommand) (n : Nat) (command : TaskCommand)
    (reply : TaskReply) : Prop :=
  commands[n]? = some command ∧ (command.exec (storeAfter commands n)).1 = .ok reply

/-- The `n`th call assigns the task and returns the token. -/
def Issues (commands : List TaskCommand) (n : Nat) (id : TaskId) (token : Nat) : Prop :=
  ∃ agent nowMs, Succeeds commands n (.assignTask id agent nowMs) (.token token)

/-- The `n`th call completes or fails the task with the token. -/
def Accepts (commands : List TaskCommand) (n : Nat) (id : TaskId) (token : Nat) : Prop :=
  ∃ command reply, Succeeds commands n command reply ∧ command.Finishes id token

variable {n : Nat}

section Runs

variable {commands : List TaskCommand}

theorem storeAfter_succ (n : Nat) : storeAfter commands (n + 1) =
    (commands[n]?).elim (storeAfter commands n) fun command =>
      (command.exec (storeAfter commands n)).2 := by
  rw [storeAfter, List.take_add_one, runCommands, List.foldl_append]
  cases commands[n]? <;> rfl

theorem Succeeds.effect (h : Succeeds commands n command reply) :
    TaskEffect (storeAfter commands n) command reply (storeAfter commands (n + 1)) := by
  obtain ⟨hcommand, hreply⟩ := h
  simp only [storeAfter_succ, hcommand, Option.elim_some]
  rcases exec_cases (storeAfter commands n) command with
    ⟨e, hexec⟩ | ⟨reply', s', hexec, heffect⟩
  · simp [hexec] at hreply
  · rw [hexec] at hreply ⊢
    cases hreply
    exact heffect

theorem storeAfter_step (commands : List TaskCommand) (n : Nat) :
    storeAfter commands (n + 1) = storeAfter commands n ∨
      ∃ command reply, Succeeds commands n command reply := by
  rw [storeAfter_succ]
  cases hcommand : commands[n]? with
  | none => exact .inl rfl
  | some command =>
    rcases exec_cases (storeAfter commands n) command with
      ⟨e, hexec⟩ | ⟨reply, s', hexec, heffect⟩
    · exact .inl (by simp [hexec])
    · exact .inr ⟨command, reply, hcommand, by rw [hexec]⟩

theorem generation_mono {m g : Nat} (hmn : m ≤ n)
    (hg : (storeAfter commands m).generation? id = some g) :
    ∃ g', (storeAfter commands n).generation? id = some g' ∧ g ≤ g' := by
  induction n, hmn using Nat.le_induction with
  | base => exact ⟨g, hg, le_rfl⟩
  | succ n _ ih =>
    obtain ⟨g', hg', hle⟩ := ih
    rcases storeAfter_step commands n with hsame | ⟨command, reply, hsucceeds⟩
    · exact ⟨g', hsame ▸ hg', hle⟩
    · obtain ⟨g'', hg'', hle'⟩ := hsucceeds.effect.generation_le hg'
      exact ⟨g'', hg'', hle.trans hle'⟩

theorem issues_increasing {i j a b : Nat} (hij : i < j) (hi : Issues commands i id a)
    (hj : Issues commands j id b) : a < b := by
  obtain ⟨_, _, hi⟩ := hi
  obtain ⟨_, _, hj⟩ := hj
  obtain ⟨_, _, _, hafter⟩ := hi.effect.assigned
  obtain ⟨g, hbefore, rfl, _⟩ := hj.effect.assigned
  obtain ⟨g', hg', hle⟩ := generation_mono hij hafter
  cases hbefore.symm.trans hg'
  omega

/-- A task that runs under a token has been assigned with it, and no call on the task
has succeeded since. -/
theorem runsUnder_issued (hruns : RunsUnder (storeAfter commands n) id token) :
    ∃ i, i < n ∧ Issues commands i id token ∧
      ∀ k command reply, i < k → k < n → Succeeds commands k command reply →
        command.target? ≠ some id := by
  induction n with
  | zero => simp [RunsUnder, storeAfter, runCommands, board, empty, find?] at hruns
  | succ n ih =>
    -- an earlier assignment stays the last call on the task over the `n`th call
    have hlater : RunsUnder (storeAfter commands n) id token →
        (∀ command reply, Succeeds commands n command reply → command.target? ≠ some id) →
        ∃ i, i < n + 1 ∧ Issues commands i id token ∧
          ∀ k command reply, i < k → k < n + 1 → Succeeds commands k command reply →
            command.target? ≠ some id := by
      intro hbefore hnth
      obtain ⟨i, hi, hissued, huntouched⟩ := ih hbefore
      refine ⟨i, by omega, hissued, fun k command reply hik hkn hsucceeds => ?_⟩
      rcases Nat.lt_succ_iff_lt_or_eq.mp hkn with hlt | rfl
      · exact huntouched k command reply hik hlt hsucceeds
      · exact hnth command reply hsucceeds
    by_cases hcall : ∃ command reply, Succeeds commands n command reply
    · obtain ⟨command, reply, hsucceeds⟩ := hcall
      rcases hsucceeds.effect.runsUnder hruns with ⟨agent, nowMs, rfl, rfl⟩ | ⟨hbefore, htarget⟩
      · exact ⟨n, by omega, ⟨agent, nowMs, hsucceeds⟩, fun k _ _ hk hk' => by omega⟩
      · refine hlater hbefore fun command' reply' hsucceeds' => ?_
        cases hsucceeds.1.symm.trans hsucceeds'.1
        exact htarget
    · rcases storeAfter_step commands n with hsame | hsucceeds
      · exact hlater (hsame ▸ hruns) fun command reply h => absurd ⟨command, reply, h⟩ hcall
      · exact absurd hsucceeds hcall

theorem Accepts.runsUnder (h : Accepts commands n id token) :
    RunsUnder (storeAfter commands n) id token := by
  obtain ⟨command, reply, hsucceeds, hfinishes⟩ := h
  exact hsucceeds.effect.runs_of_finishes hfinishes

theorem TaskCommand.Finishes.target (h : command.Finishes id token) :
    command.target? = some id := by
  cases command with
  | completeTask | failTask =>
    obtain ⟨rfl, -⟩ := h
    rfl
  | _ => cases h

/-- A token is not taken again: the assignment that issued it comes after every
earlier call on the task, and would have found its generation. -/
theorem not_accepts_again {i j : Nat} (hij : i < j) (hi : Accepts commands i id token) :
    ¬Accepts commands j id token := by
  intro hj
  obtain ⟨k, hkj, hissued, huntouched⟩ := runsUnder_issued hj.runsUnder
  obtain ⟨-, htoken⟩ := hi.runsUnder
  obtain ⟨command, reply, hsucceeds, hfinishes⟩ := hi
  have hik : i ≤ k := by
    by_contra hlt
    exact huntouched i command reply (by omega) hij hsucceeds hfinishes.target
  obtain ⟨agent, nowMs, hassign⟩ := hissued
  obtain ⟨g, hbefore, rfl, -⟩ := hassign.effect.assigned
  obtain ⟨g', hg', hle⟩ := generation_mono hik htoken
  cases hbefore.symm.trans hg'
  omega

end Runs

/-- Over any calls the generation of a task never decreases, the tokens of its assignments
increase, and a token is accepted at most once, while the task still runs under its assignment. -/
theorem token_accepted_once_under_its_assignment (commands : List TaskCommand) (id : TaskId) :
    (∀ m n g, m ≤ n → (storeAfter commands m).generation? id = some g →
      ∃ g', (storeAfter commands n).generation? id = some g' ∧ g ≤ g') ∧
    (∀ i j a b, i < j → Issues commands i id a → Issues commands j id b → a < b) ∧
    (∀ i j token, Accepts commands i id token → Accepts commands j id token → i = j) ∧
    ∀ j token, Accepts commands j id token →
      (∃ task, (storeAfter commands j).find? id = some task ∧ task.status = .running ∧
        task.generation = token) ∧
      ∃ i, i < j ∧ Issues commands i id token ∧
        ∀ k command reply, i < k → k < j → Succeeds commands k command reply →
          command.target? ≠ some id := by
  refine ⟨fun m n g => generation_mono, fun i j a b => issues_increasing, ?_, ?_⟩
  · intro i j token hi hj
    rcases Nat.lt_trichotomy i j with hlt | heq | hgt
    · exact absurd hj (not_accepts_again hlt hi)
    · exact heq
    · exact absurd hi (not_accepts_again hgt hj)
  · intro j token hj
    refine ⟨?_, runsUnder_issued hj.runsUnder⟩
    obtain ⟨hrunning, htoken⟩ := hj.runsUnder
    obtain ⟨task, hfound, hstatus⟩ := find?_of_status hrunning
    rw [generation_of_find? hfound] at htoken
    exact ⟨task, hfound, hstatus, Option.some.inj htoken⟩

end BittyAi.Slice
