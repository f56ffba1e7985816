/-
BittyAi.Slice.TaskDag — the task engine of `bitty-ai-slice/src/task_dag.rs`: its
two tables, the seven operations that change them, the path search behind the
cycle check, and the topological sort.

Every operation holds the engine exclusively, so a run is a sequence of whole
operations. A statement of the database succeeds; what an operation can refuse is
what its own code refuses. Identifiers are stored as the text of a valid
`TaskId`, which parses back to it (`TaskId.new_text`), so the tables hold
identifiers. Generations are unbounded here: they are `u64` in the source.
-/
import BittyAi.Lib.EarlyExit
import BittyAi.Lib.Kahn
import BittyAi.Lib.SortedList
import BittyAi.Lib.Text
import BittyAi.Lib.Worklist
import BittyAi.Session.ContentHash

namespace BittyAi.Slice

open Lib Exiting Session

/-! ## Bounds -/

def maxTaskIdBytes : Nat := 128
def maxTaskTitleBytes : Nat := 256
def maxTaskDescBytes : Nat := 4096
def maxAgentIdBytes : Nat := 128
def maxFailureReasonBytes : Nat := 2048
def maxDependenciesPerTask : Nat := 128

/-! ## Identifiers and rows -/

/-- An ASCII letter or digit, or one of `-`, `_`, `.` and `/`. -/
def taskIdChar (c : Char) : Bool := c.isAlphanum || c ∈ ['-', '_', '.', '/']

def taskIdEnds (cs : List Char) : Bool :=
  [cs.head?, cs.getLast?].all fun c => c ≠ some '/' && c ≠ some '.'

/-- What `TaskId::new` has checked of the text it keeps. -/
def taskIdShape (text : String) : Bool :=
  !text.isEmpty && decide (text.utf8ByteSize ≤ maxTaskIdBytes) && taskIdEnds text.toList &&
    !decide (['/', '/'] <:+: text.toList) && !decide (['.', '.'] <:+: text.toList) &&
    text.toList.all taskIdChar

structure TaskId where
  text : String
  valid : taskIdShape text = true
  deriving DecidableEq

theorem TaskId.text_injective : Function.Injective TaskId.text := by
  rintro ⟨a, _⟩ ⟨b, _⟩ rfl
  rfl

instance : LinearOrder TaskId := LinearOrder.lift' TaskId.text TaskId.text_injective

inductive TaskStatus where
  | pending
  | ready
  | running
  | blocked
  | succeeded
  | failed
  | cancelled
  deriving DecidableEq

def TaskStatus.isTerminal : TaskStatus → Bool
  | .succeeded | .failed | .cancelled => true
  | _ => false

def TaskStatus.isBlocking : TaskStatus → Bool
  | .failed | .cancelled | .blocked => true
  | _ => false

/-- Rust `TaskEngineError`, without the failures of the database. A `panicked` call
does not return at all. -/
inductive TaskEngineError where
  | taskNotFound (id : TaskId)
  | invalidTaskId (text : String)
  | invalidStatusTransition (taskId : TaskId) (current target : TaskStatus)
  | staleGeneration (taskId : TaskId) (expected found : Nat)
  | cycleDetected (cycle : List TaskId)
  | selfDependency (id : TaskId)
  | duplicateTask (id : TaskId)
  | dependencyNotFound (taskId prerequisiteId : TaskId)
  | oversizedField (field : String) (size max : Nat)
  | emptyField (field : String)
  | panicked (message : String)

def TaskId.new (input : String) : Except TaskEngineError TaskId :=
  let text := trim input
  if text.isEmpty then .error (.emptyField "task_id")
  else if text.utf8ByteSize > maxTaskIdBytes then
    .error (.oversizedField "task_id" text.utf8ByteSize maxTaskIdBytes)
  else if h : taskIdShape text then .ok ⟨text, h⟩
  else .error (.invalidTaskId text)

theorem taskIdChar_not_whitespace {c : Char} (h : taskIdChar c = true) :
    isWhitespace c = false := by
  have hascii : 45 ≤ c.toNat ∧ c.toNat ≤ 122 := by
    simp only [taskIdChar, Bool.or_eq_true, decide_eq_true_eq, List.mem_cons, List.not_mem_nil,
      or_false] at h
    rcases h with halphanum | rfl | rfl | rfl | rfl
    · have hrange := isAlphanum_range halphanum
      omega
    all_goals decide
  simp only [isWhitespace, Bool.or_eq_false_iff, Bool.and_eq_false_iff, decide_eq_false_iff_not]
  omega

theorem TaskId.new_text (id : TaskId) : TaskId.new id.text = .ok id := by
  obtain ⟨text, valid⟩ := id
  have hvalid := valid
  simp only [taskIdShape, Bool.and_eq_true, List.all_eq_true, Bool.not_eq_true',
    decide_eq_true_eq] at hvalid
  obtain ⟨⟨⟨⟨⟨hempty, hsize⟩, -⟩, -⟩, -⟩, hchars⟩ := hvalid
  have htrim : trim text = text := trim_eq_self fun c hc => taskIdChar_not_whitespace (hchars c hc)
  have hsize : ¬text.utf8ByteSize > maxTaskIdBytes := by omega
  simp [TaskId.new, htrim, hempty, hsize, valid]

structure TaskDraft where
  id : TaskId
  title : String
  description : String := ""
  priority : Int32 := 0
  dependencies : List TaskId := []

/-- A row of the `tasks` table. -/
structure TaskNode where
  id : TaskId
  title : String
  description : String
  priority : Int32
  status : TaskStatus
  assignedAgent : Option String
  generation : Nat
  checkpoint : Option ContentHash
  failureReason : Option String
  createdAtMs : UInt64
  updatedAtMs : UInt64

/-- The tables `tasks` and `task_dependencies`; an edge is a prerequisite and its
dependent. -/
structure TaskStore where
  tasks : List TaskNode
  deps : List (TaskId × TaskId)

def TaskStore.empty : TaskStore := ⟨[], []⟩

abbrev TaskOp (α : Type) : Type := Exiting TaskStore TaskEngineError α

/-! ## Queries -/

namespace TaskStore

def find? (store : TaskStore) (id : TaskId) : Option TaskNode :=
  store.tasks.find? fun task => task.id = id

def hasTask (store : TaskStore) (id : TaskId) : Bool := (store.find? id).isSome

/-- Rust `query_prerequisites_on_conn`, in order of the identifiers. -/
def prerequisites (store : TaskStore) (id : TaskId) : List TaskId :=
  ((store.deps.filter fun edge => edge.2 = id).map (·.1)).insertionSort (· ≤ ·)

/-- Rust `query_dependents_on_conn`, in order of the identifiers. -/
def dependents (store : TaskStore) (id : TaskId) : List TaskId :=
  (successors store.deps id).insertionSort (· ≤ ·)

/-- Rust `TaskEngine::list_tasks`. The column holds `created_at_ms` as a signed
integer and is ordered as one. -/
def listTasks (store : TaskStore) : List TaskNode :=
  store.tasks.insertionSort fun a b =>
    a.createdAtMs.toInt64.toInt < b.createdAtMs.toInt64.toInt ∨
      a.createdAtMs.toInt64.toInt = b.createdAtMs.toInt64.toInt ∧ a.id ≤ b.id

/-- An `UPDATE` of the rows that meet a condition. -/
def updateWhere (store : TaskStore) (condition : TaskNode → Bool)
    (change : TaskNode → TaskNode) : TaskStore :=
  { store with tasks := store.tasks.map fun task => if condition task then change task else task }

def setStatus (store : TaskStore) (id : TaskId) (status : TaskStatus) (nowMs : UInt64) :
    TaskStore :=
  store.updateWhere (fun task => task.id = id)
    fun task => { task with status := status, updatedAtMs := nowMs }

end TaskStore

def getTask (id : TaskId) : TaskOp TaskNode := do
  match ← read (·.find? id) with
  | some task => pure task
  | none => exit (.taskNotFound id)

def getStatuses : List TaskId → TaskOp (List TaskStatus)
  | [] => pure []
  | id :: rest => do
    let task ← getTask id
    let statuses ← getStatuses rest
    pure (task.status :: statuses)

/-- Run an `UPDATE`; the result is the number of rows it met. -/
def updateTasks (condition : TaskNode → Bool) (change : TaskNode → TaskNode) : TaskOp Nat :=
  lift fun store => (store.tasks.countP condition, store.updateWhere condition change)

/-! ## Creation -/

/-- The bounds `create_task` puts on a draft, with the trimmed title. -/
def checkDraft (draft : TaskDraft) : TaskOp Unit := do
  let title := trim draft.title
  refuse (title.isEmpty) (.emptyField "title")
  refuse (title.utf8ByteSize > maxTaskTitleBytes)
    (.oversizedField "title" title.utf8ByteSize maxTaskTitleBytes)
  refuse (draft.description.utf8ByteSize > maxTaskDescBytes)
    (.oversizedField "description" draft.description.utf8ByteSize maxTaskDescBytes)
  refuse (draft.dependencies.length > maxDependenciesPerTask)
    (.oversizedField "dependencies" draft.dependencies.length maxDependenciesPerTask)

def checkDependencies (id : TaskId) : List TaskId → TaskOp Unit
  | [] => pure ()
  | dep :: rest => do
    refuse (dep = id) (.selfDependency id)
    let known ← read (·.hasTask dep)
    refuse (known = false) (.dependencyNotFound id dep)
    checkDependencies id rest

def evaluate (statuses : List TaskStatus) : TaskStatus :=
  if statuses.any (·.isBlocking) then .blocked
  else if statuses.any (· ≠ .succeeded) then .pending
  else .ready

def createTask (draft : TaskDraft) (nowMs : UInt64) : TaskOp TaskNode := do
  checkDraft draft
  let known ← read (·.hasTask draft.id)
  refuse (known = true) (.duplicateTask draft.id)
  checkDependencies draft.id draft.dependencies
  let deps := sortDedup draft.dependencies
  let statuses ← getStatuses deps
  let node : TaskNode :=
    { id := draft.id, title := trim draft.title, description := draft.description
      priority := draft.priority, status := evaluate statuses, assignedAgent := none
      generation := 0, checkpoint := none, failureReason := none
      createdAtMs := nowMs, updatedAtMs := nowMs }
  modify fun store =>
    { tasks := store.tasks ++ [node], deps := store.deps ++ deps.map fun dep => (dep, draft.id) }
  pure node

/-! ## Dependencies -/

/-- The walk back from the goal along the parents; `none` is a missing parent. -/
def pathBack (parent : List (TaskId × TaskId)) (start : TaskId) :
    Nat → TaskId → Option (List TaskId)
  | 0, _ => none
  | fuel + 1, current =>
    if current = start then some [start]
    else do
      let before ← parent.lookup current
      let path ← pathBack parent start fuel before
      return path ++ [current]

/-- One round of `find_path`: stop at the goal, else note the parent of each
dependent met for the first time. -/
def findPathStep (store : TaskStore) (start goal : TaskId) (parent : List (TaskId × TaskId))
    (visited : List TaskId) (current : TaskId) :
    Except (Option (List TaskId)) (List (TaskId × TaskId) × List TaskId) :=
  if current = goal then .error (pathBack parent start (parent.length + 1) goal)
  else
    let next := successors store.deps current
    .ok ((fresh visited next).map (·, current) ++ parent, next)

def findPath (store : TaskStore) (start goal : TaskId) :
    Except TaskEngineError (Option (List TaskId)) :=
  match search (findPathStep store start goal) (store.deps.length + 1) [] [start] [start] with
  | .ok _ => .ok none
  | .error (some path) => .ok (some path)
  | .error none => .error (.panicked "parent must exist")

def addDependency (prerequisite dependent : TaskId) : TaskOp Unit := do
  refuse (prerequisite = dependent) (.selfDependency dependent)
  let knownPrerequisite ← read (·.hasTask prerequisite)
  refuse (knownPrerequisite = false) (.taskNotFound prerequisite)
  let knownDependent ← read (·.hasTask dependent)
  refuse (knownDependent = false) (.taskNotFound dependent)
  let edges ← read (·.deps)
  if (prerequisite, dependent) ∈ edges then pure ()
  else do
    let task ← getTask dependent
    refuse (task.status = .running ∨ task.status.isTerminal)
      (.invalidStatusTransition dependent task.status .pending)
    match ← read fun store => findPath store dependent prerequisite with
    | .error error => exit error
    | .ok (some path) => exit (.cycleDetected (path ++ [dependent]))
    | .ok none =>
      modify fun store => { store with deps := store.deps ++ [(prerequisite, dependent)] }
      let required ← getTask prerequisite
      if task.status = .ready then
        if required.status.isBlocking then modify (·.setStatus dependent .blocked task.updatedAtMs)
        else if required.status ≠ .succeeded then
          modify (·.setStatus dependent .pending task.updatedAtMs)
        else pure ()
      else pure ()

/-! ## Assignment and completion -/

def assignTask (taskId : TaskId) (agentId : String) (nowMs : UInt64) : TaskOp Nat := do
  let agent := trim agentId
  refuse (agent.isEmpty) (.emptyField "agent_id")
  refuse (agent.utf8ByteSize > maxAgentIdBytes)
    (.oversizedField "agent_id" agent.utf8ByteSize maxAgentIdBytes)
  let task ← getTask taskId
  refuse (task.status ≠ .ready) (.invalidStatusTransition taskId task.status .running)
  let rows ← updateTasks
    (fun row => row.id = taskId && row.status = .ready && row.generation = task.generation)
    fun row =>
      { row with
        status := .running, assignedAgent := some agent
        generation := task.generation + 1, updatedAtMs := nowMs }
  if rows = 0 then do
    let current ← getTask taskId
    exit (.invalidStatusTransition taskId current.status .running)
  else pure (task.generation + 1)

/-- The `UPDATE` that ends an assignment, under the token's own condition. -/
def finishUpdate (taskId : TaskId) (generation : Nat) (target : TaskStatus)
    (change : TaskNode → TaskNode) : TaskOp Unit := do
  let rows ← updateTasks
    (fun row => row.id = taskId && row.status = .running && row.generation = generation) change
  if rows = 0 then do
    let current ← getTask taskId
    refuse (current.generation ≠ generation)
      (.staleGeneration taskId current.generation generation)
    exit (.invalidStatusTransition taskId current.status target)
  else pure ()

def settleDependent (nowMs : UInt64) (dependent : TaskId) : TaskOp Unit := do
  let task ← getTask dependent
  if task.status = .pending ∨ task.status = .blocked then do
    let prerequisites ← read (·.prerequisites dependent)
    let statuses ← getStatuses prerequisites
    if statuses.all (· = .succeeded) then modify (·.setStatus dependent .ready nowMs)
    else if statuses.any (·.isBlocking) ∧ task.status ≠ .blocked then
      modify (·.setStatus dependent .blocked nowMs)
    else pure ()
  else pure ()

def completeTask (taskId : TaskId) (generation : Nat) (checkpoint : Option ContentHash)
    (nowMs : UInt64) : TaskOp TaskNode := do
  let task ← getTask taskId
  refuse (task.status ≠ .running)
    (.invalidStatusTransition taskId task.status .succeeded)
  refuse (task.generation ≠ generation)
    (.staleGeneration taskId task.generation generation)
  transaction do
    finishUpdate taskId generation .succeeded fun row =>
      { row with status := .succeeded, checkpoint := checkpoint, updatedAtMs := nowMs }
    let dependents ← read (·.dependents taskId)
    each (fun _ dependent => settleDependent nowMs dependent) dependents ()
  getTask taskId

/-! ## Failure and cancellation -/

/-- One round of the block cascade: a task that waits or could run is blocked, and
its dependents come next. -/
def cascadeStep (nowMs : UInt64) (store : TaskStore) (_visited : List TaskId) (id : TaskId) :
    Except TaskEngineError (TaskStore × List TaskId) :=
  match store.find? id with
  | none => .error (.taskNotFound id)
  | some task =>
    if task.status = .pending ∨ task.status = .ready then
      let blocked := store.setStatus id .blocked nowMs
      .ok (blocked, blocked.dependents id)
    else .ok (store, [])

def cascadeBlockDownstream (root : TaskId) (nowMs : UInt64) : TaskOp Unit := fun store =>
  let first := fresh [] (store.dependents root)
  match search (cascadeStep nowMs) store.deps.length store first first with
  | .ok (blocked, _) => (.ok (), blocked)
  | .error error => (.error error, store)

def failTask (taskId : TaskId) (generation : Nat) (reason : String) (nowMs : UInt64) :
    TaskOp TaskNode := do
  let reason := trim reason
  refuse (reason.utf8ByteSize > maxFailureReasonBytes)
    (.oversizedField "failure_reason" reason.utf8ByteSize maxFailureReasonBytes)
  let task ← getTask taskId
  refuse (task.status ≠ .running) (.invalidStatusTransition taskId task.status .failed)
  refuse (task.generation ≠ generation)
    (.staleGeneration taskId task.generation generation)
  transaction do
    finishUpdate taskId generation .failed fun row =>
      { row with status := .failed, failureReason := some reason, updatedAtMs := nowMs }
    cascadeBlockDownstream taskId nowMs
  getTask taskId

def cancelTask (taskId : TaskId) (nowMs : UInt64) : TaskOp TaskNode := do
  let task ← getTask taskId
  refuse (task.status.isTerminal)
    (.invalidStatusTransition taskId task.status .cancelled)
  transaction do
    let rows ← updateTasks (fun row => row.id = taskId && !row.status.isTerminal) fun row =>
      { row with
        status := .cancelled, generation := task.generation + 1, updatedAtMs := nowMs }
    if rows = 0 then do
      let current ← getTask taskId
      exit (.invalidStatusTransition taskId current.status .cancelled)
    else cascadeBlockDownstream taskId nowMs
  getTask taskId

def getDependencies (id : TaskId) : TaskOp (List TaskId) := do
  let known ← read (·.hasTask id)
  refuse (known = false) (.taskNotFound id)
  read (·.prerequisites id)

def retryTask (taskId : TaskId) (nowMs : UInt64) : TaskOp TaskNode := do
  let task ← getTask taskId
  refuse (¬(task.status = .failed ∨ task.status = .cancelled))
    (.invalidStatusTransition taskId task.status .pending)
  let prerequisites ← getDependencies taskId
  let statuses ← getStatuses prerequisites
  modify (·.updateWhere (fun row => row.id = taskId) fun row =>
    { row with
      status := evaluate statuses, generation := task.generation + 1, failureReason := none
      assignedAgent := none, checkpoint := none, updatedAtMs := nowMs })
  getTask taskId

/-! ## Topological order -/

/-- The order of the ready set: higher priority first, by its negation as the source has it,
then age, then identifier. -/
def TaskNode.dispatchLe (a b : TaskNode) : Bool :=
  decide ((-a.priority).toInt < (-b.priority).toInt) ||
    decide ((-a.priority).toInt = (-b.priority).toInt) &&
      (decide (a.createdAtMs < b.createdAtMs) ||
        decide (a.createdAtMs = b.createdAtMs) && decide (a.id ≤ b.id))

def TaskStore.dispatchLe (store : TaskStore) (a b : TaskId) : Bool :=
  (store.find? a).all fun x => (store.find? b).all fun y => x.dispatchLe y

/-- Whether `-prio` overflows for this task: the least `i32` has no negation. -/
def TaskStore.negationOverflows (store : TaskStore) (id : TaskId) : Bool :=
  (store.find? id).any fun task => task.priority = Int32.minValue

/-- With overflow checks, as a debug build and the tests have them. -/
def topologicalSort (store : TaskStore) : Except TaskEngineError (List TaskId) :=
  let allTasks := store.listTasks
  if allTasks.isEmpty then .ok []
  else
    let ids := allTasks.map (·.id)
    let start := kahnStart (store.dispatchLe · ·) ids store.deps
    let sorted := (kahn (store.dispatchLe · ·) (successors store.deps) ids.length start).sorted
    -- the priority is negated when a task becomes ready, and each ready task is emitted
    if sorted.any store.negationOverflows then .error (.panicked "attempt to negate with overflow")
    else if sorted.length ≠ allTasks.length then .error (.cycleDetected []) else .ok sorted

/-! ## Runs -/

inductive TaskCommand where
  | createTask (draft : TaskDraft) (nowMs : UInt64)
  | addDependency (prerequisite dependent : TaskId)
  | assignTask (taskId : TaskId) (agentId : String) (nowMs : UInt64)
  | completeTask (taskId : TaskId) (generation : Nat) (checkpoint : Option ContentHash)
      (nowMs : UInt64)
  | failTask (taskId : TaskId) (generation : Nat) (reason : String) (nowMs : UInt64)
  | cancelTask (taskId : TaskId) (nowMs : UInt64)
  | retryTask (taskId : TaskId) (nowMs : UInt64)

inductive TaskReply where
  | task (node : TaskNode)
  | token (generation : Nat)
  | done

def TaskCommand.exec : TaskCommand → TaskOp TaskReply
  | .createTask draft nowMs => do
    let node ← Slice.createTask draft nowMs
    pure (.task node)
  | .addDependency prerequisite dependent => do
    Slice.addDependency prerequisite dependent
    pure .done
  | .assignTask taskId agentId nowMs => do
    let token ← Slice.assignTask taskId agentId nowMs
    pure (.token token)
  | .completeTask taskId generation checkpoint nowMs => do
    let node ← Slice.completeTask taskId generation checkpoint nowMs
    pure (.task node)
  | .failTask taskId generation reason nowMs => do
    let node ← Slice.failTask taskId generation reason nowMs
    pure (.task node)
  | .cancelTask taskId nowMs => do
    let node ← Slice.cancelTask taskId nowMs
    pure (.task node)
  | .retryTask taskId nowMs => do
    let node ← Slice.retryTask taskId nowMs
    pure (.task node)

def runCommands (store : TaskStore) (commands : List TaskCommand) : TaskStore :=
  commands.foldl (fun store command => (command.exec store).2) store

end BittyAi.Slice
