/-
BittyAi.Runtime.Session — identity handles, agent levels and the session
lifecycle of `bitty-ai-runtime/src/session.rs`.

A Rust `AgentSession` is a shared `Rc` handle over `Cell` state. Here it is a
value, and whoever may hold a clone changes it by `SessionAct`s: the host code
behind a callback performs any list of them (see `BittyAi.Runtime.Host`). The
state and the cancel count move together only through `cancel`, and a terminal
state is never left; `SessionWf` says so and every session carries it.

Every id space of the process draws on one counter, which lives in the shared
part of the world.
-/
import Mathlib.Data.List.Basic

namespace BittyAi.Runtime

/-! ## Identity -/

structure AgentInstanceId where
  value : Nat

structure RunId where
  value : Nat

structure SessionId where
  value : Nat

structure ExecutionId where
  value : Nat
  deriving DecidableEq

/-! ## Levels and lifecycle -/

/-- `own` is the spec tier `self`. -/
inductive AgentLevel where
  | inspect
  | own
  | workspace
  | all
  deriving DecidableEq

def AgentLevel.rank : AgentLevel → Nat
  | .inspect => 0
  | .own => 1
  | .workspace => 2
  | .all => 3

inductive SessionState where
  | active
  | completed
  | failed
  | canceled
  deriving DecidableEq

inductive SessionError where
  | alreadyTerminated (state : SessionState)
  | elevationDenied (requested : AgentLevel)
  deriving DecidableEq

def SessionWf (state : SessionState) (cancelCount : Nat) : Prop :=
  cancelCount = if state = .canceled then 1 else 0

structure AgentSession where
  agentInstanceId : AgentInstanceId
  runId : RunId
  sessionId : SessionId
  level : AgentLevel
  generation : Nat
  state : SessionState
  cancelCount : Nat
  wf : SessionWf state cancelCount

namespace AgentSession

/-- `inspect`, active, generation 1. -/
def new (agentInstanceId : AgentInstanceId) (runId : RunId) (sessionId : SessionId) :
    AgentSession where
  agentInstanceId := agentInstanceId
  runId := runId
  sessionId := sessionId
  level := .inspect
  generation := 1
  state := .active
  cancelCount := 0
  wf := rfl

def isCancelled (s : AgentSession) : Bool := s.state == .canceled

def cancel (s : AgentSession) : AgentSession :=
  if h : s.state = .active then
    { s with
      state := .canceled
      cancelCount := s.cancelCount + 1
      wf := by have := s.wf; simp [SessionWf, h] at this ⊢; exact this }
  else s

def finish (s : AgentSession) (failed : Bool) : AgentSession :=
  if h : s.state = .active then
    { s with
      state := if failed then .failed else .completed
      wf := by have := s.wf; cases failed <;> simp [SessionWf, h] at this ⊢ <;> exact this }
  else s

/-- `granted` is the answer of the grant hook. -/
def elevate (s : AgentSession) (requested : AgentLevel) (granted : Bool) :
    Except SessionError Unit × AgentSession :=
  if s.state ≠ .active then (.error (.alreadyTerminated s.state), s)
  else if requested.rank > s.level.rank then
    if granted then (.ok (), { s with level := requested })
    else (.error (.elevationDenied requested), s)
  else (.ok (), s)

/-- A new generation starts at `inspect`. -/
def rotateGeneration (s : AgentSession) : AgentSession :=
  if s.state = .active then { s with generation := s.generation + 1, level := .inspect } else s

end AgentSession

/-! ## What holders of the handle do -/

inductive SessionAct where
  | cancel
  | rotateGeneration
  | elevate (requested : AgentLevel) (granted : Bool)
  | finish (failed : Bool)

variable {s : AgentSession}

namespace AgentSession

def act (s : AgentSession) : SessionAct → AgentSession
  | .cancel => s.cancel
  | .rotateGeneration => s.rotateGeneration
  | .elevate requested granted => (s.elevate requested granted).2
  | .finish failed => s.finish failed

def acts (s : AgentSession) (list : List SessionAct) : AgentSession := list.foldl act s

theorem isCancelled_iff : s.isCancelled = true ↔ s.state = .canceled := by simp [isCancelled]

theorem isCancelled_eq_false_iff : s.isCancelled = false ↔ s.state ≠ .canceled := by
  simp [isCancelled]

theorem act_state_of_terminal (h : s.state ≠ .active) (a : SessionAct) :
    (s.act a).state = s.state := by
  cases a <;> simp [act, cancel, rotateGeneration, elevate, finish, h]

theorem act_state_of_active (h : s.state = .active) (a : SessionAct) : (s.act a).state =
      match a with
      | .cancel => .canceled
      | .finish true => .failed
      | .finish false => .completed
      | _ => .active := by
  cases a with
  | cancel => simp [act, cancel, h]
  | rotateGeneration => simp [act, rotateGeneration, h]
  | elevate requested granted =>
    simp only [act, elevate, h, ne_eq, not_true_eq_false, if_false]
    split
    · cases granted
      · exact h
      · rfl
    · exact h
  | finish failed => cases failed <;> simp [act, finish, h]

theorem finish_state_of_active (h : s.state = .active) (failed : Bool) :
    (s.finish failed).state = if failed then .failed else .completed := by
  simp [finish, h]

theorem finish_of_terminal (h : s.state ≠ .active) (failed : Bool) : s.finish failed = s := by
  simp [finish, h]

def Unfinished (s : AgentSession) : Prop := s.state = .active ∨ s.state = .canceled

theorem Unfinished.active (h : s.Unfinished) (hc : s.isCancelled = false) : s.state = .active :=
  h.resolve_right (isCancelled_eq_false_iff.mp hc)

/-- Calls without a `finish` leave an active session active or cancelled. -/
theorem acts_state {list : List SessionAct} (h : ∀ failed, SessionAct.finish failed ∉ list) :
    ∀ s : AgentSession, s.Unfinished → (s.acts list).Unfinished := by
  induction list with
  | nil => exact fun s hs => hs
  | cons a rest ih =>
    intro s hs
    have hrest : ∀ failed, SessionAct.finish failed ∉ rest := fun failed hmem =>
      h failed (List.mem_cons_of_mem _ hmem)
    refine ih hrest (s.act a) ?_
    unfold Unfinished
    rcases hs with hs | hs
    · rw [act_state_of_active hs]
      cases a with
      | finish failed => exact absurd List.mem_cons_self (h failed)
      | _ => simp
    · right
      rw [act_state_of_terminal (by simp [hs]), hs]

end AgentSession

end BittyAi.Runtime
