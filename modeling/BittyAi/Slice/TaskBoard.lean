/-
BittyAi.Slice.TaskBoard — what the task engine is for, without its tables.

A board gives each task its status and says which task waits for which. Its steps keep it
`Consistent`, and `Propagated`: no task stays pending behind one that cannot succeed.
-/
import BittyAi.Slice.TaskDag

namespace BittyAi.Slice

open Lib Relation

def TaskStatus.isDispatched : TaskStatus → Bool
  | .ready | .running | .succeeded | .failed => true
  | _ => false

def TaskStatus.isWaiting : TaskStatus → Bool
  | .pending | .blocked => true
  | _ => false

structure Board (ι : Type) where
  status : ι → Option TaskStatus
  edge : ι → ι → Prop

variable {ι : Type}

def Blocking (status : ι → Option TaskStatus) (t : ι) : Prop :=
  ∃ s, status t = some s ∧ s.isBlocking = true

inductive Evaluates (status : ι → Option TaskStatus) (required : ι → Prop) : TaskStatus → Prop
  | blocked {p : ι} (hp : required p) (h : Blocking status p) : Evaluates status required .blocked
  | pending {p : ι} (hp : required p) (h : status p ≠ some .succeeded)
      (hnone : ∀ q, required q → ¬Blocking status q) : Evaluates status required .pending
  | ready (h : ∀ p, required p → status p = some .succeeded) : Evaluates status required .ready

/-! ## Steps -/

/-- `b'` gives `t` the status `s` and leaves the other statuses. -/
structure SetsStatus (b b' : Board ι) (t : ι) (s : TaskStatus) : Prop where
  at_task : b'.status t = some s
  elsewhere : ∀ x, x ≠ t → b'.status x = b.status x

variable {t x : ι} {s : TaskStatus}

theorem SetsStatus.of_known {b b' : Board ι}
    (h : SetsStatus b b' t s) (new : b.status t = none) (hx : b.status x ≠ none) :
    b'.status x = b.status x := by
  refine h.elsewhere x ?_
  rintro rfl
  exact hx new

/-- A waiting task that a cascade blocks: it requires one that cannot succeed, or
one that the cascade has blocked before it. -/
inductive Infected (b : Board ι) : ι → Prop
  | source {p x : ι} (hedge : b.edge p x) (h : Blocking b.status p) : Infected b x
  | spread {p x : ι} (hedge : b.edge p x) (hp : b.status p = some .pending)
      (h : Infected b p) : Infected b x

/-- The tasks that wait for the completed `t` are looked at again: those with
nothing left to wait for become ready. -/
structure Settled (b : Board ι) (t : ι) (b' : Board ι) : Prop where
  edges : b'.edge = b.edge
  moves : ∀ x, b'.status x = b.status x ∨
    (b.status x = some .pending ∨ b.status x = some .blocked) ∧
      (b'.status x = some .ready ∧ (∀ p, b.edge p x → b.status p = some .succeeded) ∨
        b'.status x = some .blocked ∧ Infected b x)
  reaches : ∀ x s, b.edge t x → b'.status x = some s → s.isWaiting = true →
    ∃ p, b.edge p x ∧ b.status p ≠ some .succeeded

/-- Everything downstream of the stopped `t` that was pending or ready is blocked. -/
structure Cascaded (b : Board ι) (t : ι) (b' : Board ι) : Prop where
  edges : b'.edge = b.edge
  moves : ∀ x, b'.status x = b.status x ∨
    (b.status x = some .pending ∨ b.status x = some .ready) ∧ b'.status x = some .blocked ∧
      ∃ p, b.edge p x ∧ (p = t ∨ b'.status p = some .blocked)
  reaches : ∀ p x, b.edge p x → p = t ∨ b'.status p ≠ b.status p →
    b'.status x ≠ some .pending ∧ b'.status x ≠ some .ready

/-- The edge `p → d` is new; a ready `d` is looked at again. -/
structure Linked (p d : ι) (b b' : Board ι) : Prop where
  known : b.status p ≠ none
  open_task : b.status d = some .pending ∨ b.status d = some .ready ∨ b.status d = some .blocked
  apart : ¬ReflTransGen b.edge d p
  edges : ∀ x y, b'.edge x y ↔ b.edge x y ∨ x = p ∧ y = d
  elsewhere : ∀ x, x ≠ d → b'.status x = b.status x
  kept : b.status d ≠ some .ready → b'.status d = b.status d
  blocked : b.status d = some .ready → Blocking b.status p → b'.status d = some .blocked
  pending : b.status d = some .ready → ¬Blocking b.status p → b.status p ≠ some .succeeded →
    b'.status d = some .pending
  ready : b.status d = some .ready → b.status p = some .succeeded → b'.status d = some .ready

inductive BoardStep (b b' : Board ι) : Prop
  | create {t : ι} {required : ι → Prop} {s : TaskStatus} (new : b.status t = none)
      (known : ∀ p, required p → b.status p ≠ none) (evaluates : Evaluates b.status required s)
      (edges : ∀ p d, b'.edge p d ↔ b.edge p d ∨ required p ∧ d = t) (sets : SetsStatus b b' t s)
  | assign {t : ι} (was : b.status t = some .ready) (edges : b'.edge = b.edge)
      (sets : SetsStatus b b' t .running)
  | complete {t : ι} {done : Board ι} (was : b.status t = some .running)
      (edges : done.edge = b.edge) (sets : SetsStatus b done t .succeeded)
      (settled : Settled done t b')
  | stop {t : ι} {stopped : Board ι} {old s : TaskStatus} (was : b.status t = some old)
      (hold : s = .failed ∧ old = .running ∨ s = .cancelled ∧ old.isTerminal = false)
      (edges : stopped.edge = b.edge) (sets : SetsStatus b stopped t s)
      (cascaded : Cascaded stopped t b')
  | retry {t : ι} {old s : TaskStatus} (was : b.status t = some old)
      (hold : old = .failed ∨ old = .cancelled) (evaluates : Evaluates b.status (b.edge · t) s)
      (edges : b'.edge = b.edge) (sets : SetsStatus b b' t s)

/-! ## Readiness -/

/-- Edges relate tasks there are; a dispatched task has only succeeded
prerequisites, a waiting one has one that has not succeeded. -/
structure Consistent (b : Board ι) : Prop where
  closed : ∀ p d, b.edge p d → b.status p ≠ none ∧ b.status d ≠ none
  satisfied : ∀ p d s, b.edge p d → b.status d = some s → s.isDispatched = true →
    b.status p = some .succeeded
  waits : ∀ d s, b.status d = some s → s.isWaiting = true →
    ∃ p, b.edge p d ∧ b.status p ≠ some .succeeded

variable {status : ι → Option TaskStatus} {required : ι → Prop}

theorem Evaluates.dispatched (h : Evaluates status required s) (hs : s.isDispatched = true) :
    ∀ p, required p → status p = some .succeeded := by
  cases h with
  | blocked | pending => cases hs
  | ready h => exact h

theorem Evaluates.waits (h : Evaluates status required s) (hs : s.isWaiting = true) :
    ∃ p, required p ∧ status p ≠ some .succeeded := by
  cases h with
  | blocked hp h =>
    obtain ⟨s, hs, hblocking⟩ := h
    exact ⟨_, hp, by rw [hs]; rintro ⟨rfl⟩; cases hblocking⟩
  | pending hp h _ => exact ⟨_, hp, h⟩
  | ready => cases hs

variable {p d : ι}

section Consistency

variable {b b' : Board ι}

/-- Moves that neither create nor undo a success keep the board consistent if what
they dispatch is satisfied and what they put to wait has a reason to. -/
theorem Consistent.of_moves (h : Consistent b) (edges : b'.edge = b.edge)
    (known : ∀ x, b.status x ≠ none → b'.status x ≠ none)
    (succeeded : ∀ x, b'.status x = some .succeeded ↔ b.status x = some .succeeded)
    (dispatched : ∀ d s, b'.status d = some s → s.isDispatched = true → b.status d = some s ∨
      ∀ p, b.edge p d → b.status p = some .succeeded)
    (waits : ∀ d s, b'.status d = some s → s.isWaiting = true → b.status d = some s ∨
      ∃ p, b.edge p d ∧ b.status p ≠ some .succeeded) : Consistent b' := by
  refine ⟨?_, ?_, ?_⟩
  · intro p d hedge
    obtain ⟨hp, hd⟩ := h.closed p d (edges ▸ hedge)
    exact ⟨known p hp, known d hd⟩
  · intro p d s hedge hd hs
    rw [edges] at hedge
    rw [succeeded]
    rcases dispatched d s hd hs with hold | hall
    · exact h.satisfied p d s hedge hold hs
    · exact hall p hedge
  · intro d s hd hs
    rw [edges]
    simp only [ne_eq, succeeded]
    rcases waits d s hd hs with hold | hreason
    · exact h.waits d s hold hs
    · exact hreason

/-- A task whose status is set keeps the board consistent if neither status is a
success and the new one has its reason. -/
theorem Consistent.of_sets {old : TaskStatus} (h : Consistent b)
    (edges : b'.edge = b.edge) (sets : SetsStatus b b' t s) (was : b.status t = some old)
    (hold : old ≠ .succeeded) (hs : s ≠ .succeeded)
    (dispatched : s.isDispatched = true → ∀ p, b.edge p t → b.status p = some .succeeded)
    (waits : s.isWaiting = true → ∃ p, b.edge p t ∧ b.status p ≠ some .succeeded) :
    Consistent b' := by
  obtain ⟨hat, helse⟩ := sets
  refine h.of_moves edges ?_ ?_ ?_ ?_
  · intro x hx
    by_cases hxt : x = t
    · simp [hxt, hat]
    · rwa [helse x hxt]
  · intro x
    by_cases hxt : x = t
    · simp [hxt, hat, was, hold, hs]
    · rw [helse x hxt]
  · intro d s' hd hs'
    by_cases hdt : d = t
    · subst hdt
      cases hat.symm.trans hd
      exact .inr (dispatched hs')
    · exact .inl (helse d hdt ▸ hd)
  · intro d s' hd hs'
    by_cases hdt : d = t
    · subst hdt
      cases hat.symm.trans hd
      exact .inr (waits hs')
    · exact .inl (helse d hdt ▸ hd)

theorem Cascaded.consistent (hc : Cascaded b t b') (h : Consistent b)
    (ht : b.status t ≠ some .succeeded) : Consistent b' := by
  have hsucceeded : ∀ x, b'.status x = some .succeeded ↔ b.status x = some .succeeded := by
    intro x
    rcases hc.moves x with hsame | ⟨hwas | hwas, hnow, -⟩
    · rw [hsame]
    · simp [hwas, hnow]
    · simp [hwas, hnow]
  refine h.of_moves hc.edges ?_ hsucceeded ?_ ?_
  · intro x hx
    rcases hc.moves x with hsame | ⟨-, hnow, -⟩
    · rwa [hsame]
    · simp [hnow]
  · intro d s hd hs
    rcases hc.moves d with hsame | ⟨-, hnow, -⟩
    · exact .inl (hsame ▸ hd)
    · cases hnow.symm.trans hd
      cases hs
  · intro d s hd hs
    rcases hc.moves d with hsame | ⟨-, hnow, p, hedge, hp⟩
    · exact .inl (hsame ▸ hd)
    · refine .inr ⟨p, hedge, ?_⟩
      rcases hp with rfl | hblocked
      · exact ht
      · rw [ne_eq, ← hsucceeded p, hblocked]
        simp

theorem Settled.succeeded_iff (hs : Settled b t b') (x : ι) :
    b'.status x = some .succeeded ↔ b.status x = some .succeeded := by
  rcases hs.moves x with hsame | ⟨hwas | hwas, ⟨hnow, -⟩ | ⟨hnow, -⟩⟩
  · rw [hsame]
  all_goals simp [hwas, hnow]

/-- A completion: `t` was running, so what it required has succeeded, and what
waits for it is settled. -/
theorem Settled.consistent {done : Board ι} (hs : Settled done t b') (h : Consistent b)
    (was : b.status t = some .running) (edges : done.edge = b.edge)
    (sets : SetsStatus b done t .succeeded) : Consistent b' := by
  obtain ⟨hat, helse⟩ := sets
  have hkeeps : ∀ x, b.status x = some .succeeded → done.status x = some .succeeded := by
    intro x hx
    by_cases hxt : x = t
    · rw [hxt, hat]
    · rw [helse x hxt, hx]
  have hknown : ∀ x, b.status x ≠ none → b'.status x ≠ none := by
    intro x hx
    have hdone : done.status x ≠ none := by
      by_cases hxt : x = t
      · simp [hxt, hat]
      · rwa [helse x hxt]
    rcases hs.moves x with hsame | ⟨-, ⟨hnow, -⟩ | ⟨hnow, -⟩⟩
    · rwa [hsame]
    all_goals simp [hnow]
  refine ⟨?_, ?_, ?_⟩
  · intro p d hedge
    rw [hs.edges, edges] at hedge
    obtain ⟨hp, hd⟩ := h.closed p d hedge
    exact ⟨hknown p hp, hknown d hd⟩
  · intro p d s hedge hd hdispatched
    rw [hs.edges] at hedge
    rw [hs.succeeded_iff]
    rcases hs.moves d with hsame | ⟨-, ⟨hnow, hall⟩ | ⟨hnow, -⟩⟩
    · apply hkeeps
      by_cases hdt : d = t
      · exact h.satisfied p d .running (edges ▸ hedge) (hdt ▸ was) rfl
      · exact h.satisfied p d s (edges ▸ hedge) (helse d hdt ▸ hsame ▸ hd) hdispatched
    · exact hall p hedge
    · cases hnow.symm.trans hd
      cases hdispatched
  · intro d s hd hwaiting
    rw [hs.edges]
    simp only [ne_eq, hs.succeeded_iff]
    by_cases hedge : done.edge t d
    · exact hs.reaches d s hedge hd hwaiting
    · -- whatever held `d` before is not `t`, so it holds it still
      have hdt : d ≠ t := by
        rintro rfl
        rw [(hs.succeeded_iff d).mpr hat] at hd
        cases hd
        cases hwaiting
      have hsome : ∃ p, b.edge p d ∧ b.status p ≠ some .succeeded := by
        rcases hs.moves d with hsame | ⟨hwas | hwas, -⟩
        · exact h.waits d s (helse d hdt ▸ hsame ▸ hd) hwaiting
        · exact h.waits d .pending (helse d hdt ▸ hwas) rfl
        · exact h.waits d .blocked (helse d hdt ▸ hwas) rfl
      obtain ⟨p, hp, hnot⟩ := hsome
      rw [← edges] at hp
      have hpt : p ≠ t := by
        rintro rfl
        exact hedge hp
      exact ⟨p, hp, helse p hpt ▸ hnot⟩

theorem Linked.consistent (hl : Linked p d b b') (h : Consistent b) : Consistent b' := by
  have hdne : b.status d ≠ some .succeeded := by rcases hl.open_task with hd | hd | hd <;> simp [hd]
  -- what the link makes of `d`
  have hcases : b'.status d = b.status d ∧
        (b.status d = some .ready → b.status p = some .succeeded) ∨
      b.status p ≠ some .succeeded ∧
        (b'.status d = some .blocked ∨ b'.status d = some .pending) := by
    by_cases hready : b.status d = some .ready
    · by_cases hp : b.status p = some .succeeded
      · exact .inl ⟨(hl.ready hready hp).trans hready.symm, fun _ => hp⟩
      · by_cases hblocking : Blocking b.status p
        · exact .inr ⟨hp, .inl (hl.blocked hready hblocking)⟩
        · exact .inr ⟨hp, .inr (hl.pending hready hblocking hp)⟩
    · exact .inl ⟨hl.kept hready, fun hr => absurd hr hready⟩
  have hkept : ∀ x, (b'.status x = some .succeeded ↔ b.status x = some .succeeded) ∧
      (b.status x ≠ none → b'.status x ≠ none) := by
    intro x
    by_cases hxd : x = d
    · subst hxd
      rcases hcases with ⟨hsame, -⟩ | ⟨-, hnow | hnow⟩
      · simp [hsame]
      · simp [hnow, hdne]
      · simp [hnow, hdne]
    · simp [hl.elsewhere x hxd]
  refine ⟨?_, ?_, ?_⟩
  · intro x y hedge
    rcases (hl.edges x y).mp hedge with hold | ⟨rfl, rfl⟩
    · obtain ⟨hx, hy⟩ := h.closed x y hold
      exact ⟨(hkept x).2 hx, (hkept y).2 hy⟩
    · refine ⟨(hkept x).2 hl.known, (hkept y).2 ?_⟩
      rcases hl.open_task with hd | hd | hd <;> simp [hd]
  · intro x y s hedge hy hs
    rw [(hkept x).1]
    by_cases hyd : y = d
    · subst hyd
      rcases hcases with ⟨hsame, hready⟩ | ⟨-, hnow | hnow⟩
      · rw [hsame] at hy
        have hisready : b.status y = some .ready := by
          rcases hl.open_task with hd | hd | hd
          · cases hd.symm.trans hy; cases hs
          · exact hd
          · cases hd.symm.trans hy; cases hs
        rcases (hl.edges x y).mp hedge with hold | ⟨rfl, -⟩
        · exact h.satisfied x y s hold hy hs
        · exact hready hisready
      all_goals cases hnow.symm.trans hy; cases hs
    · rw [hl.elsewhere y hyd] at hy
      rcases (hl.edges x y).mp hedge with hold | ⟨-, rfl⟩
      · exact h.satisfied x y s hold hy hs
      · exact absurd rfl hyd
  · intro y s hy hs
    simp only [hl.edges, ne_eq, hkept]
    by_cases hyd : y = d
    · subst hyd
      rcases hcases with ⟨hsame, -⟩ | ⟨hp, -⟩
      · obtain ⟨x, hx, hnot⟩ := h.waits y s (hsame ▸ hy) hs
        exact ⟨x, .inl hx, hnot⟩
      · exact ⟨p, .inr ⟨rfl, rfl⟩, hp⟩
    · obtain ⟨x, hx, hnot⟩ := h.waits y s (hl.elsewhere y hyd ▸ hy) hs
      exact ⟨x, .inl hx, hnot⟩

theorem Consistent.of_create (h : Consistent b)
    (new : b.status t = none) (known : ∀ p, required p → b.status p ≠ none)
    (evaluates : Evaluates b.status required s)
    (edges : ∀ p d, b'.edge p d ↔ b.edge p d ∨ required p ∧ d = t)
    (sets : SetsStatus b b' t s) : Consistent b' := by
  obtain ⟨hat, helse⟩ := sets
  have hold : ∀ x, b.status x ≠ none → b'.status x = b.status x :=
    fun x hx => SetsStatus.of_known ⟨hat, helse⟩ new hx
  refine ⟨?_, ?_, ?_⟩
  · intro p d hedge
    rcases (edges p d).mp hedge with hedge | ⟨hp, rfl⟩
    · obtain ⟨hp, hd⟩ := h.closed p d hedge
      exact ⟨hold p hp ▸ hp, hold d hd ▸ hd⟩
    · exact ⟨hold p (known p hp) ▸ known p hp, by simp [hat]⟩
  · intro p d s' hedge hd hs'
    rcases (edges p d).mp hedge with hedge | ⟨hp, rfl⟩
    · obtain ⟨hpne, hdne⟩ := h.closed p d hedge
      exact hold p hpne ▸ h.satisfied p d s' hedge (hold d hdne ▸ hd) hs'
    · cases hat.symm.trans hd
      exact hold p (known p hp) ▸ evaluates.dispatched hs' p hp
  · intro d s' hd hs'
    by_cases hdt : d = t
    · subst hdt
      cases hat.symm.trans hd
      obtain ⟨p, hp, hnot⟩ := evaluates.waits hs'
      exact ⟨p, (edges p d).mpr (.inr ⟨hp, rfl⟩), hold p (known p hp) ▸ hnot⟩
    · obtain ⟨p, hp, hnot⟩ := h.waits d s' (helse d hdt ▸ hd) hs'
      exact ⟨p, (edges p d).mpr (.inl hp), hold p (h.closed p d hp).1 ▸ hnot⟩

theorem BoardStep.consistent (hstep : BoardStep b b') (h : Consistent b) : Consistent b' := by
  cases hstep with
  | create new known evaluates edges sets => exact h.of_create new known evaluates edges sets
  | assign was edges sets =>
    exact h.of_sets edges sets was (by simp) (by simp)
      (fun _ p hp => h.satisfied p _ _ hp was rfl) (fun hs => by cases hs)
  | complete was edges sets settled => exact settled.consistent h was edges sets
  | @stop t stopped old s was hold edges sets cascaded =>
    have hstopped : Consistent stopped := by
      rcases hold with ⟨rfl, rfl⟩ | ⟨rfl, hterminal⟩
      · exact h.of_sets edges sets was (by simp) (by simp)
          (fun _ p hp => h.satisfied p _ _ hp was rfl) (fun hs => by cases hs)
      · exact h.of_sets edges sets was (by rintro rfl; cases hterminal) (by simp)
          (fun hs => by cases hs) (fun hs => by cases hs)
    refine cascaded.consistent hstopped ?_
    rw [sets.at_task]
    rcases hold with ⟨rfl, -⟩ | ⟨rfl, -⟩ <;> simp
  | @retry t old s was hold evaluates edges sets =>
    have hold' : old ≠ .succeeded := by rcases hold with rfl | rfl <;> simp
    have hs : s ≠ .succeeded := by cases evaluates <;> simp
    exact h.of_sets edges sets was hold' hs evaluates.dispatched evaluates.waits

end Consistency

/-! ## Order -/

section Order

variable {b b' : Board ι}

theorem Linked.acyclic (hl : Linked p d b b') (ha : Acyclic b.edge) : Acyclic b'.edge :=
  ha.insert (fun x y => (hl.edges x y).mp) hl.apart

theorem BoardStep.acyclic (hstep : BoardStep b b') (h : Consistent b) (ha : Acyclic b.edge) :
    Acyclic b'.edge := by
  cases hstep with
  | @create t required s new known evaluates edges sets =>
    have hinto : ∀ x y, b'.edge x y → b.edge x y ∨ y = t := by
      intro x y hedge
      rcases (edges x y).mp hedge with hold | ⟨-, rfl⟩
      · exact .inl hold
      · exact .inr rfl
    have hsink : ∀ y, ¬b'.edge t y := by
      intro y hedge
      rcases (edges t y).mp hedge with hold | ⟨hrequired, -⟩
      · exact (h.closed t y hold).1 new
      · exact known t hrequired new
    exact ha.insert_sink hinto hsink
  | assign was edges sets => exact edges ▸ ha
  | complete was edges sets settled => exact settled.edges ▸ edges ▸ ha
  | stop was hold edges sets cascaded => exact cascaded.edges ▸ edges ▸ ha
  | retry was hold evaluates edges sets => exact edges ▸ ha

end Order

/-! ## Propagation of failures -/

def Propagated (b : Board ι) : Prop :=
  ∀ p d, b.edge p d → b.status d = some .pending → ¬Blocking b.status p

/-- The link `p → d` leaves nothing pending behind: if `p` cannot succeed then `d` is not pending,
and nothing is pending behind a ready `d`. -/
def SafeLink (b : Board ι) (p d : ι) : Prop :=
  ¬ReflTransGen b.edge d p → Blocking b.status p → b.status d ≠ some .pending ∧
    (b.status d = some .ready → ∀ x, b.edge d x → b.status x ≠ some .pending)

section Propagation

variable {b b' : Board ι}

theorem Blocking.of_eq {status' : ι → Option TaskStatus}
    (h : Blocking status' x) (heq : status' x = status x) : Blocking status x := by
  obtain ⟨s, hs, hblocking⟩ := h
  exact ⟨s, heq ▸ hs, hblocking⟩

theorem not_blocking_of_status
    (h : status x = some s) (hs : s.isBlocking = false) : ¬Blocking status x := by
  rintro ⟨s', hs', hblocking⟩
  cases h.symm.trans hs'
  rw [hs] at hblocking
  cases hblocking

theorem Infected.not_pending (hb : Propagated b) (h : Infected b x) :
    b.status x ≠ some .pending := by
  induction h with
  | source hedge hblocking => exact fun hx => hb _ _ hedge hx hblocking
  | spread _ hp _ ih => exact absurd hp ih

theorem Propagated.of_sets (hb : Propagated b)
    (edges : b'.edge = b.edge) (sets : SetsStatus b b' t s) (hpending : s ≠ .pending)
    (hblocking : s.isBlocking = false) : Propagated b' := by
  obtain ⟨hat, helse⟩ := sets
  intro p d hedge hd hp
  rw [edges] at hedge
  have hdt : d ≠ t := by
    rintro rfl
    exact hpending (Option.some.inj (hat.symm.trans hd))
  by_cases hpt : p = t
  · exact not_blocking_of_status (hpt ▸ hat) hblocking hp
  · exact hb p d hedge (helse d hdt ▸ hd) (hp.of_eq (helse p hpt))

theorem Settled.propagated (hs : Settled b t b') (hb : Propagated b) : Propagated b' := by
  intro p d hedge hd hp
  rw [hs.edges] at hedge
  have hwas : b.status d = some .pending := by
    rcases hs.moves d with hsame | ⟨-, ⟨hnow, -⟩ | ⟨hnow, -⟩⟩
    · exact hsame ▸ hd
    · simp [hnow] at hd
    · simp [hnow] at hd
  refine hb p d hedge hwas ?_
  rcases hs.moves p with hsame | ⟨hpwas, ⟨hnow, -⟩ | ⟨hnow, hinfected⟩⟩
  · exact hp.of_eq hsame
  · exact absurd hp (not_blocking_of_status hnow rfl)
  · rcases hpwas with hpending | hblocked
    · exact absurd hpending (hinfected.not_pending hb)
    · exact ⟨.blocked, hblocked, rfl⟩

theorem Cascaded.propagated {stopped : Board ι}
    (hc : Cascaded stopped t b') (hb : Propagated b) (edges : stopped.edge = b.edge)
    (sets : SetsStatus b stopped t s) (hpending : s ≠ .pending) : Propagated b' := by
  intro p d hedge hd hp
  rw [hc.edges] at hedge
  have hunmoved : ¬(p = t ∨ b'.status p ≠ stopped.status p) :=
    fun hmoved => (hc.reaches p d hedge hmoved).1 hd
  push Not at hunmoved
  obtain ⟨hpt, hpsame⟩ := hunmoved
  have hwas : stopped.status d = some .pending := by
    rcases hc.moves d with hsame | ⟨-, hnow, -⟩
    · exact hsame ▸ hd
    · simp [hnow] at hd
  have hdt : d ≠ t := by
    rintro rfl
    exact hpending (Option.some.inj (sets.at_task.symm.trans hwas))
  exact hb p d (edges ▸ hedge) (sets.elsewhere d hdt ▸ hwas)
    ((hp.of_eq hpsame).of_eq (sets.elsewhere p hpt))

theorem Linked.propagated (hl : Linked p d b b') (h : Consistent b)
    (hb : Propagated b) (hsafe : SafeLink b p d) : Propagated b' := by
  intro x y hedge hy hx
  by_cases hyd : y = d
  · subst hyd
    have hxy : x ≠ y := by
      rintro rfl
      exact not_blocking_of_status hy rfl hx
    replace hx : Blocking b.status x := hx.of_eq (hl.elsewhere x hxy)
    by_cases hready : b.status y = some .ready
    · rcases (hl.edges x y).mp hedge with hold | ⟨rfl, -⟩
      · exact not_blocking_of_status (h.satisfied x y .ready hold hready rfl) rfl hx
      · simp [hl.blocked hready hx] at hy
    · rw [hl.kept hready] at hy
      rcases (hl.edges x y).mp hedge with hold | ⟨rfl, -⟩
      · exact hb x y hold hy hx
      · exact (hsafe hl.apart hx).1 hy
  · rw [hl.elsewhere y hyd] at hy
    rcases (hl.edges x y).mp hedge with hold | ⟨-, rfl⟩
    · by_cases hxd : x = d
      · subst hxd
        by_cases hready : b.status x = some .ready
        · by_cases hblocking : Blocking b.status p
          · exact (hsafe hl.apart hblocking).2 hready y hold hy
          · by_cases hp : b.status p = some .succeeded
            · exact not_blocking_of_status (hl.ready hready hp) rfl hx
            · exact not_blocking_of_status (hl.pending hready hblocking hp) rfl hx
        · exact hb x y hold hy (hx.of_eq (hl.kept hready))
      · exact hb x y hold hy (hx.of_eq (hl.elsewhere x hxd))
    · exact absurd rfl hyd

theorem Linked.safe (hl : Linked p d b b') (hb' : Propagated b') : SafeLink b p d := by
  intro hapart hp
  have hpd : p ≠ d := by
    rintro rfl
    exact hapart .refl
  have hp' : Blocking b'.status p := hp.of_eq (hl.elsewhere p hpd).symm
  constructor
  · intro hpending
    have hnow : b'.status d = some .pending := by rw [hl.kept (by simp [hpending]), hpending]
    exact hb' p d ((hl.edges p d).mpr (.inr ⟨rfl, rfl⟩)) hnow hp'
  · intro hready x hedge hx
    have hxd : x ≠ d := by
      rintro rfl
      simp [hready] at hx
    exact hb' d x ((hl.edges d x).mpr (.inl hedge)) (by rw [hl.elsewhere x hxd, hx])
      ⟨.blocked, hl.blocked hready hp, rfl⟩

theorem Linked.propagated_iff (hl : Linked p d b b') (h : Consistent b)
    (hb : Propagated b) : Propagated b' ↔ SafeLink b p d :=
  ⟨hl.safe, hl.propagated h hb⟩

theorem BoardStep.propagated (hstep : BoardStep b b') (h : Consistent b) (hb : Propagated b) :
    Propagated b' := by
  cases hstep with
  | @create t required s new known evaluates edges sets =>
    intro p d hedge hd hp
    rcases (edges p d).mp hedge with hedge | ⟨hrequired, rfl⟩
    · obtain ⟨hpne, hdne⟩ := h.closed p d hedge
      exact hb p d hedge (sets.of_known new hdne ▸ hd) (hp.of_eq (sets.of_known new hpne))
    · cases sets.at_task.symm.trans hd
      cases evaluates with
      | pending _ _ hnone =>
        exact hnone p hrequired (hp.of_eq (sets.of_known new (known p hrequired)))
  | assign was edges sets => exact hb.of_sets edges sets (by simp) rfl
  | complete was edges sets settled =>
    exact settled.propagated (hb.of_sets edges sets (by simp) rfl)
  | stop was hold edges sets cascaded =>
    refine cascaded.propagated hb edges sets ?_
    rcases hold with ⟨rfl, -⟩ | ⟨rfl, -⟩ <;> simp
  | @retry t old s was hold evaluates edges sets =>
    obtain ⟨hat, helse⟩ := sets
    have hblocking : Blocking b.status t := ⟨old, was, by rcases hold with rfl | rfl <;> rfl⟩
    intro p d hedge hd hp
    rw [edges] at hedge
    by_cases hdt : d = t
    · subst hdt
      cases hat.symm.trans hd
      cases evaluates with
      | pending _ _ hnone =>
        have hpd : p ≠ d := by
          rintro rfl
          exact hnone p hedge hblocking
        exact hnone p hedge (hp.of_eq (helse p hpd))
    · rw [helse d hdt] at hd
      by_cases hpt : p = t
      · exact hb p d hedge hd (hpt ▸ hblocking)
      · exact hb p d hedge hd (hp.of_eq (helse p hpt))

end Propagation

end BittyAi.Slice
