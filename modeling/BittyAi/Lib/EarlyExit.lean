/-
BittyAi.Lib.EarlyExit — state-passing computations that may stop early, and the
weakest-precondition rules to reason about them.

`Exiting σ ε α` runs on a state `σ` and either continues with an `α` or stops with an `ε`;
the state reached survives in both cases. `wp m Q R s` says that running `m` from `s`
establishes `Q` if it continues and `R` if it stops. The simp set computes `wp` along a
body; a called function enters through `wp_mono` with its own specification.
-/
import Mathlib.Logic.Basic

namespace BittyAi.Lib

variable {σ ε α β : Type}

/-- A computation over a state that continues with a value or stops with an
outcome. -/
def Exiting (σ ε α : Type) : Type := σ → Except ε α × σ

variable {m : Exiting σ ε α} {s' : σ} {a : α} {e : ε} {condition : Prop}

namespace Exiting

/-- Run `f` on the value and the state `m` continues with. -/
def andThen (m : Exiting σ ε α) (f : α → Exiting σ ε β) : Exiting σ ε β := fun s =>
  match m s with
  | (.ok a, s') => f a s'
  | (.error e, s') => (.error e, s')

instance : Monad (Exiting σ ε) where
  pure a := fun s => (.ok a, s)
  bind := andThen

def exit (outcome : ε) : Exiting σ ε α := fun s => (.error outcome, s)

def read (f : σ → α) : Exiting σ ε α := fun s => (.ok (f s), s)

def attempt (f : σ → Except ε α) : Exiting σ ε α := fun s => (f s, s)

def modify (f : σ → σ) : Exiting σ ε Unit := fun s => (.ok (), f s)

def lift (f : σ → α × σ) : Exiting σ ε α := fun s => (.ok (f s).1, (f s).2)

def refuse (condition : Prop) [Decidable condition] (outcome : ε) : Exiting σ ε Unit :=
  if condition then exit outcome else pure ()

def transaction (m : Exiting σ ε α) : Exiting σ ε α := fun s =>
  match m s with
  | (.ok a, s') => (.ok a, s')
  | (.error e, _) => (.error e, s)

/-- Stop with another outcome where `m` stops. -/
def mapExit {ε' : Type} (f : ε → ε') (m : Exiting σ ε α) : Exiting σ ε' α := fun s =>
  ((m s).1.mapError f, (m s).2)

def onExit (f : ε → σ → σ) (m : Exiting σ ε α) : Exiting σ ε α := fun s =>
  match m s with
  | (.ok a, s') => (.ok a, s')
  | (.error e, s') => (.error e, f e s')

theorem run_bind_eq_ok {f : α → Exiting σ ε β} {s : σ} {b : β} :
    (m >>= f) s = (.ok b, s') ↔ ∃ a s₁, m s = (.ok a, s₁) ∧ f a s₁ = (.ok b, s') := by
  change andThen m f s = _ ↔ _
  rw [andThen]
  constructor
  · intro h
    split at h
    · exact ⟨_, _, ‹_›, h⟩
    · cases h
  · rintro ⟨a, s₁, hm, hf⟩
    rw [hm]
    exact hf

/-! ## Weakest preconditions -/

/-- What must hold of `s` for `m` to establish `Q` when it continues and `R`
when it stops. -/
def wp (m : Exiting σ ε α) (Q : α → σ → Prop) (R : ε → σ → Prop) (s : σ) : Prop :=
  match m s with
  | (.ok a, s') => Q a s'
  | (.error e, s') => R e s'

section Rules

variable {Q Q' : α → σ → Prop} {R R' : ε → σ → Prop} {s : σ}

@[simp] theorem wp_pure : wp (pure a : Exiting σ ε α) Q R s ↔ Q a s := Iff.rfl

@[simp] theorem wp_exit : wp (exit e : Exiting σ ε α) Q R s ↔ R e s := Iff.rfl

@[simp] theorem wp_read {f : σ → α} : wp (read f : Exiting σ ε α) Q R s ↔ Q (f s) s := Iff.rfl

@[simp] theorem wp_attempt {f : σ → Except ε α} :
    wp (attempt f) Q R s ↔ (∀ a, f s = .ok a → Q a s) ∧ ∀ e, f s = .error e → R e s := by
  unfold wp attempt
  cases f s <;> simp

theorem wp_attempt_ok {f : σ → Except ε α} (h : f s = .ok a) : wp (attempt f) Q R s ↔ Q a s := by
  simp [h]

@[simp] theorem wp_modify {f : σ → σ} {Q : Unit → σ → Prop} :
    wp (modify f : Exiting σ ε Unit) Q R s ↔ Q () (f s) := Iff.rfl

@[simp] theorem wp_lift {f : σ → α × σ} :
    wp (lift f : Exiting σ ε α) Q R s ↔ Q (f s).1 (f s).2 := Iff.rfl

@[simp] theorem wp_bind {f : α → Exiting σ ε β} {Q : β → σ → Prop} :
    wp (m >>= f) Q R s ↔ wp m (fun a s' => wp (f a) Q R s') R s := by
  show wp (andThen m f) Q R s ↔ _
  unfold wp andThen
  rcases m s with ⟨_ | _, _⟩ <;> exact Iff.rfl

@[simp] theorem wp_map {f : α → β} {Q : β → σ → Prop} :
    wp (f <$> m) Q R s ↔ wp m (fun a s' => Q (f a) s') R s := by
  show wp (andThen m (pure ∘ f)) Q R s ↔ _
  unfold wp andThen
  rcases m s with ⟨_ | _, _⟩ <;> exact Iff.rfl

@[simp] theorem wp_refuse [Decidable condition]
    {Q : Unit → σ → Prop} :
    wp (refuse condition e : Exiting σ ε Unit) Q R s ↔
      (condition → R e s) ∧ (¬condition → Q () s) := by
  unfold refuse
  split <;> simp [*]

@[simp] theorem wp_transaction : wp (transaction m) Q R s ↔ wp m Q (fun e _ => R e s) s := by
  unfold wp transaction
  rcases m s with ⟨_ | _, _⟩ <;> exact Iff.rfl

@[simp] theorem wp_mapExit {ε' : Type} {f : ε → ε'} {R : ε' → σ → Prop} :
    wp (mapExit f m) Q R s ↔ wp m Q (fun e s' => R (f e) s') s := by
  unfold wp mapExit
  rcases m s with ⟨_ | _, _⟩ <;> exact Iff.rfl

@[simp] theorem wp_onExit {f : ε → σ → σ} :
    wp (onExit f m) Q R s ↔ wp m Q (fun e s' => R e (f e s')) s := by
  unfold wp onExit
  rcases m s with ⟨_ | _, _⟩ <;> exact Iff.rfl

@[simp] theorem wp_ite [Decidable condition] {m' : Exiting σ ε α} :
    wp (if condition then m else m') Q R s ↔
      (condition → wp m Q R s) ∧ (¬condition → wp m' Q R s) := by
  split <;> simp [*]

theorem exit_of_wp (h : wp m (fun _ _ => False) R s) :
    ∃ e, (m s).1 = .error e ∧ R e (m s).2 := by
  unfold wp at h
  generalize m s = run at h ⊢
  obtain ⟨_ | _, s'⟩ := run
  · exact ⟨_, rfl, h⟩
  · exact False.elim h

theorem wp_mono (h : wp m Q R s) (hok : ∀ a s', Q a s' → Q' a s')
    (hexit : ∀ e s', R e s' → R' e s') : wp m Q' R' s := by
  unfold wp at h ⊢
  rcases hm : m s with ⟨e | a, s'⟩ <;> rw [hm] at h
  · exact hexit e s' h
  · exact hok a s' h

theorem wp_and (h : wp m Q R s) (h' : wp m Q' R' s) :
    wp m (fun a s' => Q a s' ∧ Q' a s') (fun e s' => R e s' ∧ R' e s') s := by
  unfold wp at *
  rcases hm : m s with ⟨e | a, s'⟩ <;> rw [hm] at h h' <;> exact ⟨h, h'⟩

theorem of_wp_ok (h : wp m Q R s) {a : α} {s' : σ} (hm : m s = (.ok a, s')) : Q a s' := by
  unfold wp at h
  rwa [hm] at h

theorem of_wp_error (h : wp m Q R s) {e : ε} {s' : σ} (hm : m s = (.error e, s')) : R e s' := by
  unfold wp at h
  rwa [hm] at h

theorem wp_state {P : σ → Prop} : wp m (fun _ => P) (fun _ => P) s ↔ P (m s).2 := by
  unfold wp
  rcases m s with ⟨_ | _, _⟩ <;> exact Iff.rfl

theorem wp_stops : wp m (fun _ _ => True) R s ↔ ∀ e, (m s).1 = .error e → R e (m s).2 := by
  unfold wp
  rcases m s with ⟨_ | _, _⟩ <;> simp

theorem wp_eq_run {result : Except ε α × σ} :
    wp m (fun a s' => (.ok a, s') = result) (fun e s' => (.error e, s') = result) s ↔
      m s = result := by
  unfold wp
  rcases m s with ⟨_ | _, _⟩ <;> exact Iff.rfl

theorem wp_intro (hok : ∀ a s', m s = (.ok a, s') → Q a s')
    (hexit : ∀ e s', m s = (.error e, s') → R e s') : wp m Q R s := by
  unfold wp
  rcases hm : m s with ⟨e | a, s'⟩
  · exact hexit e s' hm
  · exact hok a s' hm

theorem wp_of_ok (hm : m s = (.ok a, s')) (h : Q a s') : wp m Q R s := by
  unfold wp
  rwa [hm]

theorem wp_of_error (hm : m s = (.error e, s')) (h : R e s') : wp m Q R s := by
  unfold wp
  rwa [hm]

theorem exists_run_ok {m : Exiting σ ε α} (h : (m s).1.isOk = true) :
    ∃ a s', m s = (.ok a, s') := by
  rcases hm : m s with ⟨e | a, s'⟩
  · rw [hm] at h
    cases h
  · exact ⟨a, s', rfl⟩

theorem wp_exits (h : wp m (fun _ _ => False) R s) : ∃ e s', m s = (.error e, s') ∧ R e s' := by
  unfold wp at h
  rcases hm : m s with ⟨e | a, s'⟩ <;> rw [hm] at h
  · exact ⟨e, s', rfl, h⟩
  · exact h.elim

end Rules

/-! ## Loops over a list -/

/-- Run `body` on each element in turn, threading a value. -/
def each (body : β → α → Exiting σ ε β) : List α → β → Exiting σ ε β
  | [], b => pure b
  | a :: rest, b => body b a >>= each body rest

/-- The invariant rule of `each`: `I rest b` holds before the elements `rest`
are still to be run with value `b`. -/
theorem wp_each {body : β → α → Exiting σ ε β} {I : List α → β → σ → Prop} {R : ε → σ → Prop}
    (step : ∀ a rest b s, I (a :: rest) b s → wp (body b a) (I rest) R s) :
    ∀ (as : List α) (b : β) (s : σ), I as b s → wp (each body as b) (I []) R s
  | [], _, _, h => h
  | a :: rest, b, s, h => by
    rw [each, wp_bind]
    exact wp_mono (step a rest b s h) (fun b' s' h' => wp_each step rest b' s' h')
      (fun _ _ h' => h')

/-! ## Predicates carried along a body -/

/-- From a state with `I`, `m` reaches one with `J` where it continues and one with `E` where it
stops. -/
def Leads (I J E : σ → Prop) (m : Exiting σ ε α) : Prop :=
  ∀ s, I s → wp m (fun _ => J) (fun _ => E) s

namespace Leads

variable {I J K E : σ → Prop}

theorem bind {f : α → Exiting σ ε β} (h : Leads I J E m)
    (hf : ∀ a, Leads J K E (f a)) : Leads I K E (m >>= f) :=
  fun s hs => wp_bind.mpr (wp_mono (h s hs) (fun a s' => hf a s') (fun _ _ hexit => hexit))

theorem pure (h : ∀ s, I s → J s) (a : α) : Leads I J E (pure a : Exiting σ ε α) :=
  fun s hs => wp_pure.mpr (h s hs)

theorem read {f : σ → α} : Leads I I E (Exiting.read f : Exiting σ ε α) :=
  fun _ hs => wp_read.mpr hs

theorem attempt {f : σ → Except ε α} (h : ∀ s, I s → E s) : Leads I I E (Exiting.attempt f) :=
  fun s hs => wp_attempt.mpr ⟨fun _ _ => hs, fun _ _ => h s hs⟩

theorem modify {f : σ → σ} (h : ∀ s, I s → J (f s)) :
    Leads I J E (Exiting.modify f : Exiting σ ε Unit) :=
  fun s hs => wp_modify.mpr (h s hs)

theorem lift {f : σ → α × σ} (h : ∀ s, I s → J (f s).2) :
    Leads I J E (Exiting.lift f : Exiting σ ε α) :=
  fun s hs => wp_lift.mpr (h s hs)

theorem refuse [Decidable condition] (h : ∀ s, I s → E s) :
    Leads I I E (Exiting.refuse condition e : Exiting σ ε Unit) :=
  fun s hs => wp_refuse.mpr ⟨fun _ => h s hs, fun _ => hs⟩

theorem ite [Decidable condition] {m' : Exiting σ ε α}
    (h : Leads I J E m) (h' : Leads I J E m') : Leads I J E (if condition then m else m') :=
  fun s hs => wp_ite.mpr ⟨fun _ => h s hs, fun _ => h' s hs⟩

theorem mono {J' : σ → Prop} (h : Leads I J E m) (hJ : ∀ s, J s → J' s) : Leads I J' E m :=
  fun s hs => wp_mono (h s hs) (fun _ s' => hJ s') (fun _ _ hexit => hexit)

end Leads

-- from here on a specification is used through its rules: unfolding it would run the program
attribute [irreducible] wp

end Exiting

/-! ## Straight-line bodies -/

section

variable {ε α β : Type}

/-- Stop with `error` if the condition holds. -/
def refuseIf (condition : Prop) [Decidable condition] (error : ε) : Except ε Unit :=
  if condition then .error error else .ok ()

@[simp] theorem refuseIf_eq_ok {condition : Prop} [Decidable condition] {error : ε} {u : Unit} :
    refuseIf condition error = .ok u ↔ ¬condition := by
  unfold refuseIf
  split <;> simp [*]

variable {m : Except ε α}

@[simp] theorem bind_eq_ok {f : α → Except ε β} {b : β} :
    (m >>= f) = .ok b ↔ ∃ a, m = .ok a ∧ f a = .ok b := by
  cases m <;> simp [bind, Except.bind]

@[simp] theorem map_eq_ok {f : α → β} {b : β} :
    f <$> m = .ok b ↔ ∃ a, m = .ok a ∧ f a = b := by
  cases m <;> simp [Functor.map, Except.map]

@[simp] theorem mapError_eq_ok {ε' : Type} {f : ε → ε'} {a : α} :
    m.mapError f = .ok a ↔ m = .ok a := by
  cases m with
  | error e => constructor <;> intro h <;> cases h
  | ok b => constructor <;> intro h <;> cases h <;> rfl

@[simp] theorem pure_eq_ok {a b : α} : (pure a : Except ε α) = .ok b ↔ a = b := by
  simp [pure, Except.pure]

theorem exists_eq_ok (h : m.isOk = true) : ∃ a, m = .ok a := by
  cases m with
  | error e => cases h
  | ok a => exact ⟨a, rfl⟩

end

end BittyAi.Lib
