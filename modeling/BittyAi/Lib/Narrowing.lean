/-
BittyAi.Lib.Narrowing — optional constraints that several parties add up.

A constraint is an allow-set or a ceiling, and `none` constrains nothing. Parties are folded
one after the other: allow-sets intersect (`meetAll`), ceilings take their minimum
(`lowest`).
-/
import Mathlib.Order.MinMax
import Mathlib.Data.List.Basic

namespace BittyAi.Lib

variable {α : Type*}

/-! ## Allow-sets -/

def Permits (constraint : Option (List α)) (x : α) : Prop := ∀ set ∈ constraint, x ∈ set

/-- `a` allows at most what `b` allows; `none` allows everything. -/
def Tighter (a b : Option (List α)) : Prop := ∀ set ∈ b, ∃ set' ∈ a, set' ⊆ set

def meet [DecidableEq α] (current next : Option (List α)) : Option (List α) :=
  match next with
  | none => current
  | some set =>
    some (match current with
      | none => set
      | some items => items.filter fun item => item ∈ set)

def meetAll [DecidableEq α] (parties : List (Option (List α))) : Option (List α) :=
  parties.foldl meet none

theorem permits_none (x : α) : Permits none x := by simp [Permits]

section Meet

variable [DecidableEq α]

theorem permits_meet {current next : Option (List α)} {x : α} :
    Permits (meet current next) x ↔ Permits current x ∧ Permits next x := by
  cases next with
  | none => simp [meet, permits_none]
  | some set =>
    cases current with
    | none | some => simp [meet, Permits]

theorem meetAll_iff {P : Option (List α) → Prop} (hnone : P none)
    (hmeet : ∀ current next, P (meet current next) ↔ P current ∧ P next)
    {parties : List (Option (List α))} : P (meetAll parties) ↔ ∀ party ∈ parties, P party := by
  have hfold : ∀ (parties : List (Option (List α))) (current : Option (List α)),
      P (parties.foldl meet current) ↔ P current ∧ ∀ party ∈ parties, P party := by
    intro parties
    induction parties with
    | nil => simp
    | cons party parties ih =>
      intro current
      rw [List.foldl_cons, ih, hmeet, List.forall_mem_cons, and_assoc]
  rw [meetAll, hfold]
  exact and_iff_right hnone

variable {parties parties' : List (Option (List α))}

theorem permits_meetAll {x : α} :
    Permits (meetAll parties) x ↔ ∀ party ∈ parties, Permits party x :=
  @meetAll_iff _ _ (Permits · x) (permits_none x) (fun _ _ => permits_meet) _

theorem meetAll_eq_none : meetAll parties = none ↔ ∀ party ∈ parties, party = none :=
  @meetAll_iff _ _ (· = none) rfl (fun _ next => by cases next <;> simp [meet]) _

theorem tighter_meetAll
    (h : ∀ party ∈ parties, ∃ party' ∈ parties', Tighter party' party) :
    Tighter (meetAll parties') (meetAll parties) := by
  intro set hset
  have hpermits : ∀ x, Permits (meetAll parties') x → x ∈ set := by
    intro x hx
    refine (permits_meetAll.mpr fun party hparty => ?_ : Permits (meetAll parties) x) set hset
    obtain ⟨party', hparty', htight⟩ := h party hparty
    intro items hitems
    obtain ⟨items', hitems', hsub⟩ := htight items hitems
    exact hsub (permits_meetAll.mp hx party' hparty' items' hitems')
  cases hmeet : meetAll parties' with
  | some items' =>
    refine ⟨items', rfl, fun x hx => hpermits x ?_⟩
    rw [hmeet]
    simpa [Permits] using hx
  | none =>
    -- no party of the second constrains, so none of the first does
    have hnone : meetAll parties = none := by
      refine meetAll_eq_none.mpr fun party hparty => ?_
      obtain ⟨party', hparty', htight⟩ := h party hparty
      have hparty'none := meetAll_eq_none.mp hmeet party' hparty'
      cases party with
      | none => rfl
      | some items =>
        obtain ⟨items', hitems', -⟩ := htight items rfl
        simp [hparty'none] at hitems'
    simp [hnone] at hset

end Meet

/-! ## Ceilings -/

section Ceiling

variable [LinearOrder α]

/-- The ceiling `a` is at most the ceiling `b`; `none` is no ceiling. -/
def AtMost (a b : Option α) : Prop := ∀ y ∈ b, ∃ x ∈ a, x ≤ y

def lower (current next : Option α) : Option α :=
  match next with
  | none => current
  | some ceiling =>
    some (match current with
      | none => ceiling
      | some least => min least ceiling)

def lowest (parties : List (Option α)) : Option α := parties.foldl lower none

theorem some_mem_of_foldl_lower {parties : List (Option α)} {current : Option α} {y : α}
    (h : parties.foldl lower current = some y) : current = some y ∨ some y ∈ parties := by
  induction parties generalizing current with
  | nil => exact .inl h
  | cons party parties ih =>
    rcases ih h with hlower | hmem
    · cases party with
      | none => exact .inl hlower
      | some ceiling =>
        cases current with
        | none =>
          simp only [lower, Option.some.injEq] at hlower
          exact .inr (by rw [← hlower]; exact List.mem_cons_self)
        | some least =>
          simp only [lower, Option.some.injEq] at hlower
          rcases min_choice least ceiling with hmin | hmin
          · exact .inl (by rw [← hlower, hmin])
          · exact .inr (by rw [← hlower, hmin]; exact List.mem_cons_self)
    · exact .inr (List.mem_cons_of_mem _ hmem)

theorem atMost_foldl_lower {parties : List (Option α)} {current : Option α} :
    AtMost (parties.foldl lower current) current ∧
      ∀ party ∈ parties, AtMost (parties.foldl lower current) party := by
  induction parties generalizing current with
  | nil => exact ⟨fun y hy => ⟨y, hy, le_rfl⟩, by simp⟩
  | cons party parties ih =>
    obtain ⟨hcurrent, hrest⟩ := @ih (lower current party)
    have hlower : AtMost (lower current party) current ∧ AtMost (lower current party) party := by
      cases party <;> cases current <;> simp [lower, AtMost]
    have htrans : ∀ other, AtMost (lower current party) other →
        AtMost ((party :: parties).foldl lower current) other := by
      intro other hother y hy
      obtain ⟨z, hz, hzy⟩ := hother y hy
      obtain ⟨x, hx, hxz⟩ := hcurrent z hz
      exact ⟨x, hx, hxz.trans hzy⟩
    refine ⟨htrans _ hlower.1, fun other hother => ?_⟩
    rcases List.mem_cons.mp hother with rfl | hmem
    · exact htrans _ hlower.2
    · exact hrest other hmem

theorem atMost_lowest {parties parties' : List (Option α)}
    (h : ∀ party ∈ parties, ∃ party' ∈ parties', AtMost party' party) :
    AtMost (lowest parties') (lowest parties) := by
  intro y hy
  rcases some_mem_of_foldl_lower hy with hnone | hmem
  · cases hnone
  · obtain ⟨party', hparty', hle⟩ := h _ hmem
    obtain ⟨z, hz, hzy⟩ := hle y rfl
    obtain ⟨x, hx, hxz⟩ := atMost_foldl_lower.2 party' hparty' z hz
    exact ⟨x, hx, hxz.trans hzy⟩

end Ceiling

end BittyAi.Lib
