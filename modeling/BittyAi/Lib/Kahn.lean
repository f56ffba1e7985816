/-
BittyAi.Lib.Kahn — relations without directed cycles, and topological sorting by in-degrees.

A node is ready when no edge into it comes from a node that is still to be emitted. The
invariant says what a degree counts and that the ready nodes are exactly those with none
left.
-/
import Mathlib.Data.Set.Finite.List
import Mathlib.Order.WellFoundedSet

namespace BittyAi.Lib

open List Function

/-! ## Acyclic relations -/

section

open Relation

variable {α : Type*} {r r' : α → α → Prop}

def Acyclic (r : α → α → Prop) : Prop := ∀ x, ¬TransGen r x x

theorem Acyclic.insert {p d : α} (h : Acyclic r) (hr' : ∀ x y, r' x y → r x y ∨ x = p ∧ y = d)
    (hpath : ¬ReflTransGen r d p) : Acyclic r' := by
  -- a path that uses the new edge uses it once: it comes to `p` and goes on from `d`
  have hsplit : ∀ x y, TransGen r' x y →
      TransGen r x y ∨ ReflTransGen r x p ∧ ReflTransGen r d y := by
    intro x y hxy
    induction hxy with
    | single hstep =>
      rcases hr' _ _ hstep with hold | ⟨rfl, rfl⟩
      · exact .inl (.single hold)
      · exact .inr ⟨.refl, .refl⟩
    | tail _ hstep ih =>
      rcases hr' _ _ hstep with hold | ⟨rfl, rfl⟩
      · rcases ih with hxb | ⟨hxp, hdb⟩
        · exact .inl (hxb.tail hold)
        · exact .inr ⟨hxp, hdb.tail hold⟩
      · rcases ih with hxb | ⟨_, hdb⟩
        · exact .inr ⟨hxb.to_reflTransGen, .refl⟩
        · exact absurd hdb hpath
  intro x hx
  rcases hsplit x x hx with hold | ⟨hxp, hdx⟩
  · exact h x hold
  · exact hpath (hdx.trans hxp)

theorem Acyclic.insert_sink {sink : α} (h : Acyclic r)
    (hr' : ∀ x y, r' x y → r x y ∨ y = sink) (hsink : ∀ y, ¬r' sink y) : Acyclic r' := by
  have hsplit : ∀ x y, TransGen r' x y → TransGen r x y ∨ y = sink := by
    intro x y hxy
    induction hxy with
    | single hstep => exact (hr' _ _ hstep).imp_left .single
    | tail _ hstep ih =>
      rcases ih with hxb | rfl
      · exact (hr' _ _ hstep).imp_left hxb.tail
      · exact absurd hstep (hsink _)
  intro x hx
  rcases hsplit x x hx with hold | rfl
  · exact h x hold
  · obtain ⟨y, hy, -⟩ := TransGen.head'_iff.mp hx
    exact hsink y hy

theorem Acyclic.exists_source (h : Acyclic r) {nodes : List α} (hne : nodes ≠ []) :
    ∃ x ∈ nodes, ∀ y ∈ nodes, ¬r y x := by
  have : IsStrictOrder α (TransGen r) :=
    { irrefl := h, trans := fun _ _ _ => TransGen.trans }
  have hwf : {x | x ∈ nodes}.WellFoundedOn (TransGen r) := nodes.finite_toSet.wellFoundedOn
  obtain ⟨first, rest, rfl⟩ := List.exists_cons_of_ne_nil hne
  obtain ⟨⟨x, hx⟩, -, hmin⟩ := hwf.has_min Set.univ ⟨⟨first, List.mem_cons_self⟩, trivial⟩
  exact ⟨x, hx, fun y hy hyx => hmin ⟨y, hy⟩ trivial (.single hyx)⟩

end

variable {α : Type} [DecidableEq α]

structure KahnState (α : Type) where
  degree : α → Option Nat
  ready : List α
  sorted : List α

def relax (le : α → α → Prop) [DecidableRel le] (state : KahnState α) (v : α) : KahnState α :=
  match state.degree v with
  | none => state
  | some degree =>
    { state with
      degree := update state.degree v (some (degree - 1))
      ready := if degree - 1 = 0 then state.ready.orderedInsert le v else state.ready }

def kahn (le : α → α → Prop) [DecidableRel le] (next : α → List α) : Nat → KahnState α → KahnState α
  | 0, state => state
  | fuel + 1, state =>
    match state.ready with
    | [] => state
    | u :: rest =>
      kahn le next fuel
        ((next u).foldl (relax le) { state with ready := rest, sorted := state.sorted ++ [u] })

section Relax

variable {le : α → α → Prop} [DecidableRel le]

@[simp] theorem relax_sorted (state : KahnState α) (v : α) :
    (relax le state v).sorted = state.sorted := by
  unfold relax
  split <;> rfl

@[simp] theorem foldl_relax_sorted (vs : List α) (state : KahnState α) :
    (vs.foldl (relax le) state).sorted = state.sorted := by
  induction vs generalizing state with
  | nil => rfl
  | cons v vs ih => rw [foldl_cons, ih, relax_sorted]

/-- Relaxing along a list takes from each degree the number of times the node
occurs; the nodes that come to zero become ready, each once. -/
structure Relaxed (vs : List α) (state state' : KahnState α) : Prop where
  degree : ∀ v, state'.degree v = (state.degree v).map (· - vs.count v)
  ready : ∀ v, v ∈ state'.ready ↔ v ∈ state.ready ∨ v ∈ vs ∧ state.degree v = some (vs.count v)
  nodup : state'.ready.Nodup

theorem relaxed_relax {w : α} {state : KahnState α} (hnodup : state.ready.Nodup)
    (hnew : w ∉ state.ready) (hpos : ∀ degree, state.degree w = some degree → 0 < degree) :
    Relaxed [w] state (relax le state w) := by
  unfold relax
  cases hw : state.degree w with
  | none => exact ⟨fun v => by by_cases hwv : w = v <;> simp_all, by grind, hnodup⟩
  | some degree =>
    have hone : degree - 1 = 0 ↔ degree = 1 := by
      have := hpos degree hw
      omega
    refine ⟨fun v => ?_, fun v => ?_, ?_⟩
    · by_cases hvw : v = w
      · subst hvw; simp [hw]
      · simp [update_of_ne hvw, count_cons_of_ne (Ne.symm hvw)]
    · by_cases hdegree : degree = 1 <;> by_cases hvw : v = w <;> simp_all
    · dsimp only
      split
      · rw [(perm_orderedInsert le w state.ready).nodup_iff]
        exact nodup_cons.mpr ⟨hnew, hnodup⟩
      · exact hnodup

theorem Relaxed.cons {w : α} {vs : List α} {state state₁ state₂ : KahnState α}
    (h : Relaxed [w] state state₁) (h' : Relaxed vs state₁ state₂)
    (hcount : ∀ degree, state.degree w = some degree → vs.count w < degree) :
    Relaxed (w :: vs) state state₂ := by
  refine ⟨fun v => ?_, fun v => ?_, h'.nodup⟩
  · rw [h'.degree, h.degree, Option.map_map]
    congr 1
    funext degree
    simp only [comp_apply, count_cons, count_nil]
    omega
  · rw [h'.ready, h.ready, h.degree]
    by_cases hvw : v = w
    · subst hvw
      cases hv : state.degree v with
      | none => simp
      | some degree =>
        have hmore := hcount degree hv
        by_cases hmem : v ∈ vs
        · have := count_pos_iff.mpr hmem
          simp [hmem]
          grind
        · simp [hmem, count_eq_zero_of_not_mem hmem]
    · simp [hvw, count_cons_of_ne (Ne.symm hvw)]

theorem foldl_relaxed {vs : List α} {state : KahnState α} (hnodup : state.ready.Nodup)
    (hnew : ∀ v ∈ vs, v ∉ state.ready)
    (hcount : ∀ v degree, state.degree v = some degree → vs.count v ≤ degree) :
    Relaxed vs state (vs.foldl (relax le) state) := by
  induction vs generalizing state with
  | nil => exact ⟨by simp, by simp, hnodup⟩
  | cons w vs ih =>
    have hlow : ∀ degree, state.degree w = some degree → vs.count w < degree := fun degree hw => by
      simpa [count_cons_self, Nat.succ_le_iff] using hcount w degree hw
    have hstep : Relaxed [w] state (relax le state w) :=
      relaxed_relax hnodup (hnew w mem_cons_self) fun degree hw =>
        (Nat.zero_le _).trans_lt (hlow degree hw)
    refine hstep.cons (ih hstep.nodup ?_ ?_) hlow
    · intro v hv hmem
      -- a node that occurs again has not come to zero yet
      rcases (hstep.ready v).mp hmem with hold | ⟨hvw, hone⟩
      · exact hnew v (mem_cons_of_mem _ hv) hold
      · obtain rfl := mem_singleton.mp hvw
        have := count_pos_iff.mpr hv
        have := hlow _ hone
        simp only [count_singleton_self] at this
        omega
    · intro v degree hv
      rw [hstep.degree, Option.map_eq_some_iff] at hv
      obtain ⟨before, hbefore, rfl⟩ := hv
      have := hcount v before hbefore
      simp only [count_cons, count_nil] at this ⊢
      omega

end Relax

/-! ## The invariant -/

/-- The edges into `v` from nodes that are not emitted. -/
def pendingInto (edges : List (α × α)) (sorted : List α) (v : α) : Nat :=
  edges.countP fun e => e.2 = v ∧ e.1 ∉ sorted

/-- The nodes that the edges out of `u` lead to. -/
def successors (edges : List (α × α)) (u : α) : List α := (edges.filter fun e => e.1 = u).map (·.2)

theorem count_successors (edges : List (α × α)) (u v : α) :
    (successors edges u).count v = edges.countP fun e => e.2 = v ∧ e.1 = u := by
  induction edges with
  | nil => rfl
  | cons e edges ih =>
    unfold successors at ih ⊢
    rw [countP_cons, ← ih]
    by_cases hu : e.1 = u
    · by_cases hv : e.2 = v <;> simp [hu, hv]
    · simp [hu]

theorem pendingInto_snoc {edges : List (α × α)} {sorted : List α} {u : α} (hu : u ∉ sorted)
    (v : α) : pendingInto edges sorted v =
      pendingInto edges (sorted ++ [u]) v + (successors edges u).count v := by
  rw [count_successors]
  unfold pendingInto
  induction edges with
  | nil => rfl
  | cons e edges ih =>
    simp only [countP_cons, ih]
    by_cases hv : e.2 = v
    · by_cases heu : e.1 = u
      · simp [hv, heu, hu]; omega
      · by_cases hs : e.1 ∈ sorted <;> simp [hv, heu, hs]; omega
    · simp [hv]

def Before (order : List α) (a b : α) : Prop := ∃ l r, order = l ++ b :: r ∧ a ∈ l

omit [DecidableEq α] in
theorem Before.append {order : List α} {a b : α} (h : Before order a b) (more : List α) :
    Before (order ++ more) a b := by
  obtain ⟨l, r, rfl, ha⟩ := h
  exact ⟨l, r ++ more, by simp, ha⟩

structure KahnInv (nodes : List α) (edges : List (α × α)) (state : KahnState α) : Prop where
  degree : ∀ v, state.degree v =
    if v ∈ nodes then some (pendingInto edges state.sorted v) else none
  ready : ∀ v, v ∈ state.ready ↔
    v ∈ nodes ∧ v ∉ state.sorted ∧ pendingInto edges state.sorted v = 0
  readyNodup : state.ready.Nodup
  sortedNodup : state.sorted.Nodup
  sub : state.sorted ⊆ nodes
  before : ∀ e ∈ edges, e.2 ∈ state.sorted → Before state.sorted e.1 e.2

theorem pendingInto_eq_zero {edges : List (α × α)} {sorted : List α} {v : α} :
    pendingInto edges sorted v = 0 ↔ ∀ e ∈ edges, e.2 = v → e.1 ∈ sorted := by
  rw [pendingInto, countP_eq_zero]
  simp

section Loop

variable {le : α → α → Prop} [DecidableRel le] {nodes : List α} {edges : List (α × α)}
variable {state : KahnState α}

theorem KahnInv.successor_new (h : KahnInv nodes edges state) {u v : α} (hu : u ∈ state.ready)
    (hv : v ∈ successors edges u) : v ∉ state.ready ∧ v ∉ state.sorted := by
  have husorted : u ∉ state.sorted := ((h.ready u).mp hu).2.1
  obtain ⟨e, he, rfl⟩ := mem_map.mp hv
  obtain ⟨hedge, heu⟩ := mem_filter.mp he
  have heu : e.1 = u := by simpa using heu
  constructor
  · intro hready
    have hpending := ((h.ready e.2).mp hready).2.2
    exact husorted (heu ▸ pendingInto_eq_zero.mp hpending e hedge rfl)
  · intro hsorted
    obtain ⟨l, r, horder, hmem⟩ := h.before e hedge hsorted
    exact husorted (by rw [horder, ← heu]; exact mem_append_left _ hmem)

theorem KahnInv.step (h : KahnInv nodes edges state) {u : α} {rest : List α}
    (hready : state.ready = u :: rest) :
    KahnInv nodes edges ((successors edges u).foldl (relax le)
      { state with ready := rest, sorted := state.sorted ++ [u] }) := by
  have hu : u ∈ state.ready := hready ▸ mem_cons_self
  obtain ⟨hunode, husorted, hupending⟩ := (h.ready u).mp hu
  obtain ⟨hurest, hrest⟩ := nodup_cons.mp (hready ▸ h.readyNodup)
  have hsplit := @pendingInto_snoc _ _ edges state.sorted u husorted
  have hmemready : ∀ v, v ∈ state.ready ↔ v = u ∨ v ∈ rest := fun v => by simp [hready]
  obtain ⟨hdegree', hready', hnodup'⟩ := @foldl_relaxed _ _ le _ (successors edges u)
    { state with ready := rest, sorted := state.sorted ++ [u] } hrest
    (fun v hv hmem => (h.successor_new hu hv).1 ((hmemready v).mpr (.inr hmem)))
    (fun v degree hv => by
      have hv : state.degree v = some degree := hv
      rw [h.degree] at hv
      have := hsplit v
      split at hv
      · cases hv; omega
      · cases hv)
  refine ⟨fun v => ?_, fun v => ?_, hnodup', ?_, ?_, ?_⟩
  · rw [hdegree', foldl_relax_sorted]
    show (state.degree v).map _ = _
    rw [h.degree, hsplit v]
    split <;> simp
  · rw [hready', foldl_relax_sorted]
    show v ∈ rest ∨ v ∈ successors edges u ∧ state.degree v = _ ↔ _
    have hv := hsplit v
    have hcount : v ∈ successors edges u ↔ 0 < (successors edges u).count v := count_pos_iff.symm
    have hnew : v ∈ successors edges u → v ∉ state.ready ∧ v ∉ state.sorted := h.successor_new hu
    have hone := h.ready v
    have hdeg := h.degree v
    rw [hmemready] at hone hnew
    simp only [mem_append, mem_singleton]
    grind
  · rw [foldl_relax_sorted]
    simpa [nodup_append] using ⟨h.sortedNodup, fun a ha hau => husorted (hau ▸ ha)⟩
  · rw [foldl_relax_sorted]
    exact append_subset.mpr ⟨h.sub, by simpa using hunode⟩
  · rw [foldl_relax_sorted]
    intro e he hmem
    rcases mem_append.mp hmem with hold | hnew
    · exact (h.before e he hold).append [u]
    · have heu : e.2 = u := mem_singleton.mp hnew
      exact ⟨state.sorted, [], by rw [heu], pendingInto_eq_zero.mp hupending e he heu⟩

theorem kahn_inv {state : KahnState α} (h : KahnInv nodes edges state) (fuel : Nat) :
    KahnInv nodes edges (kahn le (successors edges) fuel state) ∧
      ((kahn le (successors edges) fuel state).ready = [] ∨
        state.sorted.length + fuel ≤ (kahn le (successors edges) fuel state).sorted.length) := by
  induction fuel generalizing state with
  | zero => exact ⟨h, .inr le_rfl⟩
  | succ fuel ih =>
    rw [kahn]
    cases hready : state.ready with
    | nil => exact ⟨h, .inl hready⟩
    | cons u rest =>
      have hstep : KahnInv nodes edges ((successors edges u).foldl (relax le) _) := h.step hready
      obtain ⟨hinv, hend⟩ := ih hstep
      refine ⟨hinv, hend.imp_right fun hlen => ?_⟩
      simp only [foldl_relax_sorted, length_append, length_singleton] at hlen
      calc state.sorted.length + (fuel + 1) = state.sorted.length + 1 + fuel := by omega
        _ ≤ _ := hlen

theorem kahn_ready_eq_nil (h : KahnInv nodes edges state) {fuel : Nat}
    (hfuel : nodes.length ≤ fuel) : (kahn le (successors edges) fuel state).ready = [] := by
  obtain ⟨hinv, hready | hlen⟩ := @kahn_inv _ _ le _ nodes edges state h fuel
  · exact hready
  · -- as many nodes are emitted as there are, so each of them is
    have hperm := (hinv.sortedNodup.subperm hinv.sub).perm_of_length_le (by omega)
    refine eq_nil_iff_forall_not_mem.mpr fun v hv => ?_
    obtain ⟨hnode, hsorted, -⟩ := (hinv.ready v).mp hv
    exact hsorted (hperm.mem_iff.mpr hnode)

theorem KahnInv.perm (h : KahnInv nodes edges state) (hready : state.ready = [])
    (hacyclic : Acyclic fun a b => (a, b) ∈ edges) (hends : ∀ e ∈ edges, e.1 ∈ nodes)
    (hnodes : nodes.Nodup) : state.sorted.Perm nodes := by
  have hall : nodes.filter (· ∉ state.sorted) = [] := by
    by_contra hne
    obtain ⟨x, hx, hsource⟩ := hacyclic.exists_source hne
    simp only [mem_filter, decide_eq_true_eq] at hx hsource
    have hpending : pendingInto edges state.sorted x ≠ 0 := by
      intro hzero
      have : x ∈ state.ready := (h.ready x).mpr ⟨hx.1, hx.2, hzero⟩
      simp [hready] at this
    rw [ne_eq, pendingInto_eq_zero] at hpending
    push Not at hpending
    obtain ⟨e, he, rfl, hsorted⟩ := hpending
    exact hsource e.1 ⟨hends e he, hsorted⟩ he
  refine (perm_ext_iff_of_nodup h.sortedNodup hnodes).mpr fun v => ⟨fun hv => h.sub hv, ?_⟩
  intro hv
  by_contra hsorted
  have hmem : v ∈ nodes.filter (· ∉ state.sorted) := by simpa using ⟨hv, hsorted⟩
  rw [hall] at hmem
  cases hmem

/-! ## The start -/

def inDegrees (nodes : List α) (edges : List (α × α)) : α → Option Nat :=
  edges.foldl (fun degree e => update degree e.2 ((degree e.2).map (· + 1)))
    fun v => if v ∈ nodes then some 0 else none

theorem inDegrees_eq (nodes : List α) (edges : List (α × α)) (v : α) :
    inDegrees nodes edges v = if v ∈ nodes then some (pendingInto edges [] v) else none := by
  have hfold : ∀ (edges : List (α × α)) (degree : α → Option Nat),
      edges.foldl (fun degree e => update degree e.2 ((degree e.2).map (· + 1))) degree v =
        (degree v).map (· + pendingInto edges [] v) := by
    intro edges
    induction edges with
    | nil => intro degree; simp [pendingInto]
    | cons e edges ih =>
      intro degree
      rw [foldl_cons, ih]
      by_cases hv : e.2 = v
      · subst hv
        cases degree e.2 <;> simp [pendingInto]; omega
      · simp [pendingInto, hv, update_of_ne (Ne.symm hv)]
  rw [inDegrees, hfold]
  split <;> simp

def kahnStart (le : α → α → Prop) [DecidableRel le] (nodes : List α) (edges : List (α × α)) :
    KahnState α where
  degree := inDegrees nodes edges
  ready := (nodes.filter fun v => inDegrees nodes edges v = some 0).insertionSort le
  sorted := []

theorem kahnStart_inv (hnodes : nodes.Nodup) :
    KahnInv nodes edges (kahnStart le nodes edges) where
  degree v := inDegrees_eq nodes edges v
  ready v := by
    simp only [kahnStart, mem_insertionSort, mem_filter, decide_eq_true_eq, inDegrees_eq]
    by_cases hv : v ∈ nodes <;> simp [hv]
  readyNodup := (perm_insertionSort _ _).nodup_iff.mpr (hnodes.filter _)
  sortedNodup := nodup_nil
  sub := by simp [kahnStart]
  before := by simp [kahnStart]

theorem kahn_sorts (hnodes : nodes.Nodup) (hends : ∀ e ∈ edges, e ∈ nodes.product nodes)
    (hacyclic : Acyclic fun a b => (a, b) ∈ edges) :
    let order := (kahn le (successors edges) nodes.length (kahnStart le nodes edges)).sorted
    order.Perm nodes ∧ ∀ e ∈ edges, Before order e.1 e.2 := by
  have hstart : KahnInv nodes edges (kahnStart le nodes edges) := kahnStart_inv hnodes
  have hinv := (@kahn_inv _ _ le _ _ _ _ hstart nodes.length).1
  have hperm := hinv.perm (kahn_ready_eq_nil hstart le_rfl) hacyclic
    (fun e he => (mem_product.mp (hends e he)).1) hnodes
  exact ⟨hperm, fun e he => hinv.before e he (hperm.mem_iff.mpr (mem_product.mp (hends e he)).2)⟩

end Loop

end BittyAi.Lib
