/-
BittyAi.Slice.MergeBaseTheorems — what the strict merge base is.
-/
import BittyAi.Session.FastForwardTheorems
import BittyAi.Slice.Merge

namespace BittyAi.Slice

open Lib Session Session.ContentHash ContentStore List

variable {store : ContentStore} {root : ContentHash}
variable {seen : List ContentHash} {hash : ContentHash}

/-! ## The walk back -/

theorem ancestorStep_cases {seen' pushed : List ContentHash} {current : ContentHash}
    (h : ancestorStep store root seen current = .ok (seen', pushed)) :
    (seen' = seen ∧ pushed = [] ∧ current ∈ seen) ∨
    ∃ row ∈ store.checkpoints.rows, row.hash = current.toHex ∧ current ∉ seen ∧
      seen' = seen ++ [current] ∧
      pushed = (rowParents row).filter (· ∉ seen ++ [current]) := by
  unfold ancestorStep at h
  split at h
  next hseen =>
    cases h
    exact .inl ⟨rfl, rfl, hseen⟩
  next hnew =>
    simp only [bind_eq_ok, mapError_eq_ok] at h
    obtain ⟨checkpoint, hget, h⟩ := h
    cases checkpoint with
    | none => cases h
    | some checkpoint =>
      obtain ⟨row, hrow, hhash, hparents, -⟩ := getCheckpoint_some hget
      simp only [pure_eq_ok, Prod.mk.injEq] at h
      obtain ⟨rfl, rfl⟩ := h
      exact .inr ⟨row, hrow, hhash, hnew, rfl, by rw [hparents]⟩

structure Tracing (store : ContentStore) (root : ContentHash) (seen queue : List ContentHash) :
    Prop where
  walked : Walked store.parentsOf (fun _ => False) [root] seen queue
  stored : ∀ hash ∈ seen, store.hasCheckpoint hash = true
  distinct : seen.Nodup

theorem Tracing.sound {queue : List ContentHash} (h : Tracing store root seen queue)
    (hmet : hash ∈ seen ∨ hash ∈ queue) : store.Ancestor hash root := by
  simpa [ContentStore.Ancestor] using h.walked.sound hash hmet

theorem Tracing.see {rest : List ContentHash} {current : ContentHash}
    (h : Tracing store root seen (current :: rest)) (hnew : current ∉ seen) {row : CheckpointRow}
    (hrow : row ∈ store.checkpoints.rows) (hhash : row.hash = current.toHex) :
    Tracing store root (seen ++ [current])
      (rest ++ (rowParents row).filter (· ∉ seen ++ [current])) := by
  rw [← parentsOf_of_mem hrow hhash]
  refine ⟨h.walked.see, forall_mem_append.mpr ⟨h.stored, forall_mem_singleton.mpr ?_⟩, ?_⟩
  · exact hasCheckpoint_eq_true.mpr ⟨row, hrow, hhash⟩
  · simpa [nodup_append, h.distinct] using fun x hx => ne_of_mem_of_not_mem hx hnew

theorem ancestorSet_ends :
    Ends (ancestorStep store root) (Tracing store root) (ancestorSet store root) := by
  refine @work_rows_rule _ _ _ _ _ _ CheckpointRow.hash (fun row => (rowParents row).length) _ _
    (fun seen => seen.map toHex) store.checkpoints.rows ?_ _ _ _ ?_
    ⟨walked_start, by simp, nodup_nil⟩
  · intro seen current rest seen' pushed hI hstep
    rcases ancestorStep_cases hstep with ⟨rfl, rfl, hseen⟩ | ⟨row, hrow, hhash, hnew, rfl, rfl⟩
    · simpa using { hI with walked := hI.walked.drop (.inl hseen) }
    · refine ⟨hI.see hnew hrow hhash, .inr ⟨row, hrow, ?_, by simp [hhash], ?_⟩⟩
      · simpa [hhash, toHex_inj] using hnew
      · exact length_filter_le _ _
  · simp [unseenWeight_eq]

theorem ancestorSet_tracing (h : ancestorSet store root = .ok seen) :
    Tracing store root seen [] := by
  have hends := @ancestorSet_ends store root
  rwa [h] at hends

theorem ancestorSet_iff
    (h : ancestorSet store root = .ok seen) : hash ∈ seen ↔ store.Ancestor hash root := by
  have htracing := ancestorSet_tracing h
  refine ⟨fun hmem => htracing.sound (.inl hmem), fun hchain => ?_⟩
  induction hchain with
  | refl => simpa using htracing.walked.rooted root mem_cons_self
  | tail _ hlink ih => simpa using htracing.walked.closed _ ih _ hlink

/-! ## The base -/

def CommonAncestor (store : ContentStore) (a b hash : ContentHash) : Prop :=
  store.Ancestor hash a ∧ store.Ancestor hash b

structure StrictBase (store : ContentStore) (a b base : ContentHash) : Prop where
  common : CommonAncestor store a b base
  lowest : a ≠ b → ∀ other, CommonAncestor store a b other → base ≠ other →
    ¬store.Ancestor base other
  only : ∀ other, CommonAncestor store a b other → other ≠ base →
    ∃ lower, CommonAncestor store a b lower ∧ other ≠ lower ∧ store.Ancestor other lower

def Lowest (store : ContentStore) (a b hash : ContentHash) : Prop :=
  CommonAncestor store a b hash ∧
    ∀ other, CommonAncestor store a b other → hash ≠ other → ¬store.Ancestor hash other

/-- What the lowest common ancestors make of a call: one is the base, none are two histories
apart, and several are a history that crosses. -/
inductive Verdict (store : ContentStore) (a b : ContentHash) :
    Except MergeError ContentHash → Prop
  | base (hash : ContentHash) (h : ∀ x, Lowest store a b x ↔ x = hash) :
    Verdict store a b (.ok hash)
  | apart (h : ∀ x, ¬CommonAncestor store a b x) : Verdict store a b (.error .noCommonAncestor)
  | crossed (x y : ContentHash) (hx : Lowest store a b x) (hy : Lowest store a b y) (hne : x ≠ y) :
    Verdict store a b (.error .crissCrossHistory)

variable {a b : ContentHash}

theorem Lowest.symm (h : Lowest store a b hash) : Lowest store b a hash :=
  ⟨h.1.symm, fun other hother => h.2 other hother.symm⟩

theorem Verdict.unique {result result' : Except MergeError ContentHash}
    (h : Verdict store a b result) (h' : Verdict store a b result') : result = result' := by
  have hone : ∀ hash x y, (∀ z, Lowest store a b z ↔ z = hash) → Lowest store a b x →
      Lowest store a b y → x = y :=
    fun hash x y hbase hx hy => ((hbase x).mp hx).trans ((hbase y).mp hy).symm
  cases h with
  | base hash hbase =>
    have hlow : Lowest store a b hash := (hbase hash).mpr rfl
    cases h' with
    | base hash' hbase' => rw [(hbase' hash).mp hlow]
    | apart hnone => exact absurd hlow.1 (hnone hash)
    | crossed x y hx hy hne => exact absurd (hone hash x y hbase hx hy) hne
  | apart hnone =>
    cases h' with
    | base hash hbase => exact absurd ((hbase hash).mpr rfl).1 (hnone hash)
    | apart => rfl
    | crossed x y hx => exact absurd hx.1 (hnone x)
  | crossed x y hx hy hne =>
    cases h' with
    | base hash hbase => exact absurd (hone hash x y hbase hx hy) hne
    | apart hnone => exact absurd hx.1 (hnone x)
    | crossed => rfl

theorem Verdict.symm {result : Except MergeError ContentHash} (h : Verdict store a b result) :
    Verdict store b a result := by
  cases h with
  | base hash hbase => exact .base hash fun x => ⟨fun hx => (hbase x).mp hx.symm,
      fun hx => ((hbase x).mpr hx).symm⟩
  | apart hnone => exact .apart fun x hx => hnone x (And.symm hx)
  | crossed x y hx hy hne => exact .crossed x y hx.symm hy.symm hne

theorem mem_ancestorSets {candidates : List ContentHash}
    {perNode : List (ContentHash × List ContentHash)}
    (h : ancestorSets store candidates = .ok perNode) {candidate : ContentHash} :
    (∃ node ∈ perNode, candidate ≠ node.1 ∧ candidate ∈ node.2) ↔
      ∃ other ∈ candidates, candidate ≠ other ∧ store.Ancestor candidate other := by
  induction candidates generalizing perNode with
  | nil =>
    cases h
    simp
  | cons first rest ih =>
    simp only [ancestorSets, bind_eq_ok, pure_eq_ok] at h
    obtain ⟨ancestors, hancestors, others, hothers, rfl⟩ := h
    simp only [exists_mem_cons_iff, ih hothers, ancestorSet_iff hancestors]

theorem strictMergeBase_cases {ancestorsA ancestorsB : List ContentHash} (hne : a ≠ b)
    (hA : ancestorSet store a = .ok ancestorsA) (hB : ancestorSet store b = .ok ancestorsB) :
    Verdict store a b (strictMergeBase store a b) ∨
    (∃ e, ancestorSets store (ancestorsA.filter (· ∈ ancestorsB)) = .error e ∧
      strictMergeBase store a b = .error e) ∨
    (strictMergeBase store a b = .error .corrupt ∧
      (∃ x, CommonAncestor store a b x) ∧ ∀ x, ¬Lowest store a b x) := by
  have hcommon : ∀ hash, hash ∈ ancestorsA.filter (· ∈ ancestorsB) ↔
      CommonAncestor store a b hash := by
    intro hash
    simp only [mem_filter, decide_eq_true_eq, ancestorSet_iff hA, ancestorSet_iff hB,
      CommonAncestor]
  have hnodup : (ancestorsA.filter (· ∈ ancestorsB)).Nodup :=
    (ancestorSet_tracing hA).distinct.filter _
  simp only [strictMergeBase, hne, if_false, hA, hB, bind, Except.bind, pure, Except.pure]
  generalize ancestorsA.filter (· ∈ ancestorsB) = common at hcommon hnodup
  split
  next => exact .inl (.apart fun x hx => by simpa using (hcommon x).mpr hx)
  next only =>
    have heq : ∀ x, CommonAncestor store a b x ↔ x = only := by
      simpa [eq_comm] using fun x => (hcommon x).symm
    refine .inl (.base only fun x => ⟨fun hx => (heq x).mp hx.1, ?_⟩)
    rintro rfl
    exact ⟨(heq x).mpr rfl, fun other hother hne => absurd ((heq other).mp hother).symm hne⟩
  next hnil _ =>
    cases hsets : ancestorSets store common with
    | error e => exact .inr (.inl ⟨e, rfl, rfl⟩)
    | ok perNode =>
      dsimp only
      generalize hsort : (common.filter fun candidate =>
        ¬∃ other ∈ perNode, candidate ≠ other.1 ∧ candidate ∈ other.2).insertionSort (· ≤ ·) =
          minimal
      have hminimal : ∀ hash, hash ∈ minimal ↔ Lowest store a b hash := by
        intro hash
        rw [← hsort, mem_insertionSort, mem_filter, decide_eq_true_eq,
          mem_ancestorSets hsets, hcommon]
        simp [hcommon, Lowest]
      have hdistinct : minimal.Nodup := by
        rw [← hsort, (perm_insertionSort _ _).nodup_iff]
        exact hnodup.filter _
      rcases minimal with _ | ⟨x, _ | ⟨y, rest⟩⟩
      · obtain ⟨x, hx⟩ := exists_mem_of_ne_nil common hnil
        exact .inr (.inr ⟨rfl, ⟨x, (hcommon x).mp hx⟩, by simpa using hminimal⟩)
      · exact .inl (.base x fun y => by simpa using (hminimal y).symm)
      · refine .inl (.crossed x y ((hminimal x).mp ?_) ((hminimal y).mp ?_) ?_)
        · exact mem_cons_self
        · exact mem_cons_of_mem _ mem_cons_self
        · exact fun heq => (nodup_cons.mp hdistinct).1 (heq ▸ mem_cons_self)

theorem strictMergeBase_spec {base : ContentHash} (h : strictMergeBase store a b = .ok base) :
    StrictBase store a b base := by
  by_cases heq : a = b
  · subst heq
    simp only [strictMergeBase, if_true, bind_eq_ok, mapError_eq_ok] at h
    obtain ⟨checkpoint, -, h⟩ := h
    cases checkpoint with
    | none => cases h
    | some checkpoint =>
      obtain rfl := pure_eq_ok.mp h
      exact ⟨⟨.refl, .refl⟩, fun hne => absurd rfl hne,
        fun other hother hne => ⟨a, ⟨.refl, .refl⟩, hne, hother.1⟩⟩
  · have hsets := h
    simp only [strictMergeBase, heq, if_false, bind_eq_ok] at hsets
    obtain ⟨ancestorsA, hA, ancestorsB, hB, -⟩ := hsets
    have hcases := strictMergeBase_cases heq hA hB
    rw [h] at hcases
    rcases hcases with hverdict | ⟨e, -, he⟩ | ⟨he, -⟩
    · cases hverdict with
      | base _ hlowest =>
        obtain ⟨hcommon, hbase⟩ := (hlowest base).mpr rfl
        refine ⟨hcommon, fun _ => hbase, fun other hother hne => ?_⟩
        by_contra hnone
        refine hne ((hlowest other).mp ⟨hother, fun lower hlower hne' hchain => ?_⟩)
        exact hnone ⟨lower, hlower, hne', hchain⟩
    · cases he
    · cases he

/-! ## Closed acyclic histories -/

/-- A history in which every checkpoint reads back, its parents are stored, and none of them
descends from it. -/
structure ClosedDag (store : ContentStore) : Prop where
  readable : store.Readable
  closed : ∀ hash parent, parent ∈ store.parentsOf hash → store.hasCheckpoint parent = true
  acyclic : ∀ hash parent, parent ∈ store.parentsOf hash → ¬store.Ancestor hash parent

theorem closedDag_of_ordered (hread : store.Readable)
    (hordered : ∀ row ∈ store.checkpoints.rows, ∀ parent ∈ rowParents row,
      store.checkpoints.rows.findIdx (·.hash = parent.toHex) <
        store.checkpoints.rows.findIdx (·.hash = row.hash)) : ClosedDag store := by
  let place : ContentHash → Nat := fun hash => store.checkpoints.rows.findIdx (·.hash = hash.toHex)
  have hlink : ∀ hash parent, parent ∈ store.parentsOf hash → place parent < place hash := by
    intro hash parent hparent
    obtain ⟨row, hrow, hhash⟩ := hasCheckpoint_eq_true.mp (hasCheckpoint_of_mem_parentsOf hparent)
    rw [parentsOf_of_mem hrow hhash] at hparent
    simpa [place, hhash] using hordered row hrow parent hparent
  have hchain : ∀ x y, store.Ancestor x y → place x ≤ place y := by
    intro x y h
    induction h with
    | refl => exact le_rfl
    | tail _ hparent ih => exact (hlink _ _ hparent).le.trans ih
  refine ⟨hread, fun hash parent hparent => ?_, fun hash parent hparent hcycle => ?_⟩
  · have hplace : place parent < store.checkpoints.rows.length :=
      (hlink hash parent hparent).trans_le findIdx_le_length
    simpa [hasCheckpoint_eq_true] using findIdx_lt_length.mp hplace
  · exact absurd (hlink hash parent hparent) (hchain _ _ hcycle).not_gt

theorem closedDag_mergeStore : ClosedDag mergeStore :=
  closedDag_of_ordered readable_mergeStore (by decide +kernel)

section ClosedDag

variable (h : ClosedDag store)
include h

theorem ClosedDag.antisymm {x y : ContentHash} (hxy : store.Ancestor x y)
    (hyx : store.Ancestor y x) : x = y := by
  rcases Relation.ReflTransGen.cases_head hxy with rfl | ⟨parent, hparent, hchain⟩
  · rfl
  · exact absurd (hchain.trans hyx) (h.acyclic y parent hparent)

theorem ClosedDag.stored (hroot : store.hasCheckpoint root = true)
    (hchain : store.Ancestor hash root) : store.hasCheckpoint hash = true := by
  cases hchain with
  | refl => exact hroot
  | tail _ hlink => exact h.closed _ _ hlink

theorem ClosedDag.getCheckpoint (hstored : store.hasCheckpoint hash = true) :
    ∃ checkpoint, store.getCheckpoint hash = .ok (some checkpoint) := by
  have hread := h.readable.readParents hash
  simp only [readParents, bind_eq_ok] at hread
  obtain ⟨checkpoint, hget, -⟩ := hread
  cases checkpoint with
  | none => simp [getCheckpoint_none hget] at hstored
  | some checkpoint => exact ⟨checkpoint, hget⟩

theorem ClosedDag.ancestorSet (hroot : store.hasCheckpoint root = true) :
    ∃ seen, ancestorSet store root = .ok seen := by
  have hends := @ancestorSet_ends store root
  cases hset : Slice.ancestorSet store root with
  | ok seen => exact ⟨seen, rfl⟩
  | error e =>
    rw [hset] at hends
    obtain ⟨seen, current, rest, htracing, hstep⟩ := hends
    obtain ⟨checkpoint, hget⟩ :=
      h.getCheckpoint (h.stored hroot (htracing.sound (.inr mem_cons_self)))
    simp only [ancestorStep, hget] at hstep
    split at hstep <;> cases hstep

theorem ClosedDag.ancestorSets {hashes : List ContentHash}
    (hstored : ∀ hash ∈ hashes, store.hasCheckpoint hash = true) :
    ∃ perNode, ancestorSets store hashes = .ok perNode := by
  induction hashes with
  | nil => exact ⟨[], rfl⟩
  | cons first rest ih =>
    obtain ⟨seen, hseen⟩ := h.ancestorSet (hstored first mem_cons_self)
    obtain ⟨perNode, hrest⟩ := ih fun hash hmem => hstored hash (mem_cons_of_mem _ hmem)
    exact ⟨(first, seen) :: perNode, by
      simp [Slice.ancestorSets, hseen, hrest, bind, Except.bind, pure, Except.pure]⟩

/-- Two histories that meet have a lowest common ancestor: a walk has finitely many, and
none is its own proper ancestor. -/
theorem ClosedDag.exists_lowest (hroot : store.hasCheckpoint a = true)
    (hmeet : ∃ x, CommonAncestor store a b x) : ∃ x, Lowest store a b x := by
  obtain ⟨seen, hseen⟩ := h.ancestorSet hroot
  have hfinite : Finite {x // CommonAncestor store a b x} :=
    Set.Finite.subset seen.finite_toSet fun x hx => (ancestorSet_iff hseen).mpr hx.1
  let Below : {x // CommonAncestor store a b x} → {x // CommonAncestor store a b x} → Prop :=
    fun x y => y.1 ≠ x.1 ∧ store.Ancestor y.1 x.1
  have : IsTrans _ Below := ⟨fun x y z hxy hyz =>
    ⟨fun heq => hxy.1 (h.antisymm hxy.2 (heq ▸ hyz.2)), hxy.2.trans hyz.2⟩⟩
  have : Std.Irrefl Below := ⟨fun x hx => hx.1 rfl⟩
  obtain ⟨x, hx⟩ := hmeet
  obtain ⟨low, -, hlow⟩ :=
    (Finite.wellFounded_of_trans_of_irrefl Below).has_min Set.univ ⟨⟨x, hx⟩, trivial⟩
  exact ⟨low.1, low.2, fun other hother hne hchain => hlow ⟨other, hother⟩ trivial ⟨hne, hchain⟩⟩

theorem ClosedDag.verdict (ha : store.hasCheckpoint a = true)
    (hb : store.hasCheckpoint b = true) : Verdict store a b (strictMergeBase store a b) := by
  by_cases heq : a = b
  · subst heq
    obtain ⟨checkpoint, hget⟩ := h.getCheckpoint ha
    have hbase : strictMergeBase store a a = .ok a := by
      simp [strictMergeBase, hget, bind, Except.bind, pure, Except.pure]
    rw [hbase]
    refine .base a fun x => ⟨fun hx => ?_, ?_⟩
    · by_contra hne
      exact hx.2 a ⟨.refl, .refl⟩ hne hx.1.1
    · rintro rfl
      exact ⟨⟨.refl, .refl⟩, fun other hother hne hchain => hne (h.antisymm hchain hother.1)⟩
  · obtain ⟨ancestorsA, hA⟩ := h.ancestorSet ha
    obtain ⟨ancestorsB, hB⟩ := h.ancestorSet hb
    rcases strictMergeBase_cases heq hA hB with hverdict | ⟨e, hsets, -⟩ | ⟨-, hmeet, hnone⟩
    · exact hverdict
    · have hstored : ∀ hash ∈ ancestorsA.filter (· ∈ ancestorsB), store.hasCheckpoint hash = true :=
        fun hash hmem => (ancestorSet_tracing hA).stored hash (mem_filter.mp hmem).1
      obtain ⟨perNode, hok⟩ := h.ancestorSets hstored
      simp [hok] at hsets
    · obtain ⟨x, hx⟩ := h.exists_lowest ha hmeet
      exact absurd hx (hnone x)

end ClosedDag

/-- On a closed acyclic history the strict merge base of two stored checkpoints is the only lowest
common ancestor; without one the histories are apart, with several they cross. -/
theorem strict_merge_base_exact (h : ClosedDag store) (ha : store.hasCheckpoint a = true)
    (hb : store.hasCheckpoint b = true) :
    (∀ x, strictMergeBase store a b = .ok x ↔ ∀ y, Lowest store a b y ↔ y = x) ∧
    (strictMergeBase store a b = .error .noCommonAncestor ↔ ∀ x, ¬CommonAncestor store a b x) ∧
    (strictMergeBase store a b = .error .crissCrossHistory ↔
      ∃ x y, Lowest store a b x ∧ Lowest store a b y ∧ x ≠ y) ∧
    strictMergeBase store a b ≠ .error .corrupt ∧
    strictMergeBase store a b = strictMergeBase store b a := by
  have hverdict := h.verdict ha hb
  refine ⟨fun x => ⟨fun hx => ?_, fun hx => hverdict.unique (.base x hx)⟩,
    ⟨fun hx => ?_, fun hx => hverdict.unique (.apart hx)⟩, ⟨fun hx => ?_, ?_⟩,
    fun hx => ?_, hverdict.unique (h.verdict hb ha).symm⟩
  · rw [hx] at hverdict
    cases hverdict with
    | base _ hbase => exact hbase
  · rw [hx] at hverdict
    cases hverdict with
    | apart hnone => exact hnone
  · rw [hx] at hverdict
    cases hverdict with
    | crossed x y hlow hlow' hne => exact ⟨x, y, hlow, hlow', hne⟩
  · rintro ⟨x, y, hlow, hlow', hne⟩
    exact hverdict.unique (.crossed x y hlow hlow' hne)
  · rw [hx] at hverdict
    cases hverdict

theorem strict_merge_base_exact_mergeStore :
    ((∀ x, strictMergeBase mergeStore tipHash mergeHash = .ok x ↔
        ∀ y, Lowest mergeStore tipHash mergeHash y ↔ y = x) ∧
      (strictMergeBase mergeStore tipHash mergeHash = .error .noCommonAncestor ↔
        ∀ x, ¬CommonAncestor mergeStore tipHash mergeHash x) ∧
      (strictMergeBase mergeStore tipHash mergeHash = .error .crissCrossHistory ↔
        ∃ x y, Lowest mergeStore tipHash mergeHash x ∧ Lowest mergeStore tipHash mergeHash y ∧
          x ≠ y) ∧
      strictMergeBase mergeStore tipHash mergeHash ≠ .error .corrupt ∧
      strictMergeBase mergeStore tipHash mergeHash =
        strictMergeBase mergeStore mergeHash tipHash) ∧
    strictMergeBase mergeStore tipHash mergeHash = .ok tipHash :=
  ⟨strict_merge_base_exact closedDag_mergeStore (by decide +kernel) (by decide +kernel),
    by decide +kernel⟩

/-! ## The two merge bases -/

/-- What `merge_base` promises of a pair of tips: a lowest common ancestor, none only without
a common ancestor, and the strict base if there is one. -/
def Agrees (store : ContentStore) (a b : ContentHash) : Prop :=
  ∃ result, store.mergeBase a b = .ok result ∧ (∀ x, result = some x → Lowest store a b x) ∧
    (result = none ↔ ∀ x, ¬CommonAncestor store a b x) ∧
    ∀ x, strictMergeBase store a b = .ok x → result = some x

/-- Each chain of parent links from `b` to a common ancestor that is not a lowest one is later
than some chain to a lowest one. -/
def LowestFirst (store : ContentStore) (a b : ContentHash) : Prop :=
  ∀ ρ y, follow store.parentsOf b ρ = some y → store.Ancestor y a → ¬Lowest store a b y →
    ∃ π x, follow store.parentsOf b π = some x ∧ Lowest store a b x ∧ Sooner π ρ

/-- The merge base is as promised exactly if a lowest common ancestor is nearest to the
second tip. -/
theorem merge_base_agrees_iff (h : ClosedDag store) (a b : ContentHash) :
    Agrees store a b ↔ LowestFirst store a b := by
  constructor
  · rintro ⟨result, hbase, hlowest, hnone, -⟩ ρ y hρ hy hnot
    have hcommon : CommonAncestor store a b y := ⟨hy, exists_follow_iff.mp ⟨ρ, hρ⟩⟩
    rcases mergeBase_readable h.readable a b with ⟨-, hapart⟩ | ⟨x, hx, π, hπ, -, hleast⟩
    · exact absurd hcommon.1 (hapart y hcommon.2)
    · have hlow : Lowest store a b x := hlowest x (Except.ok.inj (hbase.symm.trans hx))
      refine ⟨π, x, hπ, hlow, ?_⟩
      rcases Sooner.trichotomy π ρ with hsooner | rfl | hlater
      · exact hsooner
      · obtain rfl := Option.some.inj (hπ.symm.trans hρ)
        exact absurd hlow hnot
      · exact absurd hlater (hleast ρ y hρ hy)
  · intro hfirst
    rcases mergeBase_readable h.readable a b with ⟨hbase, hapart⟩ | ⟨x, hbase, π, hπ, hx, hleast⟩
    · have hnone : ∀ x, ¬CommonAncestor store a b x := fun x hx => hapart x hx.2 hx.1
      exact ⟨none, hbase, by simp, by simp [hnone],
        fun x hx => absurd (strictMergeBase_spec hx).common (hnone x)⟩
    · have hcommon : CommonAncestor store a b x := ⟨hx, exists_follow_iff.mp ⟨π, hπ⟩⟩
      have hlow : Lowest store a b x := by
        by_contra hnot
        obtain ⟨σ, y, hσ, hy, hsooner⟩ := hfirst π x hπ hx hnot
        exact hleast σ y hσ hy.1.1 hsooner
      refine ⟨some x, hbase, ?_, ?_, fun base hstrict => ?_⟩
      · rintro _ ⟨⟩
        exact hlow
      · simpa using ⟨x, hcommon⟩
      · by_contra hne
        obtain ⟨lower, hlower, hne', hchain⟩ :=
          (strictMergeBase_spec hstrict).only x hcommon fun heq => hne (congrArg some heq)
        exact hlow.2 lower hlower hne' hchain

theorem merge_base_agrees_iff_sideHash :
    Agrees mergeStore tipHash sideHash ↔ LowestFirst mergeStore tipHash sideHash :=
  merge_base_agrees_iff closedDag_mergeStore tipHash sideHash

/-- The merge names the base before a successor of the tip: the base is returned although the
strict base is the tip. -/
theorem merge_base_not_lowest_mergeStore :
    ClosedDag mergeStore ∧ mergeStore.hasCheckpoint tipHash = true ∧
      mergeStore.hasCheckpoint mergeHash = true ∧
      mergeStore.mergeBase tipHash mergeHash = .ok (some baseHash) ∧
      CommonAncestor mergeStore tipHash mergeHash tipHash ∧ baseHash ≠ tipHash ∧
      mergeStore.Ancestor baseHash tipHash ∧
      strictMergeBase mergeStore tipHash mergeHash = .ok tipHash := by
  have hside : sideHash ∈ mergeStore.parentsOf mergeHash := by decide +kernel
  have htip : tipHash ∈ mergeStore.parentsOf sideHash := by decide +kernel
  have hbase : baseHash ∈ mergeStore.parentsOf tipHash := by decide +kernel
  exact ⟨closedDag_mergeStore, by decide +kernel, by decide +kernel, by decide +kernel,
    ⟨.refl, .tail (.single hside) htip⟩, by decide +kernel, .single hbase, by decide +kernel⟩

end BittyAi.Slice
