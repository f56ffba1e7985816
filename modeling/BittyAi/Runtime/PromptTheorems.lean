/-
BittyAi.Runtime.PromptTheorems — prompt layers only narrow.

An assembled prompt is inverted once (`assemblePrompt_ok`). Each merged field is
then the meet of what the layers say, whatever order they came in.
-/
import BittyAi.Runtime.Prompt

namespace BittyAi.Runtime

open Lib List

/-! ## What an assembly has passed -/

structure Assembled (snapshot : PromptSnapshot) (merge : DirectiveMerge) (prompt : FullPrompt) :
    Prop where
  valid : snapshot.validate = .ok ()
  allows : mergeAllowed snapshot.ordered ≠ some []
  merged : mergeDirectives snapshot.ordered = .ok merge
  rendered : renderCanonical (mergedPrompt snapshot merge) = .ok prompt.canonicalBytes
  within : ∀ ceiling ∈ mergeBudget snapshot.ordered, prompt.canonicalBytes.length ≤ ceiling
  prompt_eq : prompt = { mergedPrompt snapshot merge with canonicalBytes := prompt.canonicalBytes }

variable {snapshot : PromptSnapshot} {prompt : FullPrompt}

theorem assemblePrompt_ok
    (h : assemblePrompt snapshot = .ok prompt) : ∃ merge, Assembled snapshot merge prompt := by
  simp only [assemblePrompt, bind_eq_ok, refuseIf_eq_ok, pure_eq_ok] at h
  obtain ⟨_, hvalid, _, hallows, merge, hmerged, bytes, hbytes, _, hbudget, rfl⟩ := h
  refine ⟨merge, hvalid, hallows, hmerged, hbytes, fun ceiling hceiling => ?_, rfl⟩
  exact Nat.le_of_not_lt fun hlt => hbudget ⟨ceiling, hceiling, hlt⟩

/-! ## Merged fields

Every field is stated over the layers as they stand in the snapshot: sorting by
rank keeps them. -/

theorem mem_ordered {input : LayerInput} : input ∈ snapshot.ordered ↔ input ∈ snapshot.layers :=
  mem_insertionSort _

variable {tool : String}

theorem mem_mergeDenied {ordered : List LayerInput} :
    tool ∈ mergeDenied ordered ↔ ∃ input ∈ ordered, tool ∈ input.deniedTools := by
  rw [mergeDenied, mem_sortDedup, mem_flatMap]

theorem permits_sortDedup {set : Option (List String)} {x : String} :
    Permits (set.map sortDedup) x ↔ Permits set x := by
  cases set <;> simp [Permits]

theorem tighter_sortDedup {a b : Option (List String)} (h : Tighter a b) :
    Tighter (a.map sortDedup) (b.map sortDedup) := by
  intro set hset
  obtain ⟨list, hlist, rfl⟩ := Option.mem_map.mp hset
  obtain ⟨list', hlist', hsub⟩ := h list hlist
  refine ⟨sortDedup list', Option.mem_map_of_mem _ hlist', fun x hx => ?_⟩
  exact mem_sortDedup.mpr (hsub (mem_sortDedup.mp hx))

theorem permits_mergeAllowed {ordered : List LayerInput} :
    Permits (mergeAllowed ordered) tool ↔ ∀ input ∈ ordered, Permits input.allowedTools tool := by
  rw [mergeAllowed, permits_meetAll, forall_mem_map]
  simp only [permits_sortDedup]

variable {grants : Bool}

theorem checkDispatch_ok_iff {prompt : AssembledPrompt} :
    checkDispatch prompt tool grants = .ok () ↔
      grants = true ∧ tool ∉ prompt.effectiveDeniedTools ∧
        Permits prompt.effectiveAllowedTools tool := by
  unfold checkDispatch
  cases grants with
  | false => simp
  | true =>
    by_cases hdenied : tool ∈ prompt.effectiveDeniedTools
    · simp [hdenied]
    · cases hallowed : prompt.effectiveAllowedTools with
      | none => simp [hdenied, permits_none]
      | some allowed => by_cases hmem : tool ∈ allowed <;> simp [hdenied, hmem, Permits]

theorem Assembled.checkDispatch_iff {merge : DirectiveMerge} (h : Assembled snapshot merge prompt) :
    checkDispatch prompt.toAssembledPrompt tool grants = .ok () ↔
      grants = true ∧ (∀ input ∈ snapshot.layers, tool ∉ input.deniedTools) ∧
        ∀ input ∈ snapshot.layers, Permits input.allowedTools tool := by
  have hdenied : tool ∉ prompt.effectiveDeniedTools ↔
      ∀ input ∈ snapshot.layers, tool ∉ input.deniedTools := by
    rw [h.prompt_eq, mergedPrompt, mem_mergeDenied]
    simp only [mem_ordered, not_exists, not_and]
  have hallowed : Permits prompt.effectiveAllowedTools tool ↔
      ∀ input ∈ snapshot.layers, Permits input.allowedTools tool := by
    rw [h.prompt_eq, mergedPrompt, permits_mergeAllowed]
    simp only [mem_ordered]
  rw [checkDispatch_ok_iff, hdenied, hallowed]

/-! ## Narrowing -/

/-- `input'` constrains at least as much as `input`, where `none` is everything. -/
structure LayerInput.Narrows (input input' : LayerInput) : Prop where
  denied : input.deniedTools ⊆ input'.deniedTools
  allowed : Tighter input'.allowedTools input.allowedTools
  scopes : Tighter input'.allowedScopes input.allowedScopes
  budget : AtMost input'.budgetCeilingBytes input.budgetCeilingBytes

/-- `second` is `first` with layers added and with the layers it had narrowed. -/
def PromptSnapshot.Narrows (first second : PromptSnapshot) : Prop :=
  ∀ input ∈ first.layers, ∃ input' ∈ second.layers,
    input'.layer = input.layer ∧ input.Narrows input'

section Narrowing

variable {first second : PromptSnapshot}

theorem PromptSnapshot.Narrows.ordered (h : first.Narrows second) {input : LayerInput}
    (hinput : input ∈ first.ordered) : ∃ input' ∈ second.ordered, input.Narrows input' := by
  obtain ⟨input', hinput', -, hnarrows⟩ := h input (mem_ordered.mp hinput)
  exact ⟨input', mem_ordered.mpr hinput', hnarrows⟩

theorem PromptSnapshot.Narrows.mergeScopes (h : first.Narrows second) :
    Tighter (mergeScopes second.ordered) (mergeScopes first.ordered) := by
  refine tighter_meetAll fun party hparty => ?_
  obtain ⟨input, hinput, rfl⟩ := mem_map.mp hparty
  obtain ⟨input', hinput', hnarrows⟩ := h.ordered hinput
  exact ⟨_, mem_map_of_mem hinput', tighter_sortDedup hnarrows.scopes⟩

theorem PromptSnapshot.Narrows.mergeBudget (h : first.Narrows second) :
    AtMost (mergeBudget second.ordered) (mergeBudget first.ordered) := by
  refine atMost_lowest fun party hparty => ?_
  obtain ⟨input, hinput, rfl⟩ := mem_map.mp hparty
  obtain ⟨input', hinput', hnarrows⟩ := h.ordered hinput
  exact ⟨_, mem_map_of_mem hinput', hnarrows.budget⟩

theorem PromptSnapshot.Narrows.dispatch (h : first.Narrows second) {merge merge' : DirectiveMerge}
    {prompt' : FullPrompt} (hfirst : Assembled first merge prompt)
    (hsecond : Assembled second merge' prompt')
    (hcheck : checkDispatch prompt'.toAssembledPrompt tool grants = .ok ()) :
    checkDispatch prompt.toAssembledPrompt tool grants = .ok () := by
  obtain ⟨hgrants, hdenied, hallowed⟩ := hsecond.checkDispatch_iff.mp hcheck
  refine hfirst.checkDispatch_iff.mpr ⟨hgrants, fun input hinput htool => ?_,
    fun input hinput set hset => ?_⟩
  · obtain ⟨input', hinput', -, hnarrows⟩ := h input hinput
    exact hdenied input' hinput' (hnarrows.denied htool)
  · obtain ⟨input', hinput', -, hnarrows⟩ := h input hinput
    obtain ⟨set', hset', hsub⟩ := hnarrows.allowed set hset
    exact hsub (hallowed input' hinput' set' hset')

end Narrowing

/-- The gate admits a tool iff the dispatcher grants it, no layer denies it and every layer that
constrains tools allows it; and a snapshot that narrows another admits no more than that. -/
theorem prompt_layers_only_narrow :
    (∀ (snapshot : PromptSnapshot) (prompt : FullPrompt), assemblePrompt snapshot = .ok prompt →
      (∀ tool grants, checkDispatch prompt.toAssembledPrompt tool grants = .ok () ↔
        grants = true ∧ (∀ input ∈ snapshot.layers, tool ∉ input.deniedTools) ∧
          ∀ input ∈ snapshot.layers, ∀ allowed ∈ input.allowedTools, tool ∈ allowed) ∧
      ∀ ceiling ∈ prompt.effectiveBudgetCeilingBytes, prompt.canonicalBytes.length ≤ ceiling) ∧
    ∀ (first second : PromptSnapshot) (prompt prompt' : FullPrompt),
      assemblePrompt first = .ok prompt → assemblePrompt second = .ok prompt' →
      first.Narrows second →
      (∀ tool grants, checkDispatch prompt'.toAssembledPrompt tool grants = .ok () →
        checkDispatch prompt.toAssembledPrompt tool grants = .ok ()) ∧
      (∀ scopes ∈ prompt.effectiveScopes, ∃ scopes' ∈ prompt'.effectiveScopes,
        scopes' ⊆ scopes) ∧
      ∀ ceiling ∈ prompt.effectiveBudgetCeilingBytes,
        ∃ ceiling' ∈ prompt'.effectiveBudgetCeilingBytes, ceiling' ≤ ceiling := by
  refine ⟨fun snapshot prompt h => ?_, fun first second prompt prompt' h h' hnarrows => ?_⟩
  · obtain ⟨merge, hassembled⟩ := assemblePrompt_ok h
    refine ⟨fun tool grants => hassembled.checkDispatch_iff, ?_⟩
    intro ceiling hceiling
    rw [hassembled.prompt_eq] at hceiling
    exact hassembled.within ceiling hceiling
  · obtain ⟨merge, hfirst⟩ := assemblePrompt_ok h
    obtain ⟨merge', hsecond⟩ := assemblePrompt_ok h'
    refine ⟨fun tool grants => hnarrows.dispatch hfirst hsecond, ?_, ?_⟩
    · rw [hfirst.prompt_eq, hsecond.prompt_eq]
      exact hnarrows.mergeScopes
    · rw [hfirst.prompt_eq, hsecond.prompt_eq]
      exact hnarrows.mergeBudget

def openSnapshot : PromptSnapshot :=
  ⟨"core@1", [{ layer := .user, text := "hi", allowedTools := some ["write", "read"] }]⟩

def narrowedSnapshot : PromptSnapshot :=
  ⟨"core@1",
    [{ layer := .project, text := "", budgetCeilingBytes := some 4096 },
      { layer := .user, text := "hi", allowedTools := some ["write", "read"],
        deniedTools := ["write"], allowedScopes := some ["workspace.read"] }]⟩

theorem prompt_layers_only_narrow_open :
    ∃ prompt prompt', assemblePrompt openSnapshot = .ok prompt ∧
      assemblePrompt narrowedSnapshot = .ok prompt' ∧ openSnapshot.Narrows narrowedSnapshot ∧
      checkDispatch prompt'.toAssembledPrompt "read" true = .ok () ∧
      checkDispatch prompt'.toAssembledPrompt "write" true ≠ .ok () ∧
      checkDispatch prompt.toAssembledPrompt "read" true = .ok () := by
  obtain ⟨prompt, hprompt⟩ : ∃ prompt, assemblePrompt openSnapshot = .ok prompt :=
    exists_eq_ok (by decide +kernel)
  obtain ⟨prompt', hprompt'⟩ : ∃ prompt, assemblePrompt narrowedSnapshot = .ok prompt :=
    exists_eq_ok (by decide +kernel)
  have hnarrows : openSnapshot.Narrows narrowedSnapshot := by
    intro input hinput
    simp only [openSnapshot, mem_singleton] at hinput
    subst hinput
    refine ⟨_, mem_cons_of_mem _ mem_cons_self, rfl, ?_⟩
    exact ⟨by simp, by simp [Tighter], by simp [Tighter], by simp [AtMost]⟩
  have hread : checkDispatch prompt'.toAssembledPrompt "read" true = .ok () := by
    refine ((prompt_layers_only_narrow.1 _ _ hprompt').1 "read" true).mpr ?_
    simp [narrowedSnapshot]
  refine ⟨prompt, prompt', hprompt, hprompt', hnarrows, hread, ?_, ?_⟩
  · rw [ne_eq, (prompt_layers_only_narrow.1 _ _ hprompt').1 "write" true]
    simp [narrowedSnapshot]
  · exact (prompt_layers_only_narrow.2 _ _ _ _ hprompt hprompt' hnarrows).1 "read" true hread

end BittyAi.Runtime
