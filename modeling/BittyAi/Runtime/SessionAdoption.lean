/-
BittyAi.Runtime.SessionAdoption — which claims on a failed session are accepted, and what is
adopted then.
-/
import BittyAi.Lib.EarlyExit
import BittyAi.Lib.KeyedTable
import BittyAi.Runtime.Tool

namespace BittyAi.Runtime

open Lib List

/-! ## Claims and refusals -/

def maxAdoptionSurvivors : Nat := 32

inductive UnknownDisposition where
  | reconciled
  | escalated
  deriving DecidableEq

structure ClaimedUnknownEffect where
  executionId : ExecutionId
  disposition : UnknownDisposition

structure AdoptionClaim where
  priorSessionState : SessionState
  survivorIds : List ExecutionId
  unknownEffects : List ClaimedUnknownEffect
  fenceToken : UInt64

inductive AdoptionRefusal where
  | liveSession
  | notFailed (state : SessionState)
  | unreconciledUnknown (executionId : ExecutionId)
  | dispositionMismatch (executionId : ExecutionId)
  | missingEvidence (executionId : ExecutionId)
  | unclaimedSurvivor (executionId : ExecutionId)
  | duplicateEffect (executionId : ExecutionId)
  | tooManySurvivors (limit actual : Nat)
  | staleEpoch (claimEpoch currentEpoch : UInt64)

structure AdoptedEffect where
  executionId : ExecutionId
  tool : String
  status : ToolStatus
  quarantined : Bool

/-! ## The check -/

def ExecutionRecord.adopted (record : ExecutionRecord) : AdoptedEffect :=
  ⟨record.executionId, record.tool, record.status, record.status.isAckLoss⟩

def evidenceFor (evidence : List ExecutionRecord) (id : ExecutionId) : Option ExecutionRecord :=
  evidence.find? fun record => record.executionId = id

/-- The loops over the evidence and over the survivors: an id that was seen is refused. -/
def checkDistinct (seen : List ExecutionId) : List ExecutionId → Except AdoptionRefusal Unit
  | [] => return ()
  | id :: ids => do
    refuseIf (id ∈ seen) (.duplicateEffect id)
    checkDistinct (seen ++ [id]) ids

def checkUnknowns (survivorIds : List ExecutionId) (evidence : List ExecutionRecord)
    (seen : List ExecutionId) : List ClaimedUnknownEffect → Except AdoptionRefusal Unit
  | [] => return ()
  | named :: rest => do
    let id := named.executionId
    refuseIf (id ∈ seen) (.dispositionMismatch id)
    refuseIf (id ∉ survivorIds ∨ id ∉ evidence.map (·.executionId)) (.missingEvidence id)
    match evidenceFor evidence id with
    | none => throw (.missingEvidence id)
    | some record =>
      match named.disposition, record.status.isAckLoss with
      | .escalated, true => checkUnknowns survivorIds evidence (seen ++ [id]) rest
      | .reconciled, true => throw (.unreconciledUnknown id)
      | _, false => throw (.dispositionMismatch id)

def adoptAll (evidence : List ExecutionRecord) (unknowns : List ExecutionId) :
    List ExecutionId → Except AdoptionRefusal (List AdoptedEffect)
  | [] => return []
  | id :: ids =>
    match evidenceFor evidence id with
    | none => throw (.missingEvidence id)
    | some record => do
      refuseIf (record.status.isAckLoss ∧ id ∉ unknowns) (.unreconciledUnknown id)
      refuseIf (¬record.status.isAckLoss ∧ id ∈ unknowns) (.dispositionMismatch id)
      return record.adopted :: (← adoptAll evidence unknowns ids)

def checkClaimed (survivorIds : List ExecutionId) (evidence : List ExecutionRecord) :
    Except AdoptionRefusal Unit :=
  evidence.forM fun record =>
    refuseIf (record.executionId ∉ survivorIds) (.unclaimedSurvivor record.executionId)

def checkAdoption (claim : AdoptionClaim) (evidence : List ExecutionRecord)
    (currentEpoch : UInt64) : Except AdoptionRefusal (List AdoptedEffect) := do
  let actual := max (max claim.survivorIds.length evidence.length) claim.unknownEffects.length
  refuseIf (maxAdoptionSurvivors < actual) (.tooManySurvivors maxAdoptionSurvivors actual)
  refuseIf (claim.fenceToken ≠ currentEpoch) (.staleEpoch claim.fenceToken currentEpoch)
  refuseIf (claim.priorSessionState = .active) .liveSession
  refuseIf (claim.priorSessionState ≠ .failed) (.notFailed claim.priorSessionState)
  checkDistinct [] (evidence.map (·.executionId))
  checkDistinct [] claim.survivorIds
  checkUnknowns claim.survivorIds evidence [] claim.unknownEffects
  let effects ← adoptAll evidence (claim.unknownEffects.map (·.executionId)) claim.survivorIds
  checkClaimed claim.survivorIds evidence
  return effects

/-! ## The loops -/

variable {ids seen unknowns survivorIds : List ExecutionId} {evidence : List ExecutionRecord}
  {named : List ClaimedUnknownEffect} {effects : List AdoptedEffect} {u : Unit}

theorem checkDistinct_iff :
    checkDistinct seen ids = .ok u ↔ ids.Nodup ∧ ∀ id ∈ ids, id ∉ seen := by
  induction ids generalizing seen with
  | nil => simp [checkDistinct]
  | cons id ids ih =>
    simp only [checkDistinct, bind_eq_ok, refuseIf_eq_ok, ih, exists_const, nodup_cons,
      forall_mem_cons, mem_append, mem_singleton, not_or]
    grind

/-- The named effect is a survivor that the evidence leaves uncertain. -/
def Escalates (survivorIds : List ExecutionId) (evidence : List ExecutionRecord)
    (effect : ClaimedUnknownEffect) : Prop :=
  effect.executionId ∈ survivorIds ∧ effect.disposition = .escalated ∧
    ∃ record, evidenceFor evidence effect.executionId = some record ∧
      record.status.isAckLoss = true

theorem checkUnknowns_iff : checkUnknowns survivorIds evidence seen named = .ok u ↔
    (named.map (·.executionId)).Nodup ∧ (∀ effect ∈ named, effect.executionId ∉ seen) ∧
      ∀ effect ∈ named, Escalates survivorIds evidence effect := by
  induction named generalizing seen with
  | nil => simp [checkUnknowns]
  | cons effect named ih =>
    simp only [checkUnknowns, bind_eq_ok, refuseIf_eq_ok, exists_const, not_or, not_not,
      map_cons, nodup_cons, forall_mem_cons, Escalates]
    cases hfind : evidenceFor evidence effect.executionId with
    | none => simp
    | some record =>
      have hevident : effect.executionId ∈ evidence.map (·.executionId) :=
        mem_map.mpr ⟨record, mem_of_find?_eq_some hfind, by simpa using find?_some hfind⟩
      cases hdisposition : effect.disposition <;>
        cases hunknown : record.status.isAckLoss <;> simp only [hunknown, ih]
      all_goals simp [hunknown]
      grind [Escalates]

theorem adoptAll_eq_ok : adoptAll evidence unknowns ids = .ok effects ↔
    (∀ id ∈ ids, ∃ record, evidenceFor evidence id = some record ∧
      (record.status.isAckLoss = true ↔ id ∈ unknowns)) ∧
      effects = (ids.filterMap (evidenceFor evidence)).map (·.adopted) := by
  induction ids generalizing effects with
  | nil => simp [adoptAll, @eq_comm _ _ effects]
  | cons id ids ih =>
    cases hfind : evidenceFor evidence id with
    | none => simp [adoptAll, hfind]
    | some record =>
      simp only [adoptAll, hfind, bind_eq_ok, refuseIf_eq_ok, exists_const, pure_eq_ok, ih,
        forall_mem_cons, filterMap_cons, map_cons]
      grind

theorem checkClaimed_iff : checkClaimed survivorIds evidence = .ok u ↔
    ∀ record ∈ evidence, record.executionId ∈ survivorIds := by
  induction evidence with
  | nil => simp [checkClaimed]
  | cons record evidence ih => simp [checkClaimed, ← ih]

/-! ## Exactness -/

/-- What a claim has to say about the evidence. -/
structure Adoptable (claim : AdoptionClaim) (evidence : List ExecutionRecord)
    (currentEpoch : UInt64) : Prop where
  bounded : claim.survivorIds.length ≤ maxAdoptionSurvivors ∧
    evidence.length ≤ maxAdoptionSurvivors ∧ claim.unknownEffects.length ≤ maxAdoptionSurvivors
  fenced : claim.fenceToken = currentEpoch
  failed : claim.priorSessionState = .failed
  survivors : claim.survivorIds.Nodup
  evident : (evidence.map (·.executionId)).Nodup
  covered : ∀ id, id ∈ claim.survivorIds ↔ id ∈ evidence.map (·.executionId)
  named : (claim.unknownEffects.map (·.executionId)).Nodup
  escalated : ∀ effect ∈ claim.unknownEffects, effect.disposition = .escalated
  unknowns : ∀ id, id ∈ claim.unknownEffects.map (·.executionId) ↔
    ∃ record ∈ evidence, record.executionId = id ∧ ∃ reason, record.status = .unknown reason

/-- The effect repeats what the evidence says and is quarantined where that is unknown. -/
structure AdoptedFrom (record : ExecutionRecord) (effect : AdoptedEffect) : Prop where
  executionId : effect.executionId = record.executionId
  tool : effect.tool = record.tool
  status : effect.status = record.status
  quarantined : effect.quarantined = true ↔ ∃ reason, record.status = .unknown reason

theorem isAckLoss_iff {status : ToolStatus} :
    status.isAckLoss = true ↔ ∃ reason, status = .unknown reason := by
  cases status <;> simp [ToolStatus.isAckLoss]

theorem ExecutionRecord.adoptedFrom (record : ExecutionRecord) :
    AdoptedFrom record record.adopted :=
  ⟨rfl, rfl, rfl, isAckLoss_iff⟩

theorem checkAdoption_eq_ok {claim : AdoptionClaim} {currentEpoch : UInt64} :
    checkAdoption claim evidence currentEpoch = .ok effects ↔
      Adoptable claim evidence currentEpoch ∧
        effects = (claim.survivorIds.filterMap (evidenceFor evidence)).map (·.adopted) := by
  simp only [checkAdoption, bind_eq_ok, refuseIf_eq_ok, exists_const, pure_eq_ok, checkDistinct_iff,
    checkUnknowns_iff, adoptAll_eq_ok, checkClaimed_iff, not_lt, max_le_iff, ne_eq, not_not,
    not_mem_nil, not_false_eq_true, implies_true, and_true, true_and]
  constructor
  · rintro ⟨hbounded, hfenced, -, hfailed, hevident, hsurvivors, ⟨hnamed, hescalates⟩, adopted,
      ⟨hfound, rfl⟩, hclaimed, rfl⟩
    simp only [Escalates, evidenceFor, find?_key_eq_some hevident, isAckLoss_iff]
      at hescalates hfound
    have hinj := fun r s hr hs => @inj_on_of_nodup_map _ _ _ _ hevident r hr s hs
    exact ⟨⟨⟨hbounded.1.1, hbounded.1.2, hbounded.2⟩, hfenced, hfailed, hsurvivors, hevident,
      by grind, hnamed, by grind, by grind⟩, rfl⟩
  · rintro ⟨h, rfl⟩
    obtain ⟨hbounded, hfenced, hfailed, hsurvivors, hevident, hcovered, hnamed, hescalated,
      hunknowns⟩ := h
    have hinj := fun r s hr hs => @inj_on_of_nodup_map _ _ _ _ hevident r hr s hs
    simp only [Escalates, evidenceFor, find?_key_eq_some hevident, isAckLoss_iff]
    refine ⟨⟨⟨hbounded.1, hbounded.2.1⟩, hbounded.2.2⟩, hfenced, by simp [hfailed], hfailed,
      hevident, hsurvivors, ⟨hnamed, ?_⟩, _, ⟨by grind, rfl⟩, by grind, rfl⟩
    intro effect heffect
    obtain ⟨record, hmem, hid, hunknown⟩ := (hunknowns _).mp (mem_map_of_mem heffect)
    exact ⟨(hcovered _).mpr (hid ▸ mem_map_of_mem hmem), hescalated effect heffect, record,
      ⟨hmem, hid⟩, hunknown⟩

/-- A claim is accepted exactly if it is `Adoptable`, and then the effects are the evidence,
each record once, in the order of the survivors. -/
theorem session_adoption_exact (claim : AdoptionClaim) (evidence : List ExecutionRecord)
    (currentEpoch : UInt64) :
    ((∃ effects, checkAdoption claim evidence currentEpoch = .ok effects) ↔
      Adoptable claim evidence currentEpoch) ∧
    ∀ effects, checkAdoption claim evidence currentEpoch = .ok effects →
      ∃ records : List ExecutionRecord, records.Perm evidence ∧
        records.map (·.executionId) = claim.survivorIds ∧ Forall₂ AdoptedFrom records effects := by
  simp only [checkAdoption_eq_ok, exists_and_left, exists_eq, and_true, true_and]
  rintro _ ⟨h, rfl⟩
  have hfind : ∀ {id record}, evidenceFor evidence id = some record ↔
      record ∈ evidence ∧ record.executionId = id := find?_key_eq_some h.evident
  have hids : (claim.survivorIds.filterMap (evidenceFor evidence)).map (·.executionId) =
      claim.survivorIds := by
    rw [map_filterMap]
    refine (filterMap_congr fun id hid => ?_).trans filterMap_some
    obtain ⟨record, hmem, rfl⟩ := mem_map.mp ((h.covered id).mp hid)
    rw [hfind.mpr ⟨hmem, rfl⟩]
    rfl
  refine ⟨_, ?_, hids, forall₂_map_right_iff.mpr (forall₂_same.mpr fun record _ =>
    record.adoptedFrom)⟩
  refine (perm_ext_iff_of_nodup (.of_map _ (hids.symm ▸ h.survivors)) (.of_map _ h.evident)).mpr ?_
  intro record
  simp only [mem_filterMap, hfind]
  refine ⟨fun ⟨_, _, hmem, _⟩ => hmem, fun hmem => ?_⟩
  exact ⟨_, (h.covered _).mpr (mem_map_of_mem hmem), hmem, rfl⟩

end BittyAi.Runtime
