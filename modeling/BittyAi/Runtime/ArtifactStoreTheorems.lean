/-
BittyAi.Runtime.ArtifactStoreTheorems — what one store operation does to every reference.

`store` either fails and leaves the store as it was, or appends one entry under the next
name (`store_cases`).
-/
import BittyAi.Lib.KeyedTable
import BittyAi.Runtime.ArtifactStore

namespace BittyAi.Runtime.ArtifactStore

open Lib List

variable {s s' : ArtifactStore} {bytes : List UInt8} {generation : Nat}

/-- `s'` is `s` with `bytes` retained under the next name. -/
structure Pushed (s : ArtifactStore) (bytes : List UInt8) (generation : Nat)
    (s' : ArtifactStore) : Prop where
  entries : s'.entries = s.entries ++ [⟨artifactName (s.nextId + 1), bytes, generation⟩]
  totalBytes : s'.totalBytes = s.totalBytes + bytes.length
  nextId : s'.nextId = s.nextId + 1
  deleted : s'.deleted = s.deleted

def HasRoom (s : ArtifactStore) (bytes : List UInt8) : Prop :=
  bytes.length ≤ maxArtifactBytes ∧ s.entries.length < maxArtifacts ∧
    s.totalBytes + bytes.length ≤ maxArtifactStoreBytes

theorem store_cases (s : ArtifactStore) (bytes : List UInt8) (generation : Nat) :
    (∃ e, s.store bytes generation = (.error e, s) ∧ ¬ s.HasRoom bytes) ∨
    (∃ s', s.store bytes generation = (.ok ⟨artifactName (s.nextId + 1)⟩, s') ∧
      Pushed s bytes generation s' ∧ s.HasRoom bytes) := by
  unfold store HasRoom
  split
  next => exact .inl ⟨_, rfl, by omega⟩
  next =>
    split
    next => exact .inl ⟨_, rfl, by omega⟩
    next =>
      split
      next => exact .inl ⟨_, rfl, by omega⟩
      next => exact .inr ⟨_, rfl, ⟨rfl, rfl, rfl, rfl⟩, by omega⟩

theorem store_of_room (s : ArtifactStore) (generation : Nat) (hroom : s.HasRoom bytes) :
    ∃ s', s.store bytes generation = (.ok ⟨artifactName (s.nextId + 1)⟩, s') ∧
      Pushed s bytes generation s' := by
  rcases store_cases s bytes generation with ⟨e, -, hfull⟩ | ⟨s', hstore, hpush, -⟩
  · exact absurd hroom hfull
  · exact ⟨s', hstore, hpush⟩

/-! ## Lookups -/

theorem find_iff {reference : ArtifactRef} {entry : ArtifactEntry} :
    s.find reference = some entry ↔ entry ∈ s.entries ∧ entry.reference = reference.text :=
  find?_key_eq_some s.wf.distinct

/-- `s'` is `s` with the entries `added` appended and nothing else lost:
their names are the next ones, in order. -/
structure Extended (s : ArtifactStore) (added : List ArtifactEntry) (s' : ArtifactStore) :
    Prop where
  entries : s'.entries = s.entries ++ added
  totalBytes : s'.totalBytes = s.totalBytes + (added.map (·.bytes.length)).sum
  nextId : s'.nextId = s.nextId + added.length
  deleted : s'.deleted = s.deleted
  names : added.map (·.reference) =
    (range' (s.nextId + 1) added.length).map artifactName

theorem Extended.refl (s : ArtifactStore) : Extended s [] s := by constructor <;> simp

theorem Extended.push {added : List ArtifactEntry} {s'' : ArtifactStore}
    (hpush : Pushed s bytes generation s') (h : Extended s' added s'') :
    Extended s (⟨artifactName (s.nextId + 1), bytes, generation⟩ :: added) s'' where
  entries := by rw [h.entries, hpush.entries, append_assoc, singleton_append]
  totalBytes := by rw [h.totalBytes, hpush.totalBytes, map_cons, sum_cons, Nat.add_assoc]
  nextId := by rw [h.nextId, hpush.nextId, length_cons]; omega
  deleted := h.deleted.trans hpush.deleted
  names := by rw [map_cons, h.names, hpush.nextId, length_cons, range'_succ, map_cons]

variable {added : List ArtifactEntry}

theorem Extended.resolve_of_not_mem (h : Extended s added s') {reference : ArtifactRef}
    (hnot : reference.text ∉ added.map (·.reference)) (current : Nat) :
    s'.resolve reference current = s.resolve reference current := by
  have hnone : added.find? (·.reference == reference.text) = none := by
    rw [find?_eq_none]
    intro e he heq
    exact hnot (mem_map.mpr ⟨e, he, by simpa using heq⟩)
  have hfind : s'.find reference = s.find reference := by
    rw [find, h.entries, find?_append, hnone, Option.or_none, find]
  have hdeleted : s'.isDeleted reference = s.isDeleted reference := by
    rw [isDeleted, h.deleted, isDeleted]
  rw [resolve, hfind, hdeleted, resolve]

theorem Extended.resolve_of_mem (h : Extended s added s') {e : ArtifactEntry}
    (he : e ∈ added) : s'.resolve ⟨e.reference⟩ e.generation = .ok e.bytes := by
  have hmem : e ∈ s'.entries := h.entries ▸ mem_append_right _ he
  have hfind : s'.find ⟨e.reference⟩ = some e := find_iff.mpr ⟨hmem, rfl⟩
  simp [resolve, hfind]

end BittyAi.Runtime.ArtifactStore
