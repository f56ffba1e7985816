/-
BittyAi.Runtime.ArtifactStore — Stable Ids, context errors and the bounded
in-memory artifact store of `bitty-ai-runtime/src/context.rs`.

The store's fields are private in Rust, so every value is reached from
`ArtifactStore::new` by `store` and `invalidate`. Here the same restriction is
the field `wf`: the two operations rebuild it, and no other value exists.

`u64` and `usize` quantities are natural numbers. The only counter that grows
is `nextId`, by one per retained artifact; its wrap at `2^64` is not modelled.
-/
import BittyAi.Lib.Bytes
import BittyAi.Lib.Text

namespace BittyAi.Runtime

open Lib
open List hiding span

/-! ## Bounds -/

def maxStableIdLen : Nat := 64
def maxSummaryBytes : Nat := 4 * 1024
def maxRecordBodyBytes : Nat := 16 * 1024
def externalizeThresholdBytes : Nat := 4 * 1024
def maxContextRecords : Nat := 128
def maxArtifacts : Nat := 64
def maxArtifactBytes : Nat := 64 * 1024
def maxArtifactStoreBytes : Nat := 256 * 1024
def maxDeletedRefs : Nat := 64
def bytesPerTokenEstimate : Nat := 4

/-- Rust `KNOWN_PROVIDERS`: the closed v1 provider set. -/
def knownProviders : List String := ["workspace", "project", "git", "diagnostics", "terminal"]

/-! ## Errors -/

inductive ContextError where
  | invalidStableId (id : String)
  | unknownProvider (name : String)
  | summaryTooLarge (limit actual : Nat)
  | bodyTooLarge (limit actual : Nat)
  | tooManyRecords (limit : Nat)
  | artifactTooLarge (limit actual : Nat)
  | artifactStoreFull (reason : String)
  | artifactUnavailable (reference : String)
  | artifactDeleted (reference : String)
  | artifactExpired (reference : String)
  | budgetExceeded (limit actual : Nat)
  | duplicateRecordId (id : String)
  | staleGeneration (id : String) (actual current : Nat)
  deriving DecidableEq

def ContextError.display : ContextError → String
  | .invalidStableId id => s!"invalid stable id: {id}"
  | .unknownProvider name => s!"unknown context provider: {name}"
  | .summaryTooLarge limit actual =>
    s!"context summary of {actual} bytes exceeds {limit} byte limit"
  | .bodyTooLarge limit actual => s!"context body of {actual} bytes exceeds {limit} byte limit"
  | .tooManyRecords limit => s!"context record count exceeds limit {limit}"
  | .artifactTooLarge limit actual => s!"artifact of {actual} bytes exceeds {limit} byte limit"
  | .artifactStoreFull reason => s!"artifact store full: {reason}"
  | .artifactUnavailable reference => s!"artifact unavailable: {reference}"
  | .artifactDeleted reference => s!"artifact deleted: {reference}"
  | .artifactExpired reference => s!"artifact expired: {reference}"
  | .budgetExceeded limit actual =>
    s!"context budget exceeded: smallest record {actual} bytes over {limit} byte budget"
  | .duplicateRecordId id => s!"duplicate context record id: {id}"
  | .staleGeneration id actual current =>
    s!"context record {id} generation {actual} does not match request generation {current}"

/-! ## Stable Ids -/

/-- The `^[a-z0-9_-]+$` shape of at most 64 bytes. -/
def stableIdShape (id : String) : Bool :=
  !id.isEmpty && decide (id.utf8ByteSize ≤ maxStableIdLen) &&
    (utf8Bytes id).all fun b =>
      (0x61 ≤ b && b ≤ 0x7a) || (0x30 ≤ b && b ≤ 0x39) || b == 0x5f || b == 0x2d

structure StableId where
  text : String
  shaped : stableIdShape text = true
  deriving DecidableEq

def StableId.new (id : String) : Except ContextError StableId :=
  if h : stableIdShape id = true then .ok ⟨id, h⟩ else .error (.invalidStableId id)

/-! ## The artifact store -/

structure ArtifactRef where
  text : String
  deriving DecidableEq

/-- The reference text the store mints for its `n`-th artifact. -/
def artifactName (n : Nat) : String := "artifact://" ++ toString n

theorem artifactName_inj {m n : Nat} : artifactName m = artifactName n ↔ m = n := by
  rw [artifactName, artifactName, String.append_right_inj, toString_nat_inj]

theorem utf8ByteSize_artifactName (n : Nat) :
    (artifactName n).utf8ByteSize = 11 + decimalSize n := by
  rw [artifactName, String.utf8ByteSize_append, decimalSize]
  rfl

structure ArtifactEntry where
  reference : String
  bytes : List UInt8
  generation : Nat

/-- What `new`, `store` and `invalidate` keep true of the store's fields. -/
structure StoreWf (entries : List ArtifactEntry) (totalBytes nextId : Nat)
    (deleted : List String) : Prop where
  minted : ∀ e ∈ entries, ∃ k, k ≤ nextId ∧ e.reference = artifactName k
  distinct : (entries.map (·.reference)).Nodup
  total : totalBytes = (entries.map (·.bytes.length)).sum
  countCap : entries.length ≤ maxArtifacts
  byteCap : totalBytes ≤ maxArtifactStoreBytes
  entryCap : ∀ e ∈ entries, e.bytes.length ≤ maxArtifactBytes
  buried : ∀ d ∈ deleted, (∃ k, k ≤ nextId ∧ d = artifactName k) ∧ d ∉ entries.map (·.reference)
  deletedDistinct : deleted.Nodup
  deletedCap : deleted.length ≤ maxDeletedRefs

namespace StoreWf

variable {entries : List ArtifactEntry} {totalBytes nextId : Nat} {deleted : List String}

theorem fresh (wf : StoreWf entries totalBytes nextId deleted) {n : Nat} (hn : nextId < n) :
    artifactName n ∉ entries.map (·.reference) ∧ artifactName n ∉ deleted := by
  constructor
  · intro h
    obtain ⟨e, he, hname⟩ := mem_map.mp h
    obtain ⟨k, hk, href⟩ := wf.minted e he
    have := artifactName_inj.mp (hname.symm.trans href)
    omega
  · intro h
    obtain ⟨⟨k, hk, href⟩, -⟩ := wf.buried _ h
    have := artifactName_inj.mp href
    omega

theorem push (wf : StoreWf entries totalBytes nextId deleted) {bytes : List UInt8}
    (generation : Nat) (hbytes : bytes.length ≤ maxArtifactBytes)
    (hcount : entries.length < maxArtifacts)
    (htotal : totalBytes + bytes.length ≤ maxArtifactStoreBytes) :
    StoreWf (entries ++ [⟨artifactName (nextId + 1), bytes, generation⟩])
      (totalBytes + bytes.length) (nextId + 1) deleted := by
  obtain ⟨hlive, hdead⟩ := wf.fresh (Nat.lt_succ_self nextId)
  refine
    { minted := ?_, distinct := ?_, total := by simp [wf.total], countCap := by simpa using hcount,
      byteCap := htotal, entryCap := ?_, buried := ?_, deletedDistinct := wf.deletedDistinct,
      deletedCap := wf.deletedCap }
  · refine forall_mem_append.mpr ⟨fun e he => ?_, forall_mem_singleton.mpr ⟨_, le_rfl, rfl⟩⟩
    obtain ⟨k, hk, href⟩ := wf.minted e he
    exact ⟨k, by omega, href⟩
  · rw [map_append, map_singleton, ← concat_eq_append]
    exact wf.distinct.concat hlive
  · exact forall_mem_append.mpr ⟨wf.entryCap, forall_mem_singleton.mpr hbytes⟩
  · intro d hd
    obtain ⟨⟨k, hk, href⟩, hnot⟩ := wf.buried d hd
    refine ⟨⟨k, by omega, href⟩, ?_⟩
    rw [map_append, mem_append, map_singleton, mem_singleton]
    rintro (h | rfl)
    · exact hnot h
    · exact hdead hd

theorem remove {before after : List ArtifactEntry} {e : ArtifactEntry}
    (wf : StoreWf (before ++ e :: after) totalBytes nextId deleted) :
    StoreWf (before ++ after) (totalBytes - e.bytes.length) nextId deleted ∧
      (e.reference ∉ deleted → deleted.length < maxDeletedRefs →
        StoreWf (before ++ after) (totalBytes - e.bytes.length) nextId
          (deleted ++ [e.reference])) := by
  have hsub : (before ++ after).Sublist (before ++ e :: after) :=
    (List.Sublist.refl before).append (sublist_cons_self e after)
  have hdistinct : e.reference ∉ (before ++ after).map (·.reference) := by
    have h := wf.distinct
    rw [map_append, map_cons, nodup_middle, nodup_cons] at h
    rw [map_append]
    exact h.1
  have hkept : StoreWf (before ++ after) (totalBytes - e.bytes.length) nextId deleted := by
    refine
      { minted := fun x hx => wf.minted x (hsub.subset hx)
        distinct := wf.distinct.sublist (hsub.map _)
        total := ?_
        countCap := hsub.length_le.trans wf.countCap
        byteCap := (Nat.sub_le _ _).trans wf.byteCap
        entryCap := fun x hx => wf.entryCap x (hsub.subset hx)
        buried := fun d hd => ⟨(wf.buried d hd).1, fun h =>
          (wf.buried d hd).2 ((hsub.map _).subset h)⟩
        deletedDistinct := wf.deletedDistinct
        deletedCap := wf.deletedCap }
    rw [wf.total]
    simp only [map_append, map_cons, sum_append, sum_cons]
    omega
  refine ⟨hkept, fun hdead hroom =>
    { hkept with buried := ?_, deletedDistinct := ?_, deletedCap := ?_ }⟩
  · refine forall_mem_append.mpr ⟨hkept.buried, forall_mem_singleton.mpr ?_⟩
    exact ⟨wf.minted e (by simp), hdistinct⟩
  · rw [← concat_eq_append]
    exact wf.deletedDistinct.concat hdead
  · simpa using hroom

end StoreWf

structure ArtifactStore where
  entries : List ArtifactEntry
  totalBytes : Nat
  nextId : Nat
  deleted : List String
  wf : StoreWf entries totalBytes nextId deleted

inductive ArtifactAbsence where
  | available
  | neverRecorded
  | missing
  | deleted
  | expired
  deriving DecidableEq

namespace ArtifactStore

variable {self : ArtifactStore} {reference : ArtifactRef} {entry : ArtifactEntry}

def new : ArtifactStore where
  entries := []
  totalBytes := 0
  nextId := 0
  deleted := []
  wf := by constructor <;> simp [maxArtifacts, maxArtifactStoreBytes, maxDeletedRefs]

def len (store : ArtifactStore) : Nat := store.entries.length

def isDeleted (store : ArtifactStore) (reference : ArtifactRef) : Bool :=
  store.deleted.any (· == reference.text)

def find (store : ArtifactStore) (reference : ArtifactRef) : Option ArtifactEntry :=
  store.entries.find? (·.reference == reference.text)

def store (self : ArtifactStore) (bytes : List UInt8) (generation : Nat) :
    Except ContextError ArtifactRef × ArtifactStore :=
  if hbytes : bytes.length > maxArtifactBytes then
    (.error (.artifactTooLarge maxArtifactBytes bytes.length), self)
  else if hcount : self.entries.length ≥ maxArtifacts then
    (.error (.artifactStoreFull s!"at most {maxArtifacts} artifacts"), self)
  else if htotal : self.totalBytes + bytes.length > maxArtifactStoreBytes then
    (.error (.artifactStoreFull s!"at most {maxArtifactStoreBytes} retained bytes"), self)
  else
    (.ok ⟨artifactName (self.nextId + 1)⟩,
      { entries := self.entries ++ [⟨artifactName (self.nextId + 1), bytes, generation⟩]
        totalBytes := self.totalBytes + bytes.length
        nextId := self.nextId + 1
        deleted := self.deleted
        wf := self.wf.push generation (by omega) (by omega) (by omega) })

def resolve (self : ArtifactStore) (reference : ArtifactRef) (currentGeneration : Nat) :
    Except ContextError (List UInt8) :=
  match self.find reference with
  | some entry =>
    if entry.generation ≠ currentGeneration then .error (.artifactExpired reference.text)
    else .ok entry.bytes
  | none =>
    if self.isDeleted reference then .error (.artifactDeleted reference.text)
    else .error (.artifactUnavailable reference.text)

/-- The number an `artifact://<n>` text carries, read as Rust reads it: up to
twenty digits with saturating `u64` arithmetic. -/
def parseArtifactId (text : String) : Option Nat :=
  match (utf8Bytes "artifact://").isPrefixOf? (utf8Bytes text) with
  | some tail =>
    if !tail.isEmpty && tail.all (fun b => 0x30 ≤ b && b ≤ 0x39) && tail.length ≤ 20 then
      some (tail.foldl (fun id b =>
        min (min (id * 10) (2 ^ 64 - 1) + (b - 0x30).toNat) (2 ^ 64 - 1)) 0)
    else none
  | none => none

def absenceReason (self : ArtifactStore) (reference : ArtifactRef) (currentGeneration : Nat) :
    ArtifactAbsence :=
  match self.find reference with
  | some entry => if entry.generation = currentGeneration then .available else .expired
  | none =>
    if self.isDeleted reference then .deleted
    else match parseArtifactId reference.text with
      | some id => if id ≠ 0 ∧ id ≤ self.nextId then .missing else .neverRecorded
      | none => .neverRecorded

/-- The entry a lookup finds splits the live entries where `invalidate` cuts. -/
theorem find_split (h : self.find reference = some entry) :
    ∃ before after, self.entries = before ++ entry :: after ∧
      self.entries.eraseP (·.reference == reference.text) = before ++ after ∧
      entry.reference = reference.text := by
  obtain ⟨hp, before, after, heq, hbefore⟩ := find?_eq_some_iff_append.mp h
  refine ⟨before, after, heq, ?_, by simpa using hp⟩
  rw [heq, eraseP_append_right]
  · simp [show (entry.reference == reference.text) = true from hp]
  · intro a ha
    simpa using hbefore a ha

/-- The tombstones after `reference` lost its bytes: deletion always wins, the
tombstone is skipped when it exists or the list is full. -/
def buried (self : ArtifactStore) (reference : ArtifactRef) : List String :=
  if !self.isDeleted reference && decide (self.deleted.length < maxDeletedRefs) then
    self.deleted ++ [reference.text]
  else self.deleted

theorem wf_invalidate (h : self.find reference = some entry) :
    StoreWf (self.entries.eraseP (·.reference == reference.text))
      (self.totalBytes - entry.bytes.length) self.nextId (self.buried reference) := by
  obtain ⟨before, after, heq, herase, href⟩ := find_split h
  obtain ⟨hkept, hbury⟩ := StoreWf.remove (heq ▸ self.wf)
  rw [herase, buried]
  split
  next hroom =>
    simp only [Bool.and_eq_true, Bool.not_eq_true', decide_eq_true_eq] at hroom
    rw [← href]
    refine hbury (fun hmem => ?_) hroom.2
    have hdel : self.isDeleted reference = true := any_eq_true.mpr ⟨_, hmem, by simp [href]⟩
    simp [hdel] at hroom
  next => exact hkept

def invalidate (self : ArtifactStore) (reference : ArtifactRef) : Bool × ArtifactStore :=
  match h : self.find reference with
  | some entry =>
    (true,
      { entries := self.entries.eraseP (·.reference == reference.text)
        totalBytes := self.totalBytes - entry.bytes.length
        nextId := self.nextId
        deleted := self.buried reference
        wf := wf_invalidate h })
  | none => (false, self)

end ArtifactStore

end BittyAi.Runtime
