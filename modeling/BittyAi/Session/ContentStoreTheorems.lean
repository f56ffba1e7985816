/-
BittyAi.Session.ContentStoreTheorems — what the reads of the content store return.
-/
import BittyAi.Session.ContentStore

namespace BittyAi.Session

open Lib ContentHash KeyedTable

/-! ## Columns -/

@[simp] theorem decodeHash_eq_ok {text : String} {hash : ContentHash} :
    decodeHash text = .ok hash ↔ text = hash.toHex := by
  rw [← fromHex_eq_ok, decodeHash]
  cases fromHex text with
  | ok other => simp
  | error e =>
    cases e
    simp

@[simp] theorem decodeHash?_eq_ok {text : Option String} {hash : Option ContentHash} :
    decodeHash? text = .ok hash ↔ text = hash.map toHex := by
  cases text with
  | none => cases hash <;> simp [decodeHash?]
  | some text =>
    simp only [decodeHash?, map_eq_pure_bind, bind_eq_ok, pure_eq_ok, decodeHash_eq_ok]
    cases hash with
    | none | some => simp

variable {hashes : List ContentHash}

@[simp] theorem toHex_mem_map {hash : ContentHash} :
    hash.toHex ∈ hashes.map toHex ↔ hash ∈ hashes := by
  simp [toHex_inj]

@[simp] theorem decodeHashes_eq_ok {texts : List String} :
    decodeHashes texts = .ok hashes ↔ texts = hashes.map toHex := by
  induction texts generalizing hashes with
  | nil => cases hashes <;> simp [decodeHashes]
  | cons text texts ih =>
    simp only [decodeHashes, bind_eq_ok, pure_eq_ok, decodeHash_eq_ok, ih]
    cases hashes with
    | nil | cons => simp

theorem toInt64_toInt_of_not_beyond {value : UInt64} (h : beyondI64 value = false) :
    value.toInt64.toInt = value.toNat := by
  simp only [beyondI64, decide_eq_false_iff_not, not_lt] at h
  rw [Int64.toInt, UInt64.toBitVec_toInt64, BitVec.toInt_eq_toNat_of_lt]
  · rfl
  · simp only [UInt64.toNat_toBitVec]
    omega

theorem toInt64_neg_iff {value : UInt64} : value.toInt64 < 0 ↔ beyondI64 value = true := by
  cases h : beyondI64 value with
  | false =>
    rw [Int64.lt_iff_toInt_lt, toInt64_toInt_of_not_beyond h]
    simp
  | true =>
    simp only [beyondI64, decide_eq_true_eq] at h
    have hlt := value.toNat_lt
    rw [Int64.lt_iff_toInt_lt, Int64.toInt, UInt64.toBitVec_toInt64, BitVec.toInt_eq_toNat_cond]
    simp only [UInt64.toNat_toBitVec, Int64.toInt_zero, iff_true]
    split <;> omega

theorem not_toInt64_neg {value : UInt64} (h : beyondI64 value = false) : ¬value.toInt64 < 0 := by
  simp [toInt64_neg_iff, h]

@[simp] theorem mapError_ok {ε ε' α : Type} {f : ε → ε'} {a : α} :
    (Except.ok a : Except ε α).mapError f = .ok a := rfl

@[simp] theorem mapError_error {ε ε' α : Type} {f : ε → ε'} {e : ε} :
    (Except.error e : Except ε α).mapError f = .error (f e) := rfl

variable {row : CheckpointRow}

namespace ContentStore

variable {store : ContentStore} {hash : ContentHash}
variable {parent : ContentHash} {draft : CheckpointDraft} {data : List UInt8}

theorem decodeMoves_eq_ok {rows : List ReflogRow} {moves : List (Option ContentHash × ContentHash)}
    (h : decodeMoves rows = .ok moves) :
    rows.map (fun row => (row.oldHash, row.newHash)) =
      moves.map fun move => (move.1.map toHex, move.2.toHex) := by
  induction rows generalizing moves with
  | nil =>
    cases h
    rfl
  | cons row rows ih =>
    simp only [decodeMoves, bind_eq_ok, pure_eq_ok, decodeHash?_eq_ok, decodeHash_eq_ok] at h
    obtain ⟨old, hold, new, hnew, rest, hrest, rfl⟩ := h
    simp [hold, hnew, ih hrest]

/-! ## Checkpoints -/

theorem hasCheckpoint_eq_true :
    store.hasCheckpoint hash = true ↔ ∃ row ∈ store.checkpoints.rows, row.hash = hash.toHex :=
  contains_eq_true

theorem parentsOf_of_mem (hrow : row ∈ store.checkpoints.rows)
    (hhash : row.hash = hash.toHex) : store.parentsOf hash = rowParents row := by
  simp [parentsOf, find?_eq_some.mpr ⟨hrow, hhash⟩]

theorem hasCheckpoint_of_mem_parentsOf
    (h : parent ∈ store.parentsOf hash) : store.hasCheckpoint hash = true := by
  unfold parentsOf at h
  unfold hasCheckpoint contains
  cases hfind : store.checkpoints.find? hash.toHex with
  | none => simp [hfind] at h
  | some row => rfl

theorem rowParents_of_decodeRow
    (h : decodeRow row = .ok draft) : draft.parents = rowParents row := by
  simp only [decodeRow, bind_eq_ok, pure_eq_ok] at h
  obtain ⟨parents, hparents, rationale, -, treeHash, -, rfl⟩ := h
  unfold decodeJson at hparents
  unfold rowParents
  cases hjson : row.parentsJson with
  | decoded value =>
    rw [hjson] at hparents
    exact (Except.ok.inj hparents).symm
  | malformed error => simp [hjson] at hparents

theorem getCheckpoint_none (h : store.getCheckpoint hash = .ok none) :
    store.hasCheckpoint hash = false := by
  unfold getCheckpoint at h
  unfold hasCheckpoint contains
  cases hfind : store.checkpoints.find? hash.toHex with
  | none => rfl
  | some row =>
    simp only [hfind, bind_eq_ok, pure_eq_ok, reduceCtorEq, and_false, exists_false] at h

theorem treeHash_of_decodeRow
    (h : decodeRow row = .ok draft) : row.treeHash = draft.treeHash.map toHex := by
  simp only [decodeRow, bind_eq_ok, pure_eq_ok, decodeHash?_eq_ok] at h
  obtain ⟨parents, -, rationale, -, treeHash, htree, rfl⟩ := h
  exact htree

theorem getCheckpoint_some {checkpoint : Checkpoint}
    (h : store.getCheckpoint hash = .ok (some checkpoint)) :
    ∃ row ∈ store.checkpoints.rows, row.hash = hash.toHex ∧
      checkpoint.parents = rowParents row ∧ row.treeHash = checkpoint.treeHash.map toHex := by
  unfold getCheckpoint at h
  cases hfind : store.checkpoints.find? hash.toHex with
  | none => simp [hfind] at h
  | some row =>
    simp only [hfind, bind_eq_ok, pure_eq_ok, Option.some.injEq] at h
    obtain ⟨draft, hdraft, -, -, rfl⟩ := h
    obtain ⟨hrow, hhash⟩ := find?_eq_some.mp hfind
    exact ⟨row, hrow, hhash, rowParents_of_decodeRow hdraft, treeHash_of_decodeRow hdraft⟩

theorem readParents_eq_ok {parents : List ContentHash} (h : store.readParents hash = .ok parents) :
    parents = store.parentsOf hash := by
  simp only [readParents, bind_eq_ok, pure_eq_ok] at h
  obtain ⟨checkpoint, hget, rfl⟩ := h
  cases checkpoint with
  | none =>
    have hmissing := getCheckpoint_none hget
    unfold hasCheckpoint contains at hmissing
    cases hfind : store.checkpoints.find? hash.toHex with
    | none => simp [parentsOf, hfind]
    | some row => simp [hfind] at hmissing
  | some checkpoint =>
    obtain ⟨row, hrow, hhash, hparents, -⟩ := getCheckpoint_some hget
    simpa [parentsOf_of_mem hrow hhash] using hparents

def Readable (store : ContentStore) : Prop :=
  ∀ row ∈ store.checkpoints.rows,
    (decodeHash row.hash >>= fun hash => store.getCheckpoint hash).isOk = true

instance (store : ContentStore) : Decidable (Readable store) :=
  inferInstanceAs (Decidable (∀ row ∈ store.checkpoints.rows, _ = true))

theorem Readable.readParents (h : Readable store) (hash : ContentHash) :
    store.readParents hash = .ok (store.parentsOf hash) := by
  cases hget : store.getCheckpoint hash with
  | error e =>
    cases hfind : store.checkpoints.find? hash.toHex with
    | none => simp [getCheckpoint, hfind] at hget
    | some row =>
      obtain ⟨hrow, hhash⟩ := find?_eq_some.mp hfind
      have hok := h row hrow
      simp [decodeHash_eq_ok.mpr hhash, bind, Except.bind, hget, Except.isOk, Except.toBool] at hok
  | ok checkpoint =>
    have hread : store.readParents hash = .ok ((checkpoint.map (·.parents)).getD []) := by
      simp [ContentStore.readParents, hget, bind, Except.bind, pure, Except.pure]
    rw [hread, readParents_eq_ok hread]

def Ancestor (store : ContentStore) (a b : ContentHash) : Prop :=
  Relation.ReflTransGen (fun child parent => parent ∈ store.parentsOf child) b a

theorem mem_parents_rows (h : parent ∈ store.parentsOf hash) :
    parent ∈ store.checkpoints.rows.flatMap rowParents := by
  obtain ⟨row, hrow, hhash⟩ := hasCheckpoint_eq_true.mp (hasCheckpoint_of_mem_parentsOf h)
  rw [parentsOf_of_mem hrow hhash] at h
  exact List.mem_flatMap.mpr ⟨row, hrow, h⟩

/-! ## Blobs -/

theorem getBlob_eq_some_iff {row : BlobRow} (hfind : store.blobs.find? hash.toHex = some row) :
    store.getBlob hash = .ok (some data) ↔
      ContentHash.compute row.data = hash ∧ row.data = data := by
  simp only [getBlob, hfind]
  split
  next hne => simp [hne]
  next heq => simp [not_not.mp heq]

theorem getBlob_some (h : store.getBlob hash = .ok (some data)) :
    ∃ row ∈ store.blobs.rows, row.hash = hash.toHex ∧ row.data = data := by
  cases hfind : store.blobs.find? hash.toHex with
  | none => simp [getBlob, hfind] at h
  | some row =>
    obtain ⟨hrow, hhash⟩ := find?_eq_some.mp hfind
    exact ⟨row, hrow, hhash, ((getBlob_eq_some_iff hfind).mp h).2⟩

/-! ## Listings -/

theorem listRefs_eq_ok {pairs : List (String × ContentHash)} (h : store.listRefs = .ok pairs) :
    ((pairs.map (·.2)).map toHex).Perm (store.refs.rows.map (·.targetHash)) := by
  simp only [listRefs, bind_eq_ok, pure_eq_ok, decodeHashes_eq_ok] at h
  obtain ⟨targets, htargets, rfl⟩ := h
  have hlength := congrArg List.length htargets
  simp only [List.length_map] at hlength
  rw [List.map_snd_zip (by simp [hlength]), ← htargets]
  exact (List.perm_insertionSort _ _).map _

theorem allCheckpointHashes_eq_ok (h : store.allCheckpointHashes = .ok hashes) :
    (hashes.map toHex).Perm (store.checkpoints.rows.map (·.hash)) ∧
      (hashes.map toHex).Pairwise (· < ·) := by
  rw [allCheckpointHashes, decodeHashes_eq_ok] at h
  have hperm := List.perm_insertionSort (· ≤ ·) (store.checkpoints.rows.map (·.hash))
  have hsorted := List.pairwise_insertionSort (· ≤ ·) (store.checkpoints.rows.map (·.hash))
  have hnodup := hperm.nodup_iff.mpr store.checkpoints.nodup
  rw [← h]
  exact ⟨hperm, (hsorted.and hnodup).imp fun hab => lt_of_le_of_ne hab.1 hab.2⟩

/-! ## Deletions -/

section Deletions

variable {checkpoints blobs : List ContentHash}

theorem mem_deleteCheckpoints (hhash : row.hash = hash.toHex) :
    row ∈ (store.deleteCheckpointsAndBlobs checkpoints blobs).checkpoints.rows ↔
      row ∈ store.checkpoints.rows ∧ hash ∉ checkpoints := by
  rw [deleteCheckpointsAndBlobs, mem_foldl_erase, hhash, toHex_mem_map]

theorem mem_deleteBlobs {row : BlobRow} (hhash : row.hash = hash.toHex) :
    row ∈ (store.deleteCheckpointsAndBlobs checkpoints blobs).blobs.rows ↔
      row ∈ store.blobs.rows ∧ hash ∉ blobs := by
  rw [deleteCheckpointsAndBlobs, mem_foldl_erase, hhash, toHex_mem_map]

theorem hasCheckpoint_delete :
    (store.deleteCheckpointsAndBlobs checkpoints blobs).hasCheckpoint hash = true ↔
      store.hasCheckpoint hash = true ∧ hash ∉ checkpoints := by
  simp only [hasCheckpoint_eq_true]
  constructor
  · rintro ⟨row, hrow, hhash⟩
    obtain ⟨hrow, hnot⟩ := (mem_deleteCheckpoints hhash).mp hrow
    exact ⟨⟨row, hrow, hhash⟩, hnot⟩
  · rintro ⟨⟨row, hrow, hhash⟩, hnot⟩
    exact ⟨row, (mem_deleteCheckpoints hhash).mpr ⟨hrow, hnot⟩, hhash⟩

theorem mem_of_mem_deleteCheckpoints
    (h : row ∈ (store.deleteCheckpointsAndBlobs checkpoints blobs).checkpoints.rows) :
    row ∈ store.checkpoints.rows :=
  (mem_foldl_erase.mp h).1

end Deletions

end ContentStore

/-! ## A base and its successor -/

def plainRow (hash : ContentHash) (parents : List ContentHash) (summary : String) :
    CheckpointRow where
  hash := hash.toHex
  parentsJson := .decoded parents
  taskId := "task"
  agentId := "agent"
  rationaleJson := .decoded { why := "why", what := "what" }
  treeHash := none
  summary := summary
  createdAtMs := 1

def plainDraft (parents : List ContentHash) (summary : String) : CheckpointDraft where
  parents := parents
  taskId := "task"
  agentId := "agent"
  rationale := { why := "why", what := "what" }
  treeHash := none
  summary := summary
  timestampMs := 1

def hashOf (digest : Nat) : ContentHash := ⟨beBytes 32 digest, length_beBytes 32 digest⟩

def baseHash : ContentHash :=
  hashOf 0xab212c7f034072139a249964e8242c88f95e14f33b4fa3ea28186a56629e7ea7

def tipHash : ContentHash :=
  hashOf 0xc594da59887dca7848feb0c22f3c5584060e4e2b7fdb34b38094386b9fc3cd25

def baseRow : CheckpointRow := plainRow baseHash [] "base"
def tipRow : CheckpointRow := plainRow tipHash [baseHash] "tip"

/-! ## What a checkpoint's hash is computed from

Each hashed field stands behind its length, so the bytes give the fields back
(`framed_inj`). What is left is that each field gives back the part of the draft that it
writes: the parents up to their order, an absent tree as the empty text, and the moment in
decimal digits. -/

open List

theorem insertionSort_eq_iff {hashes hashes' : List ContentHash} :
    hashes.insertionSort (· ≤ ·) = hashes'.insertionSort (· ≤ ·) ↔ hashes.Perm hashes' := by
  have hsort := fun hashes : List ContentHash => perm_insertionSort (· ≤ ·) hashes
  constructor
  · intro h
    exact (hsort hashes).symm.trans (h ▸ hsort hashes')
  · intro h
    exact List.Perm.eq_of_pairwise (fun a b _ _ hab hba => le_antisymm hab hba)
      (pairwise_insertionSort _ _) (pairwise_insertionSort _ _)
      ((hsort hashes).trans (h.trans (hsort hashes').symm))

theorem joined_toHex_inj {hashes hashes' : List ContentHash} :
    String.intercalate "," (hashes.map toHex) = String.intercalate "," (hashes'.map toHex) ↔
      hashes = hashes' := by
  refine ⟨fun h => ?_, fun h => by rw [h]⟩
  have hcomma : ∀ hash : ContentHash, ',' ∉ hash.toHex.toList := by
    have hdigit : ∀ n < 16, ',' ≠ hexDigit n := by decide
    intro hash hmem
    obtain ⟨n, hn, heq⟩ := mem_toHex hmem
    exact hdigit n hn heq
  have hsplit : ∀ hashes : List ContentHash,
      (String.intercalate "," (hashes.map toHex)).toList.splitOn ',' =
        if hashes = [] then [[]] else hashes.map (·.toHex.toList) := by
    intro hashes
    by_cases hnil : hashes = []
    · simp [hnil]
    · rw [String.toList_intercalate, if_neg hnil, map_map]
      refine splitOn_intercalate ',' ?_ (by simpa using hnil)
      simpa using fun hash _ => hcomma hash
  have hempty : ∀ hashes : List ContentHash, [[]] ≠ hashes.map (·.toHex.toList) := by
    intro hashes heq
    have hmem : ([] : List Char) ∈ hashes.map (·.toHex.toList) := heq ▸ mem_cons_self
    obtain ⟨hash, -, hnil⟩ := mem_map.mp hmem
    simpa [hnil] using hash.length_toHex
  have hlists := congrArg (fun text : String => text.toList.splitOn ',') h
  simp only [hsplit] at hlists
  split at hlists <;> split at hlists
  · simp_all
  · exact absurd hlists (hempty hashes')
  · exact absurd hlists.symm (hempty hashes)
  · refine map_injective_iff.mpr (fun a b hab => ?_) hlists
    exact toHex_inj.mp (String.toList_inj.mp hab)

theorem treeText_inj {tree tree' : Option ContentHash} :
    (tree.map toHex).getD "" = (tree'.map toHex).getD "" ↔ tree = tree' := by
  have hsome : ∀ hash : ContentHash, hash.toHex ≠ "" := by
    intro hash h
    simpa [h] using hash.length_toHex
  cases tree with
  | none => cases tree' <;> simp [(hsome _).symm]
  | some hash => cases tree' <;> simp [hsome, toHex_inj]

namespace CheckpointDraft

/-- The length of each hashed field is a `u64`, as the length of every text in memory is. -/
def InMemory (draft : CheckpointDraft) : Prop :=
  ∀ field ∈ draft.hashedFields, field.utf8ByteSize < UInt64.size

instance (draft : CheckpointDraft) : Decidable draft.InMemory :=
  inferInstanceAs (Decidable (∀ field ∈ draft.hashedFields, field.utf8ByteSize < UInt64.size))

variable {draft draft' : CheckpointDraft}

theorem hashedBytes_inj (h : draft.InMemory) (h' : draft'.InMemory) :
    draft.hashedBytes = draft'.hashedBytes ↔ draft.hashedFields = draft'.hashedFields := by
  have hfits : ∀ n, n < UInt64.size → n >>> (8 * 8) = 0 := by
    intro n hn
    rw [Nat.shiftRight_eq_div_pow]
    exact Nat.div_eq_of_lt hn
  refine ⟨fun hbytes => ?_, fun hfields => by rw [hashedBytes, hashedBytes, hfields]⟩
  simp only [hashedBytes, append_cancel_left_eq, cons.injEq, true_and] at hbytes
  have hlength : draft.hashedFields.length = draft'.hashedFields.length := by simp [hashedFields]
  exact framed_inj hlength (fun field hfield => hfits _ (h field hfield))
    (fun field hfield => hfits _ (h' field hfield)) hbytes

/-- `canonical_hash` hashes `hashedBytes`, and these are equal for two drafts exactly if the
drafts agree up to the order of their parents, provided that the texts of their rationales
tell the rationales apart. -/
theorem hashed_bytes_eq_iff (h : draft.InMemory) (h' : draft'.InMemory)
    (hjson : draft.rationale.toJson = draft'.rationale.toJson →
      draft.rationale = draft'.rationale) :
    (∀ d : CheckpointDraft, d.canonicalHash = ContentHash.compute d.hashedBytes) ∧
    (draft.hashedBytes = draft'.hashedBytes ↔
      draft.taskId = draft'.taskId ∧ draft.agentId = draft'.agentId ∧
      draft.treeHash = draft'.treeHash ∧ draft.summary = draft'.summary ∧
      draft.timestampMs = draft'.timestampMs ∧ draft.rationale = draft'.rationale ∧
      draft.parents.Perm draft'.parents) := by
  refine ⟨fun d => rfl, ?_⟩
  have hrationale : draft.rationale.toJson = draft'.rationale.toJson ↔
      draft.rationale = draft'.rationale := ⟨hjson, fun heq => by rw [heq]⟩
  rw [hashedBytes_inj h h']
  simp only [hashedFields, cons.injEq, and_true, joined_toHex_inj, insertionSort_eq_iff,
    treeText_inj, toString_nat_inj, UInt64.toNat_inj, hrationale]
  constructor
  · rintro ⟨hparents, htask, hagent, htree, hsummary, hmoment, heq⟩
    exact ⟨htask, hagent, htree, hsummary, hmoment, heq, hparents⟩
  · rintro ⟨htask, hagent, htree, hsummary, hmoment, heq, hparents⟩
    exact ⟨hparents, htask, hagent, htree, hsummary, hmoment, heq⟩

def mergeOf (parents : List ContentHash) : CheckpointDraft := plainDraft parents "merge"

theorem hashed_bytes_eq_iff_mergeOf :
    (mergeOf [baseHash, tipHash]).hashedBytes = (mergeOf [tipHash, baseHash]).hashedBytes :=
  (@hashed_bytes_eq_iff (mergeOf [baseHash, tipHash]) (mergeOf [tipHash, baseHash])
    (by decide +kernel) (by decide +kernel) fun _ => rfl).2.mpr
      ⟨rfl, rfl, rfl, rfl, rfl, rfl, List.Perm.swap tipHash baseHash []⟩

end CheckpointDraft

end BittyAi.Session
