/-
BittyAi.Slice.GarbageCollectionTheorems — the plan of `gc_compute` is what is not alive.

Two walks stand behind a plan, one over the checkpoints and one over the trees;
`gcCompute_spec` puts them together.
-/
import BittyAi.Session.ContentStoreTheorems
import BittyAi.Slice.GarbageCollection

namespace BittyAi.Slice

open Lib Session Session.ContentHash ContentStore List

/-! ## What is alive

This is the specification that a collection is measured against: the roots, what they reach
through parent links, and the blobs named by the trees of what is reached. -/

/-- Where a collection starts: the targets of the refs, and the hashes of the moves since
`start`. The zero hash stands for no hash: it marks a deletion. -/
inductive Root (store : ContentStore) (start : Nat) : ContentHash → Prop
  | ref {row : RefRow} {hash : ContentHash} (hrow : row ∈ store.refs.rows)
      (htarget : row.targetHash = hash.toHex) : Root store start hash
  | old {row : ReflogRow} {hash : ContentHash} (hrow : row ∈ store.reflog)
      (hwindow : (start : Int) ≤ row.atMs.toInt) (hold : row.oldHash = some hash.toHex)
      (hnamed : hash ≠ tombstoneHash) : Root store start hash
  | new {row : ReflogRow} {hash : ContentHash} (hrow : row ∈ store.reflog)
      (hwindow : (start : Int) ≤ row.atMs.toInt) (hnew : row.newHash = hash.toHex)
      (hnamed : hash ≠ tombstoneHash) : Root store start hash

def Reachable (store : ContentStore) (start : Nat) (hash : ContentHash) : Prop :=
  ∃ root, Root store start root ∧ store.Ancestor hash root

inductive KeptTree (store : ContentStore) (start : Nat) : ContentHash → Prop
  | root {row : CheckpointRow} {hash tree : ContentHash} (hreach : Reachable store start hash)
      (hrow : row ∈ store.checkpoints.rows) (hhash : row.hash = hash.toHex)
      (htree : row.treeHash = some tree.toHex) : KeptTree store start tree
  | nested {row : BlobRow} {hash : ContentHash} {tree : ContextTree} {entry : TreeEntry}
      (hkept : KeptTree store start hash) (hrow : row ∈ store.blobs.rows)
      (hhash : row.hash = hash.toHex) (htree : ContextTree.fromCanonicalBytes row.data = .ok tree)
      (hentry : entry ∈ tree.entries) (hkind : entry.kind = .tree) :
      KeptTree store start entry.hash

/-- The blobs of kept trees, the blobs their entries name, and those that the arguments of
an open pending effect name. -/
inductive KeptBlob (store : ContentStore) (start : Nat) : ContentHash → Prop
  | tree {hash : ContentHash} (hkept : KeptTree store start hash) : KeptBlob store start hash
  | entry {row : BlobRow} {hash : ContentHash} {tree : ContextTree} {entry : TreeEntry}
      (hkept : KeptTree store start hash) (hrow : row ∈ store.blobs.rows)
      (hhash : row.hash = hash.toHex) (htree : ContextTree.fromCanonicalBytes row.data = .ok tree)
      (hentry : entry ∈ tree.entries) : KeptBlob store start entry.hash
  | pending {row : PendingRow} {digest : ContentHash} (hrow : row ∈ store.pendingEffects.rows)
      (hopen : row.status = "open") (hdigest : row.argsDigest = digest.toHex)
      (hnamed : digest ≠ tombstoneHash) : KeptBlob store start digest

theorem Reachable.parent {store : ContentStore} {start : Nat} {child parent : ContentHash}
    (h : Reachable store start child) (hlink : parent ∈ store.parentsOf child) :
    Reachable store start parent := by
  obtain ⟨root, hroot, hchain⟩ := h
  exact ⟨root, hroot, .tail hchain hlink⟩

section Windows

variable {store : ContentStore} {start start' : Nat} {hash : ContentHash}

theorem Root.mono (hle : start' ≤ start) (h : Root store start hash) : Root store start' hash := by
  have hcast : (start' : Int) ≤ start := by exact_mod_cast hle
  cases h with
  | ref hrow htarget => exact .ref hrow htarget
  | old hrow hwindow hold hnamed => exact .old hrow (hcast.trans hwindow) hold hnamed
  | new hrow hwindow hnew hnamed => exact .new hrow (hcast.trans hwindow) hnew hnamed

theorem Reachable.mono (hle : start' ≤ start) (h : Reachable store start hash) :
    Reachable store start' hash := by
  obtain ⟨root, hroot, hchain⟩ := h
  exact ⟨root, hroot.mono hle, hchain⟩

theorem KeptTree.mono (hle : start' ≤ start) (h : KeptTree store start hash) :
    KeptTree store start' hash := by
  induction h with
  | root hreach hrow hhash htree => exact .root (hreach.mono hle) hrow hhash htree
  | nested _ hrow hhash htree hentry hkind ih => exact .nested ih hrow hhash htree hentry hkind

theorem KeptBlob.mono (hle : start' ≤ start) (h : KeptBlob store start hash) :
    KeptBlob store start' hash := by
  cases h with
  | tree hkept => exact .tree (hkept.mono hle)
  | entry hkept hrow hhash htree hentry => exact .entry (hkept.mono hle) hrow hhash htree hentry
  | pending hrow hopen hdigest hnamed => exact .pending hrow hopen hdigest hnamed

end Windows

/-! ## Roots -/

section Roots

variable {store : ContentStore} {hash : ContentHash}
variable {pairs : List (String × ContentHash)} {row : PendingRow}
  {moves : List (Option ContentHash × ContentHash)}

theorem mem_refTargets (h : store.listRefs = .ok pairs) :
    hash ∈ pairs.map (·.2) ↔ ∃ row ∈ store.refs.rows, row.targetHash = hash.toHex := by
  have hmem := (listRefs_eq_ok h).mem_iff (a := hash.toHex)
  simpa [toHex_inj] using hmem

theorem mem_moveRoots {move : Option ContentHash × ContentHash} : hash ∈ moveRoots move ↔
      (move.1.map toHex = some hash.toHex ∨ move.2.toHex = hash.toHex) ∧ hash ≠ tombstoneHash := by
  obtain ⟨old, new⟩ := move
  have hnew : new.toHex = hash.toHex ↔ hash = new := toHex_inj.trans eq_comm
  cases old with
  | none => simp [moveRoots, hnew]
  | some old =>
    have hold : old.toHex = hash.toHex ↔ hash = old := toHex_inj.trans eq_comm
    simp [moveRoots, hnew, hold]

theorem mem_windowRoots {now grace : UInt64} (h : store.reflogWindowHashes now grace = .ok moves) :
    hash ∈ moves.flatMap moveRoots ↔
      (∃ row ∈ store.reflog, (windowStart now grace : Int) ≤ row.atMs.toInt ∧
        (row.oldHash = some hash.toHex ∨ row.newHash = hash.toHex)) ∧ hash ≠ tombstoneHash := by
  -- both lists are one list of pairs of texts
  have hmap := decodeMoves_eq_ok h
  let names : Option String × String → Prop := fun pair =>
    pair.1 = some hash.toHex ∨ pair.2 = hash.toHex
  calc hash ∈ moves.flatMap moveRoots
    _ ↔ (∃ pair ∈ moves.map fun move => (move.1.map toHex, move.2.toHex), names pair) ∧
          hash ≠ tombstoneHash := by
      simp only [mem_flatMap, mem_moveRoots, mem_map, exists_exists_and_eq_and, ← and_assoc,
        exists_and_right, names]
    _ ↔ _ := by
      rw [← hmap]
      simp [names, and_assoc]

theorem mem_roots {now grace : UInt64} (hrefs : store.listRefs = .ok pairs)
    (hmoves : store.reflogWindowHashes now grace = .ok moves) :
    hash ∈ fresh [] (fresh [] (pairs.map (·.2)) ++ moves.flatMap moveRoots) ↔
      Root store (windowStart now grace) hash := by
  simp only [mem_fresh, mem_append, not_mem_nil, not_false_eq_true, and_true,
    mem_refTargets hrefs, mem_windowRoots hmoves]
  constructor
  · rintro (⟨row, hrow, htarget⟩ | ⟨⟨row, hrow, hwindow, hold | hnew⟩, hnamed⟩)
    · exact .ref hrow htarget
    · exact .old hrow hwindow hold hnamed
    · exact .new hrow hwindow hnew hnamed
  · rintro (⟨hrow, htarget⟩ | ⟨hrow, hwindow, hold, hnamed⟩ | ⟨hrow, hwindow, hnew, hnamed⟩)
    · exact .inl ⟨_, hrow, htarget⟩
    · exact .inr ⟨⟨_, hrow, hwindow, .inl hold⟩, hnamed⟩
    · exact .inr ⟨⟨_, hrow, hwindow, .inr hnew⟩, hnamed⟩

theorem intoEntry_open {entry : PendingEntry} (h : row.intoEntry = .ok entry)
    (hopen : row.status = "open") :
    entry.status = .open ∧ row.argsDigest = entry.argsDigest.toHex := by
  simp only [PendingRow.intoEntry, bind_eq_ok, pure_eq_ok, refuseIf_eq_ok] at h
  obtain ⟨-, -, sessionId, -, -, -, digest, hdigest, status, hstatus, disposition, -, -, -, -, -,
    -, -, rfl⟩ := h
  constructor
  · have hparse : PendingStatus.parse row.status = some .open := by rw [hopen]; rfl
    rw [hparse] at hstatus
    exact (Except.ok.inj hstatus).symm
  · rw [← fromHex_eq_ok]
    cases hhex : fromHex row.argsDigest with
    | error e => simp [hhex, Except.toOption, orCorrupt] at hdigest
    | ok other => simpa [hhex, Except.toOption, orCorrupt] using hdigest

theorem mem_openDigests {rows : List PendingRow} {digests : List ContentHash}
    (h : openDigests rows = .ok digests) (hrow : row ∈ rows) (hopen : row.status = "open")
    (hdigest : row.argsDigest = hash.toHex) (hnamed : hash ≠ tombstoneHash) : hash ∈ digests := by
  induction rows generalizing digests with
  | nil => cases hrow
  | cons first rows ih =>
    simp only [openDigests, bind_eq_ok, pure_eq_ok] at h
    obtain ⟨entry, hentry, rest, hrest, rfl⟩ := h
    rcases mem_cons.mp hrow with rfl | hrow
    · obtain ⟨hstatus, htext⟩ := intoEntry_open hentry hopen
      have hargs : entry.argsDigest = hash := toHex_inj.mp (htext.symm.trans hdigest)
      simp [hstatus, hargs, hnamed]
    · have hmem := ih hrest hrow
      split
      · exact mem_cons_of_mem _ hmem
      · exact hmem

theorem mem_openBlobRoots {roots : List ContentHash} (h : openBlobRoots store = .ok roots)
    (hrow : row ∈ store.pendingEffects.rows) (hopen : row.status = "open")
    (hdigest : row.argsDigest = hash.toHex) (hnamed : hash ≠ tombstoneHash) : hash ∈ roots := by
  simp only [openBlobRoots, bind_eq_ok, pure_eq_ok] at h
  obtain ⟨digests, hdigests, -, -, rfl⟩ := h
  rw [mem_sortDedup]
  exact mem_openDigests hdigests (mem_filter.mpr ⟨hrow, by simpa using hopen⟩) hopen hdigest hnamed

end Roots

/-! ## The walk over the checkpoints -/

section Marking

variable {store : ContentStore} {roots : List ContentHash}
variable {marked : Marked} {current : ContentHash}

/-- What a round can do: pass over a checkpoint that is marked or not there, or mark one
and queue its parents. -/
theorem markStep_cases {marked' : Marked} {pushed : List ContentHash}
    (h : markStep store marked current = .ok (marked', pushed)) :
    (marked' = marked ∧ pushed = [] ∧
      (current ∈ marked.reachable ∨ store.hasCheckpoint current = false)) ∨
    ∃ row ∈ store.checkpoints.rows, ∃ tree : Option ContentHash,
      row.hash = current.toHex ∧ row.treeHash = tree.map toHex ∧ current ∉ marked.reachable ∧
      marked' = ⟨marked.reachable ++ [current], marked.survivingTrees ++ tree.toList,
        marked.parentsOf ++ [(current, rowParents row)]⟩ ∧
      pushed = (rowParents row).filter (· ∉ marked.reachable ++ [current]) := by
  unfold markStep at h
  split at h
  next hmem =>
    cases h
    exact .inl ⟨rfl, rfl, .inl hmem⟩
  next hnew =>
    simp only [bind_eq_ok, mapError_eq_ok] at h
    obtain ⟨found, hget, h⟩ := h
    cases found with
    | none =>
      cases h
      exact .inl ⟨rfl, rfl, .inr (getCheckpoint_none hget)⟩
    | some checkpoint =>
      obtain ⟨row, hrow, hhash, hparents, htree⟩ := getCheckpoint_some hget
      cases h
      exact .inr ⟨row, hrow, checkpoint.treeHash, hhash, htree, hnew, by rw [hparents],
        by rw [hparents]⟩

structure Marking (store : ContentStore) (roots : List ContentHash) (marked : Marked)
    (queue : List ContentHash) : Prop where
  walked : Walked store.parentsOf (store.hasCheckpoint · = false) roots marked.reachable queue
  stored : ∀ hash ∈ marked.reachable, store.hasCheckpoint hash = true
  recorded : ∀ hash ∈ marked.reachable, (hash, store.parentsOf hash) ∈ marked.parentsOf
  trees : ∀ row ∈ store.checkpoints.rows, ∀ hash ∈ marked.reachable, row.hash = hash.toHex →
    ∀ tree : ContentHash, row.treeHash = some tree.toHex → tree ∈ marked.survivingTrees

theorem Marking.mark {rest : List ContentHash} (h : Marking store roots marked (current :: rest))
    {row : CheckpointRow} {tree : Option ContentHash} (hrow : row ∈ store.checkpoints.rows)
    (hhash : row.hash = current.toHex) (htree : row.treeHash = tree.map toHex) :
    Marking store roots
      ⟨marked.reachable ++ [current], marked.survivingTrees ++ tree.toList,
        marked.parentsOf ++ [(current, rowParents row)]⟩
      (rest ++ (rowParents row).filter (· ∉ marked.reachable ++ [current])) := by
  rw [← parentsOf_of_mem hrow hhash]
  constructor
  case walked => exact h.walked.see
  case stored =>
    refine forall_mem_append.mpr ⟨h.stored, forall_mem_singleton.mpr ?_⟩
    exact hasCheckpoint_eq_true.mpr ⟨row, hrow, hhash⟩
  case recorded =>
    refine forall_mem_append.mpr ⟨?_, forall_mem_singleton.mpr (by simp)⟩
    exact fun hash hmem => mem_append_left _ (h.recorded hash hmem)
  case trees =>
    intro other hother hash hmem hkey named hnamed
    rcases mem_append.mp hmem with hmem | hmem
    · exact mem_append_left _ (h.trees other hother hash hmem hkey named hnamed)
    · rw [mem_singleton.mp hmem, ← hhash] at hkey
      have hsame : other = row := inj_on_of_nodup_map store.checkpoints.nodup hother hrow hkey
      rw [hsame, htree] at hnamed
      cases tree with
      | none => simp at hnamed
      | some tree =>
        have heq : tree = named := by simpa [toHex_inj] using hnamed
        simp [heq]

theorem markReachable_marking (h : markReachable store roots = .ok marked) :
    Marking store roots marked [] := by
  have hends : Ends (markStep store) (Marking store roots) (markReachable store roots) := by
    refine @work_rows_rule _ _ _ _ _ _ CheckpointRow.hash (fun row => (rowParents row).length) _ _
      (fun marked => marked.reachable.map toHex) store.checkpoints.rows ?_ _ _ _ ?_
      ⟨walked_start, by simp, by simp, by simp⟩
    · intro marked current rest marked' pushed hI hstep
      rcases markStep_cases hstep with ⟨rfl, rfl, hdone⟩ | ⟨row, hrow, tree, hhash, htree, hnew,
        rfl, rfl⟩
      · simpa using { hI with walked := hI.walked.drop hdone }
      · refine ⟨hI.mark hrow hhash htree, .inr ⟨row, hrow, ?_, by simp [hhash], ?_⟩⟩
        · simpa [hhash, toHex_inj] using hnew
        · exact length_filter_le _ _
    · simp [unseenWeight_eq]
  rw [h] at hends
  exact hends

theorem mem_reachable_iff (h : markReachable store roots = .ok marked)
    (hlinks : ¬∃ entry ∈ marked.parentsOf, ∃ parent ∈ entry.2, parent ∉ marked.reachable)
    {hash : ContentHash} :
    hash ∈ marked.reachable ↔
      store.hasCheckpoint hash = true ∧ ∃ root ∈ roots, store.Ancestor hash root := by
  have hmarking := markReachable_marking h
  refine ⟨fun hmem => ⟨hmarking.stored hash hmem, hmarking.walked.sound hash (.inl hmem)⟩, ?_⟩
  rintro ⟨hstored, root, hroot, hchain⟩
  induction hchain with
  | refl =>
    rcases hmarking.walked.rooted root hroot with hmem | hqueued | hmissing
    · exact hmem
    · cases hqueued
    · simp [hmissing] at hstored
  | tail _ hlink ih =>
    have hchild := ih (hasCheckpoint_of_mem_parentsOf hlink)
    by_contra hnot
    exact hlinks ⟨_, hmarking.recorded _ hchild, _, hlink, hnot⟩

end Marking

/-! ## The walk over the trees -/

section Retaining

variable {store : ContentStore} {trees : List ContentHash}
variable {retained : Retained} {node : ContentHash × Nat}

/-- What a round can do: pass over a tree that is visited, or visit one, keep what it names
and queue the trees nested in it. -/
theorem treeStep_cases {retained' : Retained} {pushed : List (ContentHash × Nat)}
    (h : treeStep store retained node = .ok (retained', pushed)) :
    (retained' = retained ∧ pushed = [] ∧ node.1 ∈ retained.visitedTrees) ∨
    ∃ row ∈ store.blobs.rows, row.hash = node.1.toHex ∧ node.1 ∉ retained.visitedTrees ∧
      retained' = ⟨retained.visitedTrees ++ [node.1],
        retained.survivingBlobs ++ (blobRefs row.data).map (·.1)⟩ ∧
      pushed = (((blobRefs row.data).filter (·.2)).filter
        (·.1 ∉ retained.visitedTrees ++ [node.1])).map fun entry => (entry.1, node.2 + 1) := by
  unfold treeStep at h
  split at h
  next hmem =>
    cases h
    exact .inl ⟨rfl, rfl, hmem⟩
  next hnew =>
    simp only [bind_eq_ok, mapError_eq_ok] at h
    obtain ⟨found, hget, h⟩ := h
    cases found with
    | none => cases h
    | some data =>
      simp only [bind_eq_ok, pure_eq_ok, decodeCanonical, mapError_eq_ok] at h
      obtain ⟨tree, htree, -, -, h⟩ := h
      cases h
      obtain ⟨row, hrow, hhash, rfl⟩ := getBlob_some hget
      have hrefs : blobRefs row.data = tree.slotPayloadRefs := by simp [blobRefs, htree]
      exact .inr ⟨row, hrow, hhash, hnew, by rw [hrefs], by rw [hrefs]⟩

structure Retaining (store : ContentStore) (trees : List ContentHash) (retained : Retained)
    (queue : List (ContentHash × Nat)) : Prop where
  started : ∀ tree ∈ trees, tree ∈ retained.visitedTrees ∨ tree ∈ queue.map (·.1)
  kept : trees ⊆ retained.survivingBlobs
  stored : ∀ tree ∈ retained.visitedTrees, ∃ row ∈ store.blobs.rows, row.hash = tree.toHex
  closed : ∀ row ∈ store.blobs.rows, ∀ tree ∈ retained.visitedTrees, row.hash = tree.toHex →
    ∀ entry ∈ blobRefs row.data, entry.1 ∈ retained.survivingBlobs ∧
      (entry.2 = true → entry.1 ∈ retained.visitedTrees ∨ entry.1 ∈ queue.map (·.1))

variable {rest : List (ContentHash × Nat)}

theorem Retaining.drop (h : Retaining store trees retained (node :: rest))
    (hdone : node.1 ∈ retained.visitedTrees) : Retaining store trees retained rest := by
  have hmet : ∀ tree, tree ∈ retained.visitedTrees ∨ tree ∈ (node :: rest).map (·.1) →
      tree ∈ retained.visitedTrees ∨ tree ∈ rest.map (·.1) := by
    simpa using @met_mono _ (fun _ => False) _ _ _ _ _ (Subset.refl _)
      (Subset.refl (rest.map (·.1))) (.inl hdone)
  refine { h with started := fun tree htree => hmet tree (h.started tree htree), closed := ?_ }
  intro row hrow tree htree hhash entry hentry
  obtain ⟨hkept, hnested⟩ := h.closed row hrow tree htree hhash entry hentry
  exact ⟨hkept, fun hkind => hmet _ (hnested hkind)⟩

theorem Retaining.visit (h : Retaining store trees retained (node :: rest)) {row : BlobRow}
    (hrow : row ∈ store.blobs.rows) (hhash : row.hash = node.1.toHex) :
    Retaining store trees
      ⟨retained.visitedTrees ++ [node.1], retained.survivingBlobs ++ (blobRefs row.data).map (·.1)⟩
      (rest ++ (((blobRefs row.data).filter (·.2)).filter
        (·.1 ∉ retained.visitedTrees ++ [node.1])).map fun entry => (entry.1, node.2 + 1)) := by
  have hmet : ∀ pushed tree, tree ∈ retained.visitedTrees ∨ tree ∈ (node :: rest).map (·.1) →
      tree ∈ retained.visitedTrees ++ [node.1] ∨ tree ∈ (rest ++ pushed).map (·.1) := by
    intro pushed
    simpa using @met_mono _ (fun _ => False) _ _ _ _ _ (subset_append_left _ [node.1])
      (map_subset (·.1) (subset_append_left rest pushed)) (.inl (by simp))
  constructor
  case started => exact fun tree htree => hmet _ tree (h.started tree htree)
  case kept => exact fun tree htree => mem_append_left _ (h.kept htree)
  case stored =>
    exact forall_mem_append.mpr ⟨h.stored, forall_mem_singleton.mpr ⟨row, hrow, hhash⟩⟩
  case closed =>
    intro other hother tree htree hkey entry hentry
    rcases mem_append.mp htree with htree | htree
    · obtain ⟨hkept, hnested⟩ := h.closed other hother tree htree hkey entry hentry
      exact ⟨mem_append_left _ hkept, fun hkind => hmet _ _ (hnested hkind)⟩
    · rw [mem_singleton.mp htree, ← hhash] at hkey
      have hsame : other = row := inj_on_of_nodup_map store.blobs.nodup hother hrow hkey
      rw [hsame] at hentry
      refine ⟨mem_append_right _ (mem_map_of_mem hentry), fun hkind => ?_⟩
      by_cases hseen : entry.1 ∈ retained.visitedTrees ++ [node.1]
      · exact .inl hseen
      · refine .inr (mem_map.mpr ⟨(entry.1, node.2 + 1), mem_append_right _ ?_, rfl⟩)
        refine mem_map.mpr ⟨entry, ?_, rfl⟩
        simpa [hentry, hkind] using hseen

theorem retainTrees_retaining (h : retainTrees store trees = .ok retained) :
    Retaining store trees retained [] := by
  have hends : Ends (treeStep store) (Retaining store trees) (retainTrees store trees) := by
    refine @work_rows_rule _ _ _ _ _ _ BlobRow.hash (fun row => (blobRefs row.data).length) _ _
      (fun retained => retained.visitedTrees.map toHex) store.blobs.rows ?_ _ _ _ ?_
      ⟨fun tree htree => .inr (by simpa using htree), Subset.refl _, by simp, by simp⟩
    · intro retained node rest retained' pushed hI hstep
      rcases treeStep_cases hstep with ⟨rfl, rfl, hdone⟩ | ⟨row, hrow, hhash, hnew, rfl, rfl⟩
      · simpa using hI.drop hdone
      · refine ⟨hI.visit hrow hhash, .inr ⟨row, hrow, ?_, by simp [hhash], ?_⟩⟩
        · simpa [hhash, toHex_inj] using hnew
        · rw [length_map]
          exact (length_filter_le _ _).trans (length_filter_le _ _)
    · simp [unseenWeight_eq]
  rw [h] at hends
  exact hends

theorem mem_blobRefs {data : List UInt8} {tree : ContextTree} {entry : TreeEntry}
    (htree : ContextTree.fromCanonicalBytes data = .ok tree) (hentry : entry ∈ tree.entries) :
    (entry.hash, decide (entry.kind = .tree)) ∈ blobRefs data := by
  simp only [blobRefs, htree, ContextTree.slotPayloadRefs]
  exact mem_map_of_mem hentry

end Retaining

/-! ## Plans -/

section Plans

variable {store : ContentStore} {options : GcOptions} {plan : GcPlan}

def GcOptions.start (options : GcOptions) : Nat := windowStart options.nowMs options.reflogGraceMs

structure ListsGarbage (store : ContentStore) (options : GcOptions)
    (garbage : List ContentHash) : Prop where
  sorted : (garbage.map toHex).Pairwise (· < ·)
  mem_iff : ∀ hash, hash ∈ garbage ↔
    store.hasCheckpoint hash = true ∧ ¬Reachable store options.start hash

theorem KeptTree.retained {start : Nat} {roots : List ContentHash} {marked : Marked}
    {retained : Retained} (hmarking : Marking store roots marked [])
    (hreach : ∀ hash, hash ∈ marked.reachable ↔
      store.hasCheckpoint hash = true ∧ Reachable store start hash)
    (hretaining : Retaining store (fresh [] marked.survivingTrees) retained [])
    {tree : ContentHash} (h : KeptTree store start tree) :
    tree ∈ retained.visitedTrees ∧ tree ∈ retained.survivingBlobs := by
  induction h with
  | @root row hash tree hhash hrow hkey htree =>
    have hmarked := (hreach hash).mpr ⟨hasCheckpoint_eq_true.mpr ⟨row, hrow, hkey⟩, hhash⟩
    have hsurvives : tree ∈ fresh [] marked.survivingTrees :=
      mem_fresh.mpr ⟨hmarking.trees row hrow hash hmarked hkey tree htree, not_mem_nil⟩
    exact ⟨by simpa using hretaining.started tree hsurvives, hretaining.kept hsurvives⟩
  | nested _ hrow hhash htree hentry hkind ih =>
    have hnamed := hretaining.closed _ hrow _ ih.1 hhash _ (mem_blobRefs htree hentry)
    exact ⟨by simpa using hnamed.2 (decide_eq_true hkind), hnamed.1⟩

theorem gcCompute_reads (h : gcCompute store options = .ok plan) :
    ∀ row ∈ store.checkpoints.rows, ∃ hash : ContentHash, row.hash = hash.toHex := by
  simp only [gcCompute, bind_eq_ok, mapError_eq_ok] at h
  obtain ⟨-, -, -, -, -, -, -, -, -, -, checkpoints, hcheckpoints, -⟩ := h
  intro row hrow
  have hmem := (allCheckpointHashes_eq_ok hcheckpoints).1.mem_iff.mpr (mem_map_of_mem hrow)
  obtain ⟨hash, -, hhash⟩ := mem_map.mp hmem
  exact ⟨hash, hhash.symm⟩

/-- A plan lists the checkpoints that are not reachable; the blobs of the kept trees are
there, and no blob that is kept is listed. -/
theorem gcCompute_spec (h : gcCompute store options = .ok plan) :
    ListsGarbage store options plan.unreachableCheckpoints ∧
      (∀ tree, KeptTree store options.start tree →
        ∃ row ∈ store.blobs.rows, row.hash = tree.toHex) ∧
      ∀ hash ∈ plan.unreferencedBlobs, ¬KeptBlob store options.start hash := by
  simp only [gcCompute, bind_eq_ok, pure_eq_ok, mapError_eq_ok, refuseIf_eq_ok] at h
  obtain ⟨pairs, hpairs, -, -, moves, hmoves, marked, hmarked, -, hlinks, checkpoints,
    hcheckpoints, retained, hretained, blobs, hblobs, pending, hpending, rfl⟩ := h
  have hreach : ∀ hash, hash ∈ marked.reachable ↔
      store.hasCheckpoint hash = true ∧ Reachable store options.start hash := by
    intro hash
    simp only [mem_reachable_iff hmarked hlinks, mem_roots hpairs hmoves]
    rfl
  have hretaining := retainTrees_retaining hretained
  have hkept : ∀ tree, KeptTree store options.start tree →
      tree ∈ retained.visitedTrees ∧ tree ∈ retained.survivingBlobs :=
    fun tree => KeptTree.retained (markReachable_marking hmarked) hreach hretaining
  refine ⟨⟨?_, ?_⟩, fun tree htree => hretaining.stored tree (hkept tree htree).1, ?_⟩
  · have hsorted := (allCheckpointHashes_eq_ok hcheckpoints).2
    exact hsorted.sublist (filter_sublist.map _)
  · intro hash
    have hlisted : hash ∈ checkpoints ↔ store.hasCheckpoint hash = true := by
      have hmem := (allCheckpointHashes_eq_ok hcheckpoints).1.mem_iff (a := hash.toHex)
      rw [hasCheckpoint_eq_true]
      simpa [toHex_inj] using hmem
    simp only [mem_filter, hlisted, decide_eq_true_eq, hreach]
    tauto
  · intro hash hmem halive
    have hnot : hash ∉ retained.survivingBlobs ++ pending := by simpa using (mem_filter.mp hmem).2
    apply hnot
    cases halive with
    | tree htree => exact mem_append_left _ (hkept hash htree).2
    | entry htree hrow hhash hdecode hentry =>
      have hvisited := (hkept _ htree).1
      exact mem_append_left _
        (hretaining.closed _ hrow _ hvisited hhash _ (mem_blobRefs hdecode hentry)).1
    | pending hrow hopen hdigest hnamed =>
      exact mem_append_right _ (mem_openBlobRoots hpending hrow hopen hdigest hnamed)

end Plans

/-! ## Batches

A batch is taken from the plan, so it keeps all that is alive. It follows the order of the
hashes and not the parent links, so a child may stay behind its parent. -/

/-! ## Collections -/

section Collections

variable {store store' : ContentStore} {options : GcOptions} {report : GcReport}

theorem take_deletedCheckpoints (plan : GcPlan) (maxDeletes : Nat) :
    plan.unreachableCheckpoints.take (boundReport plan maxDeletes).deletedCheckpoints =
      plan.unreachableCheckpoints.take maxDeletes := by
  rw [take_eq_take_iff]
  simp only [boundReport]
  omega

theorem collectGarbage_cases (store : ContentStore) (options : GcOptions) :
    (∃ error, collectGarbage store options = (.error error, store)) ∨
    ∃ plan report, gcCompute store options = .ok plan ∧
      collectGarbage store options = (.ok report,
        if options.dryRun then store
        else store.deleteCheckpointsAndBlobs
          (plan.unreachableCheckpoints.take options.maxDeletesPerCall)
          (plan.unreferencedBlobs.take report.deletedBlobs)) := by
  cases hplan : gcCompute store options with
  | error error =>
    refine .inl ⟨error, ?_⟩
    cases hdry : options.dryRun <;>
      simp [collectGarbage, gcPreview, hplan, hdry, bind, Except.bind]
  | ok plan =>
    refine .inr ⟨plan, boundReport plan options.maxDeletesPerCall, rfl, ?_⟩
    rw [← take_deletedCheckpoints]
    cases hdry : options.dryRun with
    | true => simp [collectGarbage, gcPreview, hplan, hdry, bind, Except.bind, pure, Except.pure]
    | false =>
      simp only [collectGarbage, hplan, hdry, Bool.false_eq_true, if_false]
      split
      next hnone => simp [hnone, deleteCheckpointsAndBlobs]
      next => rfl

/-- What is alive in the window is in `store'` as it was in `store`. -/
structure KeepsAlive (store : ContentStore) (start : Nat) (store' : ContentStore) : Prop where
  refs : store'.refs = store.refs
  reflog : store'.reflog = store.reflog ∧ store'.reflogSeq = store.reflogSeq
  pending : store'.pendingEffects = store.pendingEffects
  checkpoints : ∀ hash, Reachable store start hash → ∀ row ∈ store.checkpoints.rows,
    row.hash = hash.toHex → row ∈ store'.checkpoints.rows
  trees : ∀ tree, KeptTree store start tree → ∃ row ∈ store'.blobs.rows, row.hash = tree.toHex
  blobs : ∀ hash, KeptBlob store start hash → ∀ row ∈ store.blobs.rows,
    row.hash = hash.toHex → row ∈ store'.blobs.rows

theorem deleteBatch_keepsAlive {plan : GcPlan} (hplan : gcCompute store options = .ok plan)
    (checkpoints blobs : Nat) :
    KeepsAlive store options.start (store.deleteCheckpointsAndBlobs
      (plan.unreachableCheckpoints.take checkpoints) (plan.unreferencedBlobs.take blobs)) := by
  obtain ⟨hgarbage, htrees, hblobs⟩ := gcCompute_spec hplan
  have hkeeps : ∀ hash, KeptBlob store options.start hash →
      hash ∉ plan.unreferencedBlobs.take blobs :=
    fun hash halive hmem => hblobs hash (mem_of_mem_take hmem) halive
  refine ⟨rfl, ⟨rfl, rfl⟩, rfl, ?_, ?_, ?_⟩
  · intro hash hreach row hrow hhash
    have hnot : hash ∉ plan.unreachableCheckpoints.take checkpoints := fun hmem =>
      ((hgarbage.mem_iff hash).mp (mem_of_mem_take hmem)).2 hreach
    exact (mem_deleteCheckpoints hhash).mpr ⟨hrow, hnot⟩
  · intro tree htree
    obtain ⟨row, hrow, hhash⟩ := htrees tree htree
    have hnot := hkeeps tree (.tree htree)
    exact ⟨row, (mem_deleteBlobs hhash).mpr ⟨hrow, hnot⟩, hhash⟩
  · intro hash halive row hrow hhash
    exact (mem_deleteBlobs hhash).mpr ⟨hrow, hkeeps hash halive⟩

theorem KeepsAlive.refl {start : Nat} (htrees : ∀ tree, KeptTree store start tree →
    ∃ row ∈ store.blobs.rows, row.hash = tree.toHex) : KeepsAlive store start store :=
  ⟨rfl, ⟨rfl, rfl⟩, rfl, fun _ _ _ hrow _ => hrow, htrees, fun _ _ _ hrow _ => hrow⟩

theorem KeepsAlive.mono {start start' : Nat} (hle : start' ≤ start)
    (h : KeepsAlive store start' store') : KeepsAlive store start store' :=
  { h with
    checkpoints := fun hash hreach => h.checkpoints hash (hreach.mono hle)
    trees := fun tree htree => h.trees tree (htree.mono hle)
    blobs := fun hash halive => h.blobs hash (halive.mono hle) }

/-- A collection that fails changes nothing, and one that succeeds keeps all that the
refs, the moves within the grace period and the open effects reach. -/
theorem collectGarbage_keepsAlive (store : ContentStore) (options : GcOptions) :
    (∀ error store', collectGarbage store options = (.error error, store') → store' = store) ∧
    ∀ report store', collectGarbage store options = (.ok report, store') →
      KeepsAlive store (options.nowMs.toNat - options.reflogGraceMs.toNat) store' := by
  rcases collectGarbage_cases store options with ⟨error, hrun⟩ | ⟨plan, report, hplan, hrun⟩
  · rw [hrun]
    refine ⟨fun _ _ h => (Prod.mk.inj h).2.symm, fun _ _ h => ?_⟩
    cases (Prod.mk.inj h).1
  · rw [hrun]
    refine ⟨fun _ _ h => ?_, fun report' store' h => ?_⟩
    · cases (Prod.mk.inj h).1
    obtain ⟨-, rfl⟩ := Prod.mk.inj h
    -- the code's window is as long, or longer where the clock has left the column's range
    apply @KeepsAlive.mono _ _ _ options.start (Nat.min_le_left _ _)
    split
    · exact KeepsAlive.refl (gcCompute_spec hplan).2.1
    · exact deleteBatch_keepsAlive hplan _ _

/-! ## Links of what is left -/

def ParentsPresent (store : ContentStore) : Prop :=
  ∀ row ∈ store.checkpoints.rows, ∀ parent ∈ rowParents row,
    store.hasCheckpoint parent = true

instance (store : ContentStore) : Decidable (ParentsPresent store) :=
  inferInstanceAs (Decidable (∀ row ∈ _, ∀ parent ∈ _, _ = true))

theorem ListsGarbage.unique {garbage garbage' : List ContentHash}
    (h : ListsGarbage store options garbage) (h' : ListsGarbage store options garbage') :
    garbage = garbage' := by
  have hmem : ∀ hash, hash ∈ garbage ↔ hash ∈ garbage' := fun hash =>
    (h.mem_iff hash).trans (h'.mem_iff hash).symm
  have htexts : garbage.map toHex = garbage'.map toHex :=
    h.sorted.sortedLT.eq_of_mem_iff h'.sorted.sortedLT fun text => by simp [hmem]
  exact map_injective_iff.mpr (fun _ _ => toHex_inj.mp) htexts

theorem parentsPresent_deleteBatch {plan : GcPlan} (hplan : gcCompute store options = .ok plan)
    (hstore : ParentsPresent store) (n : Nat) (blobs : List ContentHash) :
    ParentsPresent (store.deleteCheckpointsAndBlobs (plan.unreachableCheckpoints.take n) blobs) ↔
      ∀ child ∈ plan.unreachableCheckpoints.drop n, ∀ parent ∈ store.parentsOf child,
        parent ∉ plan.unreachableCheckpoints.take n := by
  have hgarbage := (gcCompute_spec hplan).1
  have hnodup : plan.unreachableCheckpoints.Nodup :=
    List.Nodup.of_map toHex (hgarbage.sorted.imp fun hlt => ne_of_lt hlt)
  constructor
  · intro hwhole child hchild parent hparent
    obtain ⟨row, hrow, hhash⟩ := hasCheckpoint_eq_true.mp
      ((hgarbage.mem_iff child).mp (mem_of_mem_drop hchild)).1
    have hstays : child ∉ plan.unreachableCheckpoints.take n := fun htake =>
      disjoint_take_drop hnodup le_rfl htake hchild
    rw [parentsOf_of_mem hrow hhash] at hparent
    have hpresent := hwhole row ((mem_deleteCheckpoints hhash).mpr ⟨hrow, hstays⟩) parent hparent
    exact (hasCheckpoint_delete.mp hpresent).2
  · intro hclosed row hleft parent hparent
    have hrow := mem_of_mem_deleteCheckpoints hleft
    obtain ⟨child, hhash⟩ := gcCompute_reads hplan row hrow
    have hlink : parent ∈ store.parentsOf child := by rwa [parentsOf_of_mem hrow hhash]
    refine hasCheckpoint_delete.mpr ⟨hstore row hrow parent hparent, fun htake => ?_⟩
    by_cases hreach : Reachable store options.start child
    · -- what is reachable keeps its parents
      exact ((hgarbage.mem_iff parent).mp (mem_of_mem_take htake)).2 (hreach.parent hlink)
    · have hchild : child ∈ plan.unreachableCheckpoints := (hgarbage.mem_iff child).mpr
        ⟨hasCheckpoint_eq_true.mpr ⟨row, hrow, hhash⟩, hreach⟩
      have hstays := ((mem_deleteCheckpoints hhash).mp hleft).2
      rw [← take_append_drop n plan.unreachableCheckpoints] at hchild
      rcases mem_append.mp hchild with hmem | hmem
      · exact hstays hmem
      · exact hclosed child hmem parent hlink htake

/-- A collection of a store with whole links leaves them whole exactly if it is a dry run,
or no garbage that is left for later has a parent in the batch. -/
theorem collectGarbage_parentsPresent_iff {garbage : List ContentHash}
    (hstore : ParentsPresent store) (hrun : collectGarbage store options = (.ok report, store'))
    (hgarbage : ListsGarbage store options garbage) :
    ParentsPresent store' ↔ options.dryRun = true ∨
      ∀ child ∈ garbage.drop options.maxDeletesPerCall, ∀ parent ∈ store.parentsOf child,
        parent ∉ garbage.take options.maxDeletesPerCall := by
  rcases collectGarbage_cases store options with ⟨error, hrun'⟩ | ⟨plan, report', hplan, hrun'⟩
  · rw [hrun] at hrun'
    cases (Prod.mk.inj hrun').1
  obtain ⟨-, rfl⟩ := Prod.mk.inj (hrun.symm.trans hrun')
  rw [hgarbage.unique (gcCompute_spec hplan).1]
  cases hdry : options.dryRun with
  | true => simpa [hdry] using hstore
  | false =>
    simp only [Bool.false_eq_true, if_false, false_or]
    exact parentsPresent_deleteBatch hplan hstore _ _

end Collections

/-! ## A batch of one -/

def looseStore : ContentStore :=
  { openInMemory with checkpoints := ⟨[baseRow, tipRow], by decide +kernel⟩ }

theorem dangling_parent_looseStore : looseStore.Readable ∧ ParentsPresent looseStore ∧
      (collectGarbage looseStore { maxDeletesPerCall := 1 }).1.isOk = true ∧
      ¬ParentsPresent (collectGarbage looseStore { maxDeletesPerCall := 1 }).2 := by
  decide +kernel

/-- Two children, and their parent behind them in the order of the hashes. -/
def twigStore : ContentStore :=
  { openInMemory with
    checkpoints :=
      ⟨[plainRow (hashOf 1) [hashOf 3] "twig", plainRow (hashOf 2) [hashOf 3] "twig",
        plainRow (hashOf 3) [] "root"], by decide +kernel⟩ }

theorem listsGarbage_twigStore (options : GcOptions) :
    ListsGarbage twigStore options [hashOf 1, hashOf 2, hashOf 3] where
  sorted := by decide +kernel
  mem_iff := by
    intro hash
    have hnone : ¬Reachable twigStore options.start hash := by
      rintro ⟨root, hroot, -⟩
      cases hroot with
      | ref hrow | old hrow | new hrow => cases hrow
    have hstored : twigStore.hasCheckpoint hash = true ↔
        hashOf 1 = hash ∨ hashOf 2 = hash ∨ hashOf 3 = hash := by
      rw [hasCheckpoint_eq_true]
      simp [twigStore, plainRow, toHex_inj]
    simp [hstored, hnone, eq_comm]

/-- The first child is deleted; the second stays, and so does its parent. -/
theorem collectGarbage_parentsPresent_iff_twigStore : ∃ report store',
      collectGarbage twigStore { maxDeletesPerCall := 1 } = (.ok report, store') ∧
      hashOf 3 ∈ twigStore.parentsOf (hashOf 2) ∧ ParentsPresent store' := by
  obtain ⟨report, hreport⟩ :
      ∃ report, (collectGarbage twigStore { maxDeletesPerCall := 1 }).1 = .ok report :=
    exists_eq_ok (by decide +kernel)
  have hrun : collectGarbage twigStore { maxDeletesPerCall := 1 } =
      (.ok report, (collectGarbage twigStore { maxDeletesPerCall := 1 }).2) :=
    Prod.ext hreport rfl
  have hiff := collectGarbage_parentsPresent_iff (by decide +kernel) hrun (listsGarbage_twigStore _)
  exact ⟨report, _, hrun, by decide +kernel, hiff.mpr (.inr (by decide +kernel))⟩

end BittyAi.Slice
