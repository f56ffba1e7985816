/-
BittyAi.Slice.MergeCommitTheorems — a merge commit writes everything or nothing, and what
it writes keeps the changes of both sides.

A commit keeps a row that stands under its id. The id hashes the parents in sorted order,
so a merge of the same tips the other way round finds the row of the first merge.
-/
import BittyAi.Slice.ContextTreeTheorems
import BittyAi.Slice.MergeBaseTheorems

namespace BittyAi.Slice

open Lib Session ContentStore ContentHash ContextTree

variable {store store' : ContentStore} {input : MergeInput} {checkpoint : Checkpoint}
variable {merged tree : ContextTree}

/-! ## The merged tree -/

theorem decodeCanonical_eq_ok {bytes : List UInt8} :
    decodeCanonical bytes = .ok tree ↔ fromCanonicalBytes bytes = .ok tree :=
  mapError_eq_ok

theorem materializeTree_eq_ok {id : ContentHash} : materializeTree store id = .ok tree ↔
      ∃ checkpoint, store.getCheckpoint id = .ok (some checkpoint) ∧
        ∃ treeHash, checkpoint.treeHash = some treeHash ∧
          ∃ bytes, store.getBlob treeHash = .ok (some bytes) ∧
            fromCanonicalBytes bytes = .ok tree := by
  unfold materializeTree
  simp only [bind_eq_ok, mapError_eq_ok]
  constructor
  · rintro ⟨checkpoint, hget, h⟩
    cases checkpoint with
    | none => cases h
    | some checkpoint =>
      refine ⟨checkpoint, hget, ?_⟩
      cases htree : checkpoint.treeHash with
      | none => simp [htree] at h
      | some treeHash =>
        simp only [htree, bind_eq_ok, mapError_eq_ok] at h
        obtain ⟨bytes, hbytes, h⟩ := h
        cases bytes with
        | none => cases h
        | some bytes => exact ⟨treeHash, rfl, bytes, hbytes, decodeCanonical_eq_ok.mp h⟩
  · rintro ⟨checkpoint, hget, treeHash, htree, bytes, hbytes, hdecode⟩
    refine ⟨some checkpoint, hget, ?_⟩
    simp only [htree, bind_eq_ok, mapError_eq_ok]
    exact ⟨some bytes, hbytes, decodeCanonical_eq_ok.mpr hdecode⟩

theorem materializeTree_wellFormed {id : ContentHash}
    (h : materializeTree store id = .ok tree) : tree.WellFormed := by
  obtain ⟨-, -, -, -, bytes, -, hdecode⟩ := materializeTree_eq_ok.mp h
  exact fromCanonicalBytes_wellFormed hdecode

def KeepsSides (base ours theirs merged : ContextTree) : Prop :=
  ∀ name, (theirs.get name = base.get name → merged.get name = ours.get name) ∧
    (ours.get name = base.get name → merged.get name = theirs.get name)

theorem mergeTips_spec {ours theirs : ContentHash} (h : mergeTips store ours theirs = .ok merged) :
    merged.WellFormed ∧ ∃ base baseTree oursTree theirsTree,
      strictMergeBase store ours theirs = .ok base ∧
      materializeTree store base = .ok baseTree ∧ materializeTree store ours = .ok oursTree ∧
      materializeTree store theirs = .ok theirsTree ∧
      KeepsSides baseTree oursTree theirsTree merged := by
  simp only [mergeTips, bind_eq_ok, pure_eq_ok, refuseIf_eq_ok, exists_const, not_not] at h
  obtain ⟨base, hbase, baseTree, hbaseTree, oursTree, hours, theirsTree, htheirs, hclean, rfl⟩ := h
  exact ⟨(materializeTree_wellFormed hours).merge3way (materializeTree_wellFormed htheirs),
    base, baseTree, oursTree, theirsTree, hbase, hbaseTree, hours, htheirs,
    merge3way_keeps hclean⟩

/-! ## The commit -/

def MergeInput.effective (input : MergeInput) (merged : ContextTree) : CheckpointDraft :=
  input.draft.withTree merged.canonicalBytes

def mergedStore (input : MergeInput) (merged : ContextTree) (store : ContentStore) : ContentStore :=
  committed merged.canonicalBytes input.atMs (input.effective merged) [headName] input.atMs store

theorem mergeCommit_spec (tasks : TaskGenerationLookup) (input : MergeInput)
    (store : ContentStore) :
    Exiting.wp (mergeCommit tasks input)
      (fun checkpoint store' => ∃ merged previous, ∃ branch : BranchName,
        mergeTips store input.ours input.theirs = .ok merged ∧
        checkpoint = (input.effective merged).checkpoint ∧ branch.text = input.targetBranch ∧
        Moved (mergedStore input merged store) store' branch.text previous
          (some checkpoint.id) input.reason input.actor input.atMs)
      (fun _ store' => store' = store) store := by
  unfold mergeCommit
  simp only [Exiting.wp_bind, Exiting.wp_attempt, Exiting.wp_mapExit, implies_true, and_true]
  intro _ _ _ _ merged hmerged
  refine Exiting.wp_mono (commitCheckpointWithBranch_spec merged.canonicalBytes input.atMs
    input.draft input.targetBranch input.reason input.actor input.atMs store) ?_ fun _ _ => id
  rintro checkpoint store' ⟨rfl, branch, previous, hname, hmoved⟩
  exact ⟨merged, previous, branch, hmerged, rfl, hname, hmoved⟩

/-! ## The contract -/

structure MergeContract (input : MergeInput) (store : ContentStore) (checkpoint : Checkpoint)
    (store' : ContentStore) : Prop where
  parents : checkpoint.parents = [input.ours, input.theirs]
  stored : store'.getCheckpoint checkpoint.id = .ok (some checkpoint)
  head : store'.getRef headName = .ok (some checkpoint.id)
  target : store'.getRef input.targetBranch = .ok (some checkpoint.id)
  reflog : ∃ previous, store.getRef input.targetBranch = .ok previous ∧
    store'.reflog = store.reflog ++
      [⟨store.reflogSeq + 1, input.targetBranch, previous.map toHex,
        checkpoint.id.toHex, input.reason, input.actor, input.atMs.toInt64⟩]
  tree : ∃ merged, mergeTips store input.ours input.theirs = .ok merged ∧
    materializeTree store' checkpoint.id = .ok merged
  sides : ∃ base baseTree oursTree theirsTree merged,
    StrictBase store input.ours input.theirs base ∧
    materializeTree store base = .ok baseTree ∧
    materializeTree store input.ours = .ok oursTree ∧
    materializeTree store input.theirs = .ok theirsTree ∧
    materializeTree store' checkpoint.id = .ok merged ∧
    KeepsSides baseTree oursTree theirsTree merged

/-- What is stored under the id of the merge commit is this commit, and what is stored under
the hash of its tree is an intact copy of the tree. -/
def Unclaimed (input : MergeInput) (store : ContentStore) : Prop :=
  ∀ merged, mergeTips store input.ours input.theirs = .ok merged →
    (∀ row ∈ store.checkpoints.rows, row.hash = (input.effective merged).canonicalHash.toHex →
      decodeRow row = .ok (input.effective merged)) ∧
    ∀ row ∈ store.blobs.rows, row.hash = (compute merged.canonicalBytes).toHex →
      compute row.data = compute merged.canonicalBytes ∧
        fromCanonicalBytes row.data = .ok merged

theorem getBlob_insertBlob {data : List UInt8} {createdAtMs : UInt64}
    (hdata : fromCanonicalBytes data = .ok tree) :
    (∃ bytes, (insertBlob data createdAtMs store).getBlob (compute data) =
        .ok (some bytes) ∧ fromCanonicalBytes bytes = .ok tree) ↔
      ∀ row ∈ store.blobs.rows, row.hash = (compute data).toHex →
        compute row.data = compute data ∧ fromCanonicalBytes row.data = .ok tree := by
  have hfind : (insertBlob data createdAtMs store).blobs.find? (compute data).toHex =
      some ((store.blobs.find? (compute data).toHex).getD
        ⟨(compute data).toHex, data, createdAtMs.toInt64⟩) :=
    KeyedTable.find?_insertOrIgnore_self store.blobs
      ⟨(compute data).toHex, data, createdAtMs.toInt64⟩
  simp only [getBlob_eq_some_iff hfind]
  cases hold : store.blobs.find? (compute data).toHex with
  | none =>
    have hfree := KeyedTable.find?_eq_none.mp hold
    refine ⟨fun _ row hrow hhash => absurd hhash (hfree row hrow), fun _ => ?_⟩
    exact ⟨data, ⟨rfl, rfl⟩, hdata⟩
  | some old =>
    obtain ⟨hmem, hhash⟩ := KeyedTable.find?_eq_some.mp hold
    simp only [Option.getD_some]
    constructor
    · rintro ⟨bytes, ⟨hcompute, rfl⟩, hdecode⟩ row hrow hsame
      have heq : row = old :=
        List.inj_on_of_nodup_map store.blobs.nodup hrow hmem (hsame.trans hhash.symm)
      rw [heq]
      exact ⟨hcompute, hdecode⟩
    · intro hall
      obtain ⟨hcompute, hdecode⟩ := hall old hmem hhash
      exact ⟨old.data, ⟨hcompute, rfl⟩, hdecode⟩

variable {previous : Option ContentHash} {target : Option ContentHash}

theorem getCheckpoint_merged {merged : ContextTree}
    {branch : BranchName}
    (hmoved : Moved (mergedStore input merged store) store' branch.text previous target
      input.reason input.actor input.atMs) :
    store'.getCheckpoint (input.effective merged).canonicalHash =
        .ok (some (input.effective merged).checkpoint) ↔
      ∀ row ∈ store.checkpoints.rows, row.hash = (input.effective merged).canonicalHash.toHex →
        decodeRow row = .ok (input.effective merged) := by
  have hcheckpoints : store'.checkpoints =
      (insertCheckpoint (input.effective merged) store).checkpoints := by
    rw [hmoved.frame]
    exact checkpoints_committed ..
  rw [getCheckpoint_congr hcheckpoints]
  exact getCheckpoint_insertCheckpoint (input.effective merged) store

theorem materializeTree_merged {merged : ContextTree}
    {branch : BranchName} (hvalid : merged.WellFormed)
    (hmoved : Moved (mergedStore input merged store) store' branch.text previous target
      input.reason input.actor input.atMs)
    (hstored : store'.getCheckpoint (input.effective merged).canonicalHash =
      .ok (some (input.effective merged).checkpoint)) :
    materializeTree store' (input.effective merged).canonicalHash = .ok merged ↔
      ∀ row ∈ store.blobs.rows, row.hash = (compute merged.canonicalBytes).toHex →
        compute row.data = compute merged.canonicalBytes ∧
          fromCanonicalBytes row.data = .ok merged := by
  have hblobs : store'.blobs = (insertBlob merged.canonicalBytes input.atMs store).blobs := by
    rw [hmoved.frame]
    rfl
  have hget : ∀ hash, store'.getBlob hash =
      (insertBlob merged.canonicalBytes input.atMs store).getBlob hash := by
    intro hash
    rw [getBlob, getBlob, hblobs]
  rw [materializeTree_eq_ok, ← getBlob_insertBlob (fromCanonicalBytes_canonicalBytes hvalid)]
  constructor
  · rintro ⟨checkpoint, hcheckpoint, treeHash, htree, bytes, hbytes, hdecode⟩
    rw [hstored, Except.ok.injEq, Option.some.injEq] at hcheckpoint
    rw [← hcheckpoint] at htree
    obtain rfl := Option.some.inj htree
    exact ⟨bytes, (hget _).symm.trans hbytes, hdecode⟩
  · rintro ⟨bytes, hbytes, hdecode⟩
    exact ⟨_, hstored, _, rfl, bytes, (hget _).trans hbytes, hdecode⟩

/-- A merge that fails changes nothing, and one that succeeds keeps its contract exactly if
neither its id nor its tree was taken by another row. -/
theorem mergeCommit_contract_iff (tasks : TaskGenerationLookup) (input : MergeInput)
    (store : ContentStore) :
    (∀ error store', mergeCommit tasks input store = (.error error, store') → store' = store) ∧
    ∀ checkpoint store', mergeCommit tasks input store = (.ok checkpoint, store') →
      (MergeContract input store checkpoint store' ↔ Unclaimed input store) := by
  have hspec := mergeCommit_spec tasks input store
  refine ⟨fun error store' hrun => Exiting.of_wp_error hspec hrun, fun checkpoint store' hrun => ?_⟩
  obtain ⟨merged, previous, branch, hmerged, rfl, hname, hmoved⟩ := Exiting.of_wp_ok hspec hrun
  obtain ⟨hvalid, base, baseTree, oursTree, theirsTree, hbase, hbaseTree, hours, htheirs, hsides⟩ :=
    mergeTips_spec hmerged
  have hread := getCheckpoint_merged hmoved
  constructor
  · intro hcontract merged' hmerged'
    obtain rfl := Except.ok.inj (hmerged.symm.trans hmerged')
    have hstored := hcontract.stored
    obtain ⟨tree, htree, hmaterialized⟩ := hcontract.tree
    obtain rfl := Except.ok.inj (hmerged.symm.trans htree)
    exact ⟨hread.mp hstored, (materializeTree_merged hvalid hmoved hstored).mp hmaterialized⟩
  · intro hfree
    obtain ⟨hcheckpoints, hblobs⟩ := hfree merged hmerged
    have hstored := hread.mpr hcheckpoints
    have hmaterialized := (materializeTree_merged hvalid hmoved hstored).mpr hblobs
    constructor
    case parents => rfl
    case stored => exact hstored
    case head =>
      have hhead := hmoved.others headName branch.text_ne_head.symm
      rw [getRef, hhead, mergedStore, find?_committed_head, decodeHash?_eq_ok]
      rfl
    case target =>
      rw [← hname, getRef, hmoved.ref, decodeHash?_eq_ok]
      rfl
    case reflog =>
      refine ⟨previous, ?_, ?_⟩
      · rw [← hname, ← hmoved.before]
        exact (getRef_congr (find?_committed _ _ _ _ branch)).symm
      · rw [hmoved.reflog, hname]
        rfl
    case tree => exact ⟨merged, hmerged, hmaterialized⟩
    case sides =>
      exact ⟨base, baseTree, oursTree, theirsTree, merged, strictMergeBase_spec hbase, hbaseTree,
        hours, htheirs, hmaterialized, hsides⟩

/-! ## A merge there and back -/

def emptyTreeHash : ContentHash :=
  hashOf 0x5bbb5a0d99c7aeb10f77891af9e51082a68c17def5c62afbdf5e35ccc5a5ae06

def rootHash : ContentHash :=
  hashOf 0x4e933f74f411aed967f8d2057fa553c883911870a84be66e679064458a839488

def childHash : ContentHash :=
  hashOf 0x4f698bf4f973d3277073d51ed2bf99c8cb4fa55eae507da08081567a97eec16c

def bothHash : ContentHash :=
  hashOf 0xf3ee1f51ea3429ea8d88d91c7fc633d3d19348d4c2e6c0a86dc53b2a2105ffbb

def treeRow (tree hash : ContentHash) (parents : List ContentHash) (summary : String) :
    CheckpointRow :=
  { plainRow hash parents summary with treeHash := some tree.toHex }

def childStore : ContentStore :=
  { openInMemory with
    blobs := ⟨[⟨emptyTreeHash.toHex, empty.canonicalBytes, 1⟩], by decide +kernel⟩
    checkpoints :=
      ⟨[treeRow emptyTreeHash rootHash [] "base", treeRow emptyTreeHash childHash [rootHash] "tip"],
        by decide +kernel⟩ }

def plainMerge (ours theirs : ContentHash) : MergeInput where
  ours := ours
  theirs := theirs
  targetBranch := "heads/main"
  taskId := "task"
  agentId := "agent"
  rationale := { why := "why", what := "what" }
  summary := "merge"
  expectedTaskGeneration := none
  actor := "actor"
  reason := "reason"
  atMs := 1

def mergeBothWays : Exiting ContentStore MergeError Checkpoint := do
  let _ ← mergeCommit (fun _ => .error .notFound) (plainMerge rootHash childHash)
  mergeCommit (fun _ => .error .notFound) (plainMerge childHash rootHash)

/-- The second merge returns its own parents, and `HEAD` and its branch point to a
checkpoint with the parents of the first. -/
theorem mergeBothWays_parents :
    (mergeBothWays childStore).1.map (fun checkpoint => (checkpoint.id, checkpoint.parents)) =
        .ok (bothHash, [childHash, rootHash]) ∧
      (mergeBothWays childStore).2.getRef headName = .ok (some bothHash) ∧
      (mergeBothWays childStore).2.readParents bothHash = .ok [rootHash, childHash] := by
  decide +kernel

/-! ## A merge of two sides -/

def leftTreeHash : ContentHash :=
  hashOf 0x929cc05eb45bd989f840362a53c87cacab94452e99e63c90bd11344d5c98d008

def rightTreeHash : ContentHash :=
  hashOf 0x1f67af68b06374edaca15dab24753e76b2dacbae56ee63f4dc932f6be891cc7a

def leftHash : ContentHash :=
  hashOf 0x2726bceda20a6ca668cf9c00e90027e6caec72e18c1a3ba893a2d87c0b388a23

def rightHash : ContentHash :=
  hashOf 0x0c363255baa8f5ab435f67f219bfbd79c0629a020b30bcb723882a1b2fac875b

/-- The base has no slot; the left side adds `a` and the right side `b`. -/
def forkedStore : ContentStore :=
  { openInMemory with
    blobs :=
      ⟨[⟨emptyTreeHash.toHex, empty.canonicalBytes, 1⟩,
        ⟨leftTreeHash.toHex, (empty.insert (slot "a")).canonicalBytes, 1⟩,
        ⟨rightTreeHash.toHex, (empty.insert (slot "b")).canonicalBytes, 1⟩], by decide +kernel⟩
    checkpoints :=
      ⟨[treeRow emptyTreeHash rootHash [] "base", treeRow leftTreeHash leftHash [rootHash] "left",
        treeRow rightTreeHash rightHash [rootHash] "right"], by decide +kernel⟩ }

/-- The merge has the slots of both sides. -/
theorem mergeCommit_contract_forkedStore : ∃ checkpoint store' merged,
      mergeCommit (fun _ => .error .notFound) (plainMerge leftHash rightHash) forkedStore =
        (.ok checkpoint, store') ∧
      MergeContract (plainMerge leftHash rightHash) forkedStore checkpoint store' ∧
      mergeTips forkedStore leftHash rightHash = .ok merged ∧
      merged.entries = [slot "a", slot "b"] := by
  obtain ⟨checkpoint, store', hrun⟩ := @Exiting.exists_run_ok _ _ _ forkedStore
    (mergeCommit (fun _ => .error .notFound) (plainMerge leftHash rightHash)) (by decide +kernel)
  have htips : mergeTips forkedStore leftHash rightHash =
      .ok ((empty.insert (slot "b")).insert (slot "a")) := by decide +kernel
  refine ⟨checkpoint, store', _, hrun, ?_, htips, by decide +kernel⟩
  refine ((mergeCommit_contract_iff _ _ _).2 checkpoint store' hrun).mpr fun merged hmerged => ?_
  obtain rfl := Except.ok.inj (htips.symm.trans hmerged)
  have hnew : ∀ row ∈ forkedStore.blobs.rows, row.hash ≠
      (compute ((empty.insert (slot "b")).insert (slot "a")).canonicalBytes).toHex := by
    decide +kernel
  exact ⟨by decide +kernel, fun row hrow hhash => absurd hhash (hnew row hrow)⟩

end BittyAi.Slice
