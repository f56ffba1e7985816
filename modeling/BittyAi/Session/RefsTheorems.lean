/-
BittyAi.Session.RefsTheorems — what the branch verbs write.

Every verb is made of moves: a move gives one name a new target or none and appends its row
to the reflog (`Moved`).
-/
import BittyAi.Session.ContentStoreTheorems
import BittyAi.Session.Refs

namespace BittyAi.Session

open Lib Exiting ContentStore KeyedTable BranchName

/-! ## Commits

The id of a checkpoint hashes its parents in sorted order, while the row and the value
that a commit returns keep them in the order of the caller. A row that is there already
stays. -/

variable {store store' : ContentStore} {draft : CheckpointDraft}

/-! ## Rows -/

theorem decodeRow_row (draft : CheckpointDraft) : decodeRow draft.row = .ok draft := by
  simp only [decodeRow, bind_eq_ok, pure_eq_ok, decodeHash?_eq_ok]
  refine ⟨draft.parents, rfl, draft.rationale, rfl, draft.treeHash, rfl, ?_⟩
  simp [CheckpointDraft.row]

theorem hash_row (draft : CheckpointDraft) : draft.row.hash = draft.canonicalHash.toHex := rfl

theorem getCheckpoint_eq_some_iff {row : CheckpointRow}
    (hfind : store.checkpoints.find? draft.canonicalHash.toHex = some row) :
    store.getCheckpoint draft.canonicalHash = .ok (some draft.checkpoint) ↔
      decodeRow row = .ok draft := by
  simp only [getCheckpoint, hfind, bind_eq_ok, pure_eq_ok, Option.some.injEq]
  constructor
  · rintro ⟨other, hother, -, -, hsame⟩
    rw [hother]
    cases draft
    cases other
    simp only [CheckpointDraft.checkpoint, Checkpoint.mk.injEq] at hsame
    simp [hsame]
  · intro hdecode
    exact ⟨draft, hdecode, (), refuseIf_eq_ok.mpr (by simp), rfl⟩

/-! ## What a commit does -/

theorem insertCheckpoint_of_present (h : store.hasCheckpoint draft.canonicalHash = true) :
    insertCheckpoint draft store = store := by
  have hkey : store.checkpoints.contains draft.row.hash = true := by rwa [hash_row]
  rw [insertCheckpoint, KeyedTable.insertOrIgnore_of_contains hkey]

theorem commitCheckpoint_spec (draft : CheckpointDraft) (store : ContentStore) :
    wp (commitCheckpoint draft)
      (fun checkpoint store' => checkpoint = draft.checkpoint ∧
        store' = insertCheckpoint draft store)
      (fun _ store' => store' = store) store := by
  unfold commitCheckpoint
  simp only [wp_bind, wp_attempt, wp_read, wp_ite,
    wp_modify, wp_pure, true_and, implies_true, and_true]
  intro _ _ _ _ _ _ hpresent
  exact (insertCheckpoint_of_present (by simpa using hpresent)).symm

def committed (treeBytes : List UInt8) (treeCreatedAtMs : UInt64) (effective : CheckpointDraft)
    (refNames : List String) (updatedAtMs : UInt64) (store : ContentStore) : ContentStore :=
  refNames.foldl (fun store name => upsertRef name effective.canonicalHash updatedAtMs store)
    (insertCheckpoint effective (insertBlob treeBytes treeCreatedAtMs store))

theorem commitCheckpointAtomic_spec (treeBytes : List UInt8) (treeCreatedAtMs : UInt64)
    (draft : CheckpointDraft) (refNames : List String) (updatedAtMs : UInt64)
    (store : ContentStore) :
    wp (commitCheckpointAtomic treeBytes treeCreatedAtMs draft refNames updatedAtMs)
      (fun checkpoint store' => checkpoint = (draft.withTree treeBytes).checkpoint ∧
        store' = committed treeBytes treeCreatedAtMs (draft.withTree treeBytes) refNames
          updatedAtMs store)
      (fun _ store' => store' = store) store := by
  unfold commitCheckpointAtomic
  simp only [wp_bind, wp_attempt, wp_transaction, wp_modify,
    wp_pure, true_and, implies_true, and_true, committed]

/-! ## Reading back -/

theorem getCheckpoint_insertCheckpoint (draft : CheckpointDraft) (store : ContentStore) :
    (insertCheckpoint draft store).getCheckpoint draft.canonicalHash = .ok (some draft.checkpoint) ↔
      ∀ row ∈ store.checkpoints.rows, row.hash = draft.canonicalHash.toHex →
        decodeRow row = .ok draft := by
  have hfind : (insertCheckpoint draft store).checkpoints.find? draft.canonicalHash.toHex =
      some ((store.checkpoints.find? draft.canonicalHash.toHex).getD draft.row) := by
    have hself := KeyedTable.find?_insertOrIgnore_self store.checkpoints draft.row
    rwa [hash_row] at hself
  rw [getCheckpoint_eq_some_iff hfind]
  cases hold : store.checkpoints.find? draft.canonicalHash.toHex with
  | none =>
    have hfree := KeyedTable.find?_eq_none.mp hold
    simp only [Option.getD_none, decodeRow_row, true_iff]
    exact fun row hrow hhash => absurd hhash (hfree row hrow)
  | some old =>
    obtain ⟨hmem, hhash⟩ := KeyedTable.find?_eq_some.mp hold
    simp only [Option.getD_some]
    constructor
    · intro hdecode row hrow hsame
      have heq : row = old :=
        List.inj_on_of_nodup_map store.checkpoints.nodup hrow hmem (hsame.trans hhash.symm)
      rw [heq, hdecode]
    · exact fun h => h old hmem hhash

theorem getCheckpoint_congr (h : store'.checkpoints = store.checkpoints) (hash : ContentHash) :
    store'.getCheckpoint hash = store.getCheckpoint hash := by
  rw [getCheckpoint, getCheckpoint, h]

theorem checkpoints_foldl_upsertRef (refNames : List String) (target : ContentHash)
    (updatedAtMs : UInt64) (store : ContentStore) :
    (refNames.foldl (fun store name => upsertRef name target updatedAtMs store)
      store).checkpoints = store.checkpoints := by
  induction refNames generalizing store with
  | nil => rfl
  | cons name refNames ih =>
    rw [List.foldl_cons, ih]
    rfl

theorem checkpoints_committed (treeBytes : List UInt8) (treeCreatedAtMs : UInt64)
    (effective : CheckpointDraft) (refNames : List String) (updatedAtMs : UInt64)
    (store : ContentStore) :
    (committed treeBytes treeCreatedAtMs effective refNames updatedAtMs store).checkpoints =
      (insertCheckpoint effective store).checkpoints := by
  rw [committed, checkpoints_foldl_upsertRef]
  rfl

variable {store store' : ContentStore} {branch : BranchName} {target : ContentHash}
  {reason actor : String} {atMs : UInt64}
variable {name : String} {tip : ContentHash} (treeBytes : List UInt8) (treeCreatedAtMs : UInt64)

/-! ## Names -/

theorem BranchName.text_ne_head (branch : BranchName) : branch.text ≠ headName := by
  intro h
  have hvalid := branch.valid
  rw [h] at hvalid
  revert hvalid
  decide

theorem BranchName.parse_eq_ok (h : parse name = .ok branch) : branch.text = name := by
  unfold parse at h
  split at h
  · cases h
  · split at h
    · cases h
    · split at h
      · split at h
        · cases h
          rfl
        · cases h
      · split at h <;> cases h

theorem BranchName.parse_text (branch : BranchName) : parse branch.text = .ok branch := by
  have hvalid := branch.valid
  simp only [branchNameShape, Bool.and_eq_true] at hvalid
  simp [parse, branch.text_ne_head, hvalid.1.1, hvalid.1.2, branch.valid]

theorem BranchName.text_inj {a b : BranchName} : a.text = b.text ↔ a = b := by
  cases a
  cases b
  simp

/-! ## Moves -/

/-- One move of a name: its row of `refs`, its row of the reflog, and nothing else. -/
structure Moved (store store' : ContentStore) (name : String) (old new : Option ContentHash)
    (reason actor : String) (atMs : UInt64) : Prop where
  before : store.getRef name = .ok old
  ref : store'.refs.find? name = new.map fun target => ⟨name, target.toHex, atMs.toInt64⟩
  others : ∀ other, other ≠ name → store'.refs.find? other = store.refs.find? other
  reflog : store'.reflog = store.reflog ++
    [⟨store.reflogSeq + 1, name, old.map ContentHash.toHex, (new.getD tombstoneHash).toHex, reason,
      actor, atMs.toInt64⟩]
  seq : store'.reflogSeq = store.reflogSeq + 1
  frame : store' = { store with
    refs := store'.refs, reflog := store'.reflog, reflogSeq := store'.reflogSeq }

theorem getRef_eq_none : store.getRef name = .ok none ↔ store.refs.find? name = none := by
  rw [getRef, decodeHash?_eq_ok]
  cases store.refs.find? name <;> simp

theorem getRef_congr (h : store'.refs.find? name = store.refs.find? name) :
    store'.getRef name = store.getRef name := by
  rw [getRef, getRef, h]

theorem countP_ref (h : store.getRef name = .ok (some tip)) :
    (store.refs.rows.countP fun row => row.name = name) = 1 := by
  rw [getRef, decodeHash?_eq_ok] at h
  cases hfind : store.refs.find? name with
  | none => simp [hfind] at h
  | some row => exact countP_eq_one hfind

def logged (store : ContentStore) (refs : KeyedTable RefRow.name) (name : String)
    (old new : Option ContentHash) (reason actor : String) (atMs : UInt64) : ContentStore :=
  { store with
    refs
    reflog := store.reflog ++
      [⟨store.reflogSeq + 1, name, old.map ContentHash.toHex, (new.getD tombstoneHash).toHex,
        reason, actor, atMs.toInt64⟩]
    reflogSeq := store.reflogSeq + 1 }

theorem moved_insert {refs : KeyedTable RefRow.name} (hbefore : store.getRef branch.text = .ok none)
    (hinsert : store.refs.insert? ⟨branch.text, target.toHex, atMs.toInt64⟩ = some refs) :
    Moved store (logged store refs branch.text none (some target) reason actor atMs) branch.text
      none (some target) reason actor atMs := by
  obtain ⟨hfree, hrows⟩ := insert?_eq_some hinsert
  refine ⟨hbefore, ?_, fun other hother => ?_, rfl, rfl, rfl⟩
  · show refs.find? branch.text = _
    rw [Option.map_some, find?_eq_some, hrows]
    simp
  · refine find?_congr fun row hrow => ?_
    show row ∈ refs.rows ↔ _
    rw [hrows, List.mem_append, List.mem_singleton]
    refine or_iff_left ?_
    rintro rfl
    exact hother hrow.symm

theorem moved_set (hbefore : store.getRef branch.text = .ok (some tip)) :
    Moved store (logged store (store.refs.modify branch.text
      (fun row => { row with targetHash := target.toHex, updatedAtMs := atMs.toInt64 })
      fun _ => rfl) branch.text (some tip) (some target) reason actor atMs) branch.text (some tip)
      (some target) reason actor atMs := by
  have hkey : ∀ row : RefRow,
      { row with targetHash := target.toHex, updatedAtMs := atMs.toInt64 : RefRow }.name =
        row.name := fun _ => rfl
  refine ⟨hbefore, (find?_modify hkey).trans ?_,
    fun other hother => find?_modify_of_ne hkey hother, rfl, rfl, rfl⟩
  rw [getRef, decodeHash?_eq_ok] at hbefore
  cases hrow : store.refs.find? branch.text with
  | none => simp [hrow] at hbefore
  | some row => simp [(find?_eq_some.mp hrow).2]

theorem moved_delete (hbefore : store.getRef branch.text = .ok (some tip)) :
    Moved store (logged store (store.refs.erase branch.text) branch.text (some tip) none reason
      actor atMs) branch.text (some tip) none reason actor atMs :=
  ⟨hbefore, find?_erase_self _ _, fun _ hother => find?_erase_of_ne hother, rfl, rfl, rfl⟩

/-! ## The verbs -/

theorem createBranch_spec (name : String) (target : ContentHash) (reason actor : String)
    (atMs : UInt64) (store : ContentStore) :
    wp (createBranch name target reason actor atMs)
      (fun branch store' => branch.text = name ∧ store.hasCheckpoint target = true ∧
        Moved store store' branch.text none (some target) reason actor atMs)
      (fun _ store' => store' = store) store := by
  unfold createBranch readRef insertRef appendReflog
  simp only [wp_bind, wp_attempt, wp_read, wp_refuse,
    wp_transaction, mapError_eq_ok, implies_true, and_true, true_and]
  intro branch hparse hknown present hpresent habsent
  have hnone : store.getRef branch.text = .ok none := by simp_all
  cases hinsert : store.refs.insert? ⟨branch.text, target.toHex, atMs.toInt64⟩ with
  | none => simp
  | some refs =>
    simp only [wp_modify, wp_pure]
    intro _
    exact ⟨parse_eq_ok hparse, by simpa using hknown, moved_insert hnone hinsert⟩

theorem updateBranch_moved (name : String) (target : ContentHash) (reason actor : String)
    (atMs : UInt64) (fastForwardOnly : Bool) (store : ContentStore) :
    wp (updateBranch name target reason actor atMs fastForwardOnly)
      (fun branch store' => branch.text = name ∧ store.hasCheckpoint target = true ∧
        ∃ tip, Moved store store' branch.text (some tip) (some target) reason actor atMs)
      (fun _ store' => store' = store) store := by
  unfold updateBranch
  simp only [wp_bind, wp_attempt, wp_read, wp_refuse, implies_true, and_true, true_and]
  intro branch hparse hknown
  cases hget : store.getRef branch.text with
  | error e => simp [readStore, hget]
  | ok old =>
    cases old with
    | none => simp [readStore, hget]
    | some tip =>
      simp [readStore, readBranch, setRef, appendReflog, hget, mapError_ok, countP_ref hget]
      have hstored : store.hasCheckpoint target = true := by simpa using hknown
      have hname := parse_eq_ok hparse
      exact ⟨fun _ _ _ _ _ _ => ⟨hname, hstored, tip, moved_set hget⟩,
        fun _ _ _ => ⟨hname, hstored, tip, moved_set hget⟩⟩

theorem deleteBranch_spec (name reason actor : String) (atMs : UInt64) (store : ContentStore) :
    wp (deleteBranch name reason actor atMs)
      (fun tip store' => ∃ branch : BranchName, branch.text = name ∧
        Moved store store' branch.text (some tip) none reason actor atMs)
      (fun _ store' => store' = store) store := by
  unfold deleteBranch
  simp only [wp_bind, wp_attempt, wp_transaction, implies_true, and_true]
  intro branch hparse
  cases hget : store.getRef branch.text with
  | error e => simp [readBranch, hget]
  | ok old =>
    cases old with
    | none => simp [readBranch, hget]
    | some tip =>
      simp only [readBranch, deleteRef, appendReflog, hget, mapError_ok, countP_ref hget,
        wp_bind, wp_attempt, wp_lift, wp_refuse, wp_modify,
        wp_pure, Except.ok.injEq, reduceCtorEq, forall_eq', implies_true,
        and_true, true_and, ne_eq, not_true_eq_false, not_false_eq_true, forall_const]
      exact fun _ => ⟨branch, parse_eq_ok hparse, moved_delete hget⟩

theorem renameBranch_spec (oldName newName reason actor : String) (atMs : UInt64)
    (store : ContentStore) :
    wp (renameBranch oldName newName reason actor atMs)
      (fun tip store' => ∃ (old new : BranchName) (between : ContentStore), old.text = oldName ∧
        new.text = newName ∧ old ≠ new ∧
        Moved store between old.text (some tip) none reason actor atMs ∧
        Moved between store' new.text none (some tip) reason actor atMs)
      (fun _ store' => store' = store) store := by
  unfold renameBranch
  simp only [wp_bind, wp_attempt, wp_refuse, implies_true, and_true, true_and]
  intro old hold new hnew hne
  cases hget : store.getRef old.text with
  | error e => simp [readStore, hget]
  | ok tip =>
    cases tip with
    | none => simp [readStore, hget]
    | some tip =>
      have hbetween : (store.refs.erase old.text).find? new.text = store.refs.find? new.text :=
        find?_erase_of_ne fun h => hne (text_inj.mp h.symm)
      simp only [readStore, readBranch, deleteRef, hget, mapError_ok, mapError_eq_ok,
        countP_ref hget, wp_bind, wp_attempt, wp_lift, wp_refuse,
        wp_pure, wp_transaction, Except.ok.injEq, reduceCtorEq, forall_eq',
        implies_true, and_true, true_and, ne_eq, not_true_eq_false, not_false_eq_true,
        forall_const, readRef, insertRef, wp_read]
      intro present hpresent habsent
      have hnone : store.refs.find? new.text = none := getRef_eq_none.mp (by simp_all)
      cases hinsert : (store.refs.erase old.text).insert? ⟨new.text, tip.toHex, atMs.toInt64⟩ with
      | none => simp
      | some refs =>
        simp only [appendReflog, wp_modify, wp_bind, wp_refuse, implies_true, true_and]
        intro _ _
        refine ⟨old, new, _, parse_eq_ok hold, parse_eq_ok hnew, hne, moved_delete hget, ?_⟩
        exact moved_insert (getRef_eq_none.mpr (hbetween.trans hnone)) hinsert

theorem commitCheckpointWithBranch_spec (draft : CheckpointDraft) (branchName reason actor : String)
    (updatedAtMs : UInt64) (store : ContentStore) :
    wp (commitCheckpointWithBranch treeBytes treeCreatedAtMs draft branchName reason actor
        updatedAtMs)
      (fun checkpoint store' => checkpoint = (draft.withTree treeBytes).checkpoint ∧
        ∃ (branch : BranchName) (previous : Option ContentHash), branch.text = branchName ∧
          Moved (committed treeBytes treeCreatedAtMs (draft.withTree treeBytes) [headName]
            updatedAtMs store) store' branch.text previous
            (some (draft.withTree treeBytes).canonicalHash) reason actor updatedAtMs)
      (fun _ store' => store' = store) store := by
  unfold commitCheckpointWithBranch readStore
  simp only [wp_bind, wp_attempt, wp_transaction, wp_modify, implies_true, and_true]
  intro _ _ _ _ branch hparse _ _
  have hname := parse_eq_ok hparse
  generalize hmid : upsertRef headName (draft.withTree treeBytes).canonicalHash updatedAtMs
    (insertCheckpoint (draft.withTree treeBytes) (insertBlob treeBytes treeCreatedAtMs store)) = mid
  have hcommitted : committed treeBytes treeCreatedAtMs (draft.withTree treeBytes) [headName]
      updatedAtMs store = mid := hmid
  rw [hcommitted]
  cases hget : mid.getRef branch.text with
  | error e => simp [readRef, hget]
  | ok previous =>
    cases previous with
    | none =>
      simp only [readRef, insertRef, hget, mapError_ok, wp_attempt, wp_bind,
        wp_read, Except.ok.injEq, forall_eq', reduceCtorEq, implies_true, and_true]
      cases hinsert : mid.refs.insert?
          ⟨branch.text, (draft.withTree treeBytes).canonicalHash.toHex, updatedAtMs.toInt64⟩ with
      | none => simp
      | some refs =>
        simp only [appendReflog, wp_modify, wp_bind, wp_refuse, wp_pure, implies_true, true_and]
        exact fun _ => ⟨branch, none, hname, moved_insert hget hinsert⟩
    | some tip =>
      simp only [readRef, setRef, appendReflog, hget, mapError_ok, countP_ref hget,
        wp_attempt, wp_bind, wp_lift, wp_refuse, wp_modify,
        wp_pure, Except.ok.injEq, forall_eq', reduceCtorEq, implies_true, and_true,
        true_and, ne_eq, not_true_eq_false, not_false_eq_true, forall_const]
      exact fun _ => ⟨branch, some tip, hname, moved_set hget⟩

theorem find?_committed (effective : CheckpointDraft) (updatedAtMs : UInt64) (branch : BranchName) :
    (committed treeBytes treeCreatedAtMs effective [headName] updatedAtMs store).refs.find?
      branch.text = store.refs.find? branch.text :=
  find?_upsert_of_ne branch.text_ne_head.symm

theorem find?_committed_head (effective : CheckpointDraft) (updatedAtMs : UInt64) :
    (committed treeBytes treeCreatedAtMs effective [headName] updatedAtMs store).refs.find?
      headName = some ⟨headName, effective.canonicalHash.toHex, updatedAtMs.toInt64⟩ :=
  find?_upsert_self _ _

end BittyAi.Session
