/-
BittyAi.Session.ReflogTheorems — the reflog is a history of the branches.

The list of all moves is not stored anywhere; a run collects the rows that each call
appends.
-/
import BittyAi.Lib.History
import BittyAi.Session.RefsTheorems

namespace BittyAi.Session

open Lib Exiting ContentStore ReflogRow List

/-! ## Pruning -/

variable {rows : List ReflogRow}
variable {last : Option ReflogRow} {tip : ContentHash} {victims : List Nat}

section Prune

variable {name : String} {olderThanMs : UInt64} {graceThreshold cap : Nat}

theorem intoEntry_eq_ok {row : ReflogRow} {entry : ReflogEntry} (h : row.intoEntry = .ok entry) :
    entry.seq = row.seq ∧ entry.atMs = row.atMs.toUInt64 := by
  simp only [intoEntry, bind_eq_ok, pure_eq_ok] at h
  obtain ⟨_, _, _, _, _, _, rfl⟩ := h
  exact ⟨rfl, rfl⟩

theorem pruneScan_victims {scan scan' : PruneScan}
    (h : pruneScan olderThanMs graceThreshold cap rows scan = .ok scan') :
    ∃ picked, picked.Sublist (rows.map (·.seq)) ∧ scan'.victims = scan.victims ++ picked := by
  induction rows generalizing scan with
  | nil =>
    cases h
    exact ⟨[], .slnil, by simp⟩
  | cons row rows ih =>
    simp only [pruneScan, bind_eq_ok] at h
    obtain ⟨entry, hentry, hrest⟩ := h
    obtain ⟨picked, hpicked, hvictims⟩ := ih hrest
    have hstep : (pruneStep olderThanMs graceThreshold cap scan entry).victims = scan.victims ∨
        (pruneStep olderThanMs graceThreshold cap scan entry).victims =
          scan.victims ++ [row.seq] := by
      rw [← (intoEntry_eq_ok hentry).1]
      unfold pruneStep
      split
      · exact .inl rfl
      · split
        · exact .inl rfl
        · split
          · exact .inr rfl
          · exact .inl rfl
    rcases hstep with hstep | hstep
    · exact ⟨picked, hpicked.cons _, by rw [hvictims, hstep]⟩
    · exact ⟨row.seq :: picked, hpicked.cons_cons _, by rw [hvictims, hstep, append_assoc]; rfl⟩

def withoutRows (name : String) (seqs : List Nat) (store : ContentStore) : ContentStore :=
  { store with reflog := store.reflog.filter fun row => ¬(row.refName = name ∧ row.seq ∈ seqs) }

def Holds (name : String) (seqs : List Nat) (store : ContentStore) : Prop :=
  seqs.Nodup ∧ ∀ seq ∈ seqs,
    (store.reflog.countP fun row => row.seq = seq ∧ row.refName = name) = 1

theorem deleteReflogRows_spec (name : String) (victims : List Nat) (store : ContentStore) :
    wp (Exiting.each (deleteReflogRow name) victims ())
      (fun _ store' => store' = withoutRows name victims store)
      (fun _ _ => ¬Holds name victims store) store := by
  let I : List Nat → Unit → ContentStore → Prop := fun rest _ store' =>
    ∃ gone, victims = gone ++ rest ∧ store' = withoutRows name gone store
  have hstart : I victims () store := ⟨[], rfl, by simp [withoutRows]⟩
  have hstep : ∀ seq rest u store', I (seq :: rest) u store' →
      wp (deleteReflogRow name u seq) (I rest) (fun _ _ => ¬Holds name victims store) store' := by
    rintro seq rest _ _ ⟨gone, hsplit, rfl⟩
    simp only [deleteReflogRow, wp_bind, wp_lift, wp_refuse]
    refine ⟨fun hcount hvictims => hcount ?_, fun _ => ⟨gone ++ [seq], by simp [hsplit], ?_⟩⟩
    · have hnew : seq ∉ gone := by
        have hnodup := hsplit ▸ hvictims.1
        exact fun hgone => (nodup_append.mp hnodup).2.2 seq hgone seq mem_cons_self rfl
      rw [← hvictims.2 seq (by simp [hsplit]), withoutRows, countP_filter]
      refine countP_congr fun row _ => ?_
      by_cases hseq : row.seq = seq <;> simp [hseq, hnew]
    · simp only [withoutRows, filter_filter]
      congr 1
      refine filter_congr fun row _ => ?_
      by_cases hname : row.refName = name <;> by_cases hseq : row.seq = seq <;>
        simp [hname, hseq]
  refine wp_mono (wp_each hstep victims () store hstart) ?_ fun _ _ h => h
  rintro _ store' ⟨gone, hsplit, rfl⟩
  rw [append_nil] at hsplit
  rw [hsplit]

structure Numbered (store : ContentStore) : Prop where
  ascending : store.reflog.Pairwise (·.seq < ·.seq)
  below : ∀ row ∈ store.reflog, row.seq ≤ store.reflogSeq

def Legible (store : ContentStore) : Prop :=
  ∀ row ∈ store.reflog, ∃ entry, row.intoEntry = .ok entry

theorem pruneScan_error {scan : PruneScan} {error : RefError}
    (h : pruneScan olderThanMs graceThreshold cap rows scan = .error error) :
    ∃ row ∈ rows, ∀ entry, row.intoEntry ≠ .ok entry := by
  induction rows generalizing scan with
  | nil => cases h
  | cons row rows ih =>
    cases hentry : row.intoEntry with
    | error e => exact ⟨row, mem_cons_self, by simp [hentry]⟩
    | ok entry =>
      simp only [pruneScan, hentry, bind, Except.bind] at h
      obtain ⟨other, hother, hbad⟩ := ih h
      exact ⟨other, mem_cons_of_mem _ hother, hbad⟩

theorem Numbered.holds {store : ContentStore} (h : Numbered store) {maxSeq : Nat}
    {victims : List Nat}
    (hvictims : victims.Sublist ((((reflogOf name store).filter fun row =>
      row.seq < maxSeq).insertionSort fun a b => a.seq ≤ b.seq).map (·.seq))) :
    Holds name victims store := by
  have hnodup : (store.reflog.map (·.seq)).Nodup :=
    pairwise_map.mpr (h.ascending.imp fun hlt => hlt.ne)
  have hperm := (perm_insertionSort (fun a b : ReflogRow => a.seq ≤ b.seq)
    ((reflogOf name store).filter fun row => row.seq < maxSeq)).map (·.seq)
  have hsub : ((reflogOf name store).filter fun row => row.seq < maxSeq).Sublist store.reflog :=
    filter_sublist.trans filter_sublist
  refine ⟨(hperm.nodup_iff.mpr (hnodup.sublist (hsub.map _))).sublist hvictims, ?_⟩
  intro seq hseq
  obtain ⟨row, hrow, rfl⟩ := mem_map.mp (hperm.mem_iff.mp (hvictims.subset hseq))
  obtain ⟨hrow, hname⟩ := mem_filter.mp (mem_of_mem_filter hrow)
  rw [← count_eq_one_of_mem hnodup (mem_map_of_mem hrow), count, countP_map]
  refine countP_congr fun other hother => ?_
  simp only [decide_eq_true_eq, Function.comp_apply, beq_iff_eq]
  refine ⟨And.left, fun hsame => ⟨hsame, ?_⟩⟩
  rw [inj_on_of_nodup_map hnodup hother hrow hsame]
  exact of_decide_eq_true hname

/-- Pruning drops rows of the name that are older than another row of the name; it finds
nothing corrupt where every row reads back. -/
theorem pruneReflog_spec (name : String) (olderThanMs : UInt64) (maxRows : Nat)
    (tombstoneGraceMs nowMs : UInt64) (store : ContentStore) :
    wp (pruneReflog name olderThanMs maxRows tombstoneGraceMs nowMs)
      (fun _ store' => ∃ victims, store' = withoutRows name victims store ∧
        ∀ seq ∈ victims, ∃ newer ∈ reflogOf name store, seq < newer.seq)
      (fun error store' => store' = store ∧
        (Numbered store → Legible store → error ≠ .corrupt)) store := by
  unfold pruneReflog
  simp only [wp_bind, wp_attempt, wp_transaction, wp_read, true_and]
  refine ⟨fun _ _ => ?_, fun error herror _ _ => ?_⟩
  · cases hmax : ((reflogOf name store).map (·.seq)).max? with
    | none => exact wp_pure.mpr ⟨[], by simp [withoutRows], by simp⟩
    | some maxSeq =>
      simp only [wp_bind, wp_attempt]
      refine ⟨fun _ _ => ⟨fun scan hscan => ?_, fun error herror hnumbered hlegible => ?_⟩,
        fun error herror hnumbered hlegible => ?_⟩
      · obtain ⟨victims, hpicked, hvictims⟩ := pruneScan_victims hscan
        rw [nil_append] at hvictims
        rw [hvictims]
        refine wp_mono (deleteReflogRows_spec name victims store) ?_
          fun _ _ hgone hnumbered _ => absurd (hnumbered.holds hpicked) hgone
        rintro _ _ rfl
        refine wp_pure.mpr ⟨victims, rfl, fun seq hseq => ?_⟩
        obtain ⟨newest, hnewest, hseqMax⟩ := mem_map.mp (max?_eq_some_iff.mp hmax).1
        obtain ⟨row, hrow, rfl⟩ := mem_map.mp (hpicked.subset hseq)
        have hless := (mem_insertionSort _).mp hrow
        rw [mem_filter, decide_eq_true_eq] at hless
        exact ⟨newest, hnewest, hseqMax ▸ hless.2⟩
      · obtain ⟨row, hrow, hbad⟩ := pruneScan_error herror
        have hlisted := mem_of_mem_filter ((mem_insertionSort _).mp hrow)
        obtain ⟨entry, hentry⟩ := hlegible row (mem_of_mem_filter hlisted)
        exact absurd hentry (hbad entry)
      · unfold floorEntry at herror
        cases hfloor : store.reflog.find? fun row => row.seq = maxSeq with
        | none => simp [hfloor] at herror
        | some row =>
          obtain ⟨entry, hentry⟩ := hlegible row (mem_of_find?_eq_some hfloor)
          simp [hfloor, hentry] at herror
  · cases hvalid : validateRefName name with
    | ok => simp [hvalid] at herror
    | error e =>
      rw [hvalid, mapError_error] at herror
      cases herror
      simp

end Prune

/-! ## The invariant -/

/-- Where a hash text puts a branch: the tombstone puts it nowhere. Both columns are read this
way. -/
def position (text : String) : Option String :=
  if text = tombstoneHash.toHex then none else some text

def Follows (before : List ReflogRow) (row : ReflogRow) : Prop :=
  row.oldHash.bind position =
    (lastOf refName row.refName before).bind fun last => position last.newHash

def Locates (store : ContentStore) (name : String) : Option ReflogRow → Prop
  | none => store.getRef name = .ok none
  | some row =>
    (∃ tip, store.getRef name = .ok (some tip) ∧ row.newHash = tip.toHex) ∨
      (store.getRef name = .ok none ∧ row.newHash = tombstoneHash.toHex ∧
        ∃ tip : ContentHash, row.oldHash = some tip.toHex)

structure Replays (moves : List ReflogRow) (store : ContentStore) : Prop where
  ascending : moves.Pairwise (·.seq < ·.seq)
  numbered : ∀ row ∈ moves, row.seq ≤ store.reflogSeq
  readable : ∀ row ∈ moves, ∃ entry, row.intoEntry = .ok entry
  chained : Justified Follows moves
  retained : store.reflog.Sublist moves
  newest : ∀ name, lastOf refName name store.reflog =
    lastOf refName name moves
  located : ∀ branch : BranchName, Locates store branch.text (lastOf refName branch.text moves)

variable {moves : List ReflogRow} {store store' : ContentStore}

theorem replays_empty : Replays [] openInMemory where
  ascending := .nil
  numbered := by simp
  readable := by simp
  chained := justified_nil
  retained := .slnil
  newest := fun _ => rfl
  located := fun _ => rfl

def moveRow (store : ContentStore) (name : String) (old new : Option ContentHash)
    (reason actor : String) (atMs : UInt64) : ReflogRow :=
  ⟨store.reflogSeq + 1, name, old.map ContentHash.toHex, (new.getD tombstoneHash).toHex, reason,
    actor, atMs.toInt64⟩

section MoveRow

variable {log : List ReflogRow} {name other reason actor : String} {old new : Option ContentHash}
  {atMs : UInt64}

theorem lastOf_snoc_moveRow (h : name = other) :
    lastOf refName other (log ++ [moveRow store name old new reason actor atMs]) =
      some (moveRow store name old new reason actor atMs) :=
  lastOf_snoc_of_eq h

theorem lastOf_snoc_moveRow_of_ne (h : name ≠ other) :
    lastOf refName other (log ++ [moveRow store name old new reason actor atMs]) =
      lastOf refName other log := by
  have hname : (moveRow store name old new reason actor atMs).refName ≠ other := h
  exact lastOf_snoc_of_ne hname

theorem moveRow_readable :
    (∃ entry, (moveRow store name old new reason actor atMs).intoEntry = .ok entry) ↔
      beyondI64 atMs = false := by
  simp only [intoEntry, bind_eq_ok, pure_eq_ok, mapError_eq_ok, decodeHash?_eq_ok,
    decodeHash_eq_ok, refuseIf_eq_ok, moveRow, toInt64_neg_iff, Bool.not_eq_true]
  constructor
  · rintro ⟨_, _, -, _, -, _, hrange, -⟩
    exact hrange
  · intro hrange
    exact ⟨_, old, rfl, new.getD tombstoneHash, rfl, (), hrange, rfl⟩

end MoveRow

variable {name : String} {old new : Option ContentHash} {atMs : UInt64} {reason actor : String}

theorem Locates.position_eq {old : Option ContentHash} (h : Locates store name last)
    (hold : store.getRef name = .ok old) :
    (old.map ContentHash.toHex).bind position = last.bind fun row => position row.newHash := by
  cases last with
  | none =>
    have hnone : old = none := Except.ok.inj (hold.symm.trans h)
    simp [hnone]
  | some row =>
    rcases h with ⟨tip, htip, hnew⟩ | ⟨hnone, hnew, -⟩
    · have hsome : old = some tip := Except.ok.inj (hold.symm.trans htip)
      simp [hsome, hnew]
    · have hgone : old = none := Except.ok.inj (hold.symm.trans hnone)
      simp [hgone, hnew, position]

theorem Locates.congr (h : Locates store name last)
    (hrefs : store'.refs.find? name = store.refs.find? name) : Locates store' name last := by
  unfold Locates
  rw [getRef_congr hrefs]
  exact h

theorem Moved.locates {name reason actor : String}
    (h : Moved store store' name old new reason actor atMs) (hmoves : old ≠ none ∨ new ≠ none) :
    Locates store' name (some (moveRow store name old new reason actor atMs)) := by
  cases new with
  | some tip =>
    refine .inl ⟨tip, ?_, rfl⟩
    rw [getRef, h.ref, decodeHash?_eq_ok]
    rfl
  | none =>
    cases old with
    | none => simp at hmoves
    | some tip => exact .inr ⟨getRef_eq_none.mpr h.ref, rfl, tip, rfl⟩

variable {branch : BranchName}

section Move

variable (h : Replays moves store)
include h

theorem Replays.move
    (hmoved : Moved store store' branch.text old new reason actor atMs)
    (hmoves : old ≠ none ∨ new ≠ none) (hrange : beyondI64 atMs = false) :
    Replays (moves ++ [moveRow store branch.text old new reason actor atMs]) store' where
  ascending := by
    refine pairwise_append.mpr ⟨h.ascending, pairwise_singleton _ _, ?_⟩
    intro row hrow last hlast
    rw [mem_singleton.mp hlast]
    exact Nat.lt_succ_of_le (h.numbered row hrow)
  numbered := by
    rw [hmoved.seq]
    exact forall_mem_append.mpr ⟨fun row hrow => (h.numbered row hrow).trans (Nat.le_succ _),
      forall_mem_singleton.mpr le_rfl⟩
  readable := by
    exact forall_mem_append.mpr
      ⟨h.readable, forall_mem_singleton.mpr (moveRow_readable.mpr hrange)⟩
  chained := h.chained.snoc ((h.located branch).position_eq hmoved.before)
  retained := by
    rw [hmoved.reflog]
    exact h.retained.append_right _
  newest := by
    intro name
    rw [hmoved.reflog]
    by_cases hname : branch.text = name
    · rw [lastOf_snoc_moveRow hname]
      exact lastOf_snoc_moveRow hname
    · rw [lastOf_snoc_moveRow_of_ne hname, ← h.newest name]
      exact lastOf_snoc_moveRow_of_ne hname
  located := by
    intro other
    by_cases hother : branch.text = other.text
    · rw [lastOf_snoc_moveRow hother, ← hother]
      exact hmoved.locates hmoves
    · rw [lastOf_snoc_moveRow_of_ne hother]
      exact (h.located other).congr (hmoved.others _ (Ne.symm hother))

theorem Replays.congr
    (hrefs : ∀ branch : BranchName, store'.refs.find? branch.text = store.refs.find? branch.text)
    (hreflog : store'.reflog = store.reflog) (hseq : store'.reflogSeq = store.reflogSeq) :
    Replays moves store' where
  ascending := h.ascending
  numbered := by rw [hseq]; exact h.numbered
  readable := h.readable
  chained := h.chained
  retained := by rw [hreflog]; exact h.retained
  newest := by rw [hreflog]; exact h.newest
  located := fun branch => (h.located branch).congr (hrefs branch)

theorem Replays.seq_le_newest {row newest : ReflogRow}
    (hnewest : lastOf refName name store.reflog = some newest)
    (hrow : row ∈ reflogOf name store) : row.seq ≤ newest.seq := by
  have hascending : (reflogOf name store).Pairwise (·.seq < ·.seq) :=
    (h.ascending.sublist h.retained).filter _
  obtain ⟨rest, hsplit⟩ := getLast?_eq_some_iff.mp hnewest
  have hrows : reflogOf name store = rest ++ [newest] := hsplit
  rw [hrows] at hascending hrow
  rcases mem_append.mp hrow with hrow | hrow
  · exact ((pairwise_append.mp hascending).2.2 row hrow newest (by simp)).le
  · rw [mem_singleton.mp hrow]

theorem Replays.lastOf_withoutRows
    (hvictims : ∀ seq ∈ victims, ∃ newer ∈ reflogOf name store, seq < newer.seq) (other : String) :
    lastOf refName other (withoutRows name victims store).reflog =
      lastOf refName other store.reflog := by
  refine lastOf_filter fun row hlast => ?_
  simp only [decide_eq_true_eq, not_and]
  rintro hname hvictim
  obtain ⟨newer, hnewer, hless⟩ := hvictims row.seq hvictim
  have hsame : row.refName = other := (mem_of_lastOf hlast).2
  rw [← hsame, hname] at hlast
  exact absurd (h.seq_le_newest hlast hnewer) (not_le.mpr hless)

theorem Replays.prune
    (hvictims : ∀ seq ∈ victims, ∃ newer ∈ reflogOf name store, seq < newer.seq) :
    Replays moves (withoutRows name victims store) where
  ascending := h.ascending
  numbered := h.numbered
  readable := h.readable
  chained := h.chained
  retained := filter_sublist.trans h.retained
  newest := fun other => (h.lastOf_withoutRows hvictims other).trans (h.newest other)
  located := fun branch => (h.located branch).congr rfl

end Move

/-! ## What is known of a name -/

theorem validateRefName_branch (branch : BranchName) : validateRefName branch.text = .ok () := by
  have hvalid := branch.valid
  simp only [branchNameShape, Bool.and_eq_true] at hvalid
  exact exists_eq_ok hvalid.1.1 |>.choose_spec

theorem insertionSort_descending (h : rows.Pairwise (·.seq < ·.seq)) :
    (rows.insertionSort fun a b => b.seq ≤ a.seq) = rows.reverse := by
  have hnodup : (rows.map (·.seq)).Nodup := pairwise_map.mpr (h.imp fun hlt => hlt.ne)
  have hperm := perm_insertionSort (fun a b : ReflogRow => b.seq ≤ a.seq) rows
  refine List.Perm.eq_of_pairwise ?_ (pairwise_insertionSort _ rows)
    (pairwise_reverse.mpr (h.imp fun hlt => hlt.le))
    (hperm.trans (reverse_perm rows).symm)
  intro a b ha hb hab hba
  exact inj_on_of_nodup_map hnodup (hperm.mem_iff.mp ha) (mem_reverse.mp hb) (le_antisymm hba hab)

theorem readReflog_eq (branch : BranchName) (limit : Nat)
    (h : (reflogOf branch.text store).Pairwise (·.seq < ·.seq)) :
    readReflog branch.text limit store = intoReflogEntries branch.text
      ((reflogOf branch.text store).reverse.take (min limit maxReflogReadLimit)) := by
  rw [readReflog, validateRefName_branch, insertionSort_descending h]
  rfl

theorem Replays.readReflog_one (h : Replays moves store) (branch : BranchName) :
    readReflog branch.text 1 store =
      intoReflogEntries branch.text
        (lastOf refName branch.text store.reflog).toList := by
  have htake : (reflogOf branch.text store).reverse.take (min 1 maxReflogReadLimit) =
      (lastOf refName branch.text store.reflog).toList := by
    rw [lastOf, ← head?_reverse, reflogOf]
    cases (store.reflog.filter fun row => row.refName = branch.text).reverse <;> rfl
  rw [readReflog_eq branch 1 ((h.ascending.sublist h.retained).filter _), htake]

theorem branchAbsence_live (h : store.getRef branch.text = .ok (some tip)) :
    branchAbsence branch.text store = .ok (.live tip) := by
  simp [branchAbsence, branch.parse_text, h, bind, Except.bind, pure, Except.pure]

theorem Replays.branchAbsence_deleted (h : Replays moves store) {row : ReflogRow}
    (hgone : store.getRef branch.text = .ok none)
    (hlast : lastOf refName branch.text store.reflog = some row)
    (hnew : row.newHash = tombstoneHash.toHex) (hold : row.oldHash = some tip.toHex) :
    branchAbsence branch.text store =
      .ok (.deleted tip row.reason row.actor row.atMs.toUInt64) := by
  have hrow := mem_of_lastOf hlast
  obtain ⟨entry, hentry⟩ := h.readable row (h.retained.subset hrow.1)
  have hread : readReflog branch.text 1 store = .ok [entry] := by
    rw [h.readReflog_one, hlast]
    simp [intoReflogEntries, hrow.2, refuseIf, hentry, bind, Except.bind, pure, Except.pure]
  simp only [intoEntry, bind_eq_ok, pure_eq_ok, mapError_eq_ok, decodeHash?_eq_ok,
    decodeHash_eq_ok] at hentry
  obtain ⟨old, hold', new, hnew', _, -, rfl⟩ := hentry
  have htip : old = some tip := by
    cases old with
    | none => simp [hold] at hold'
    | some other =>
      rw [hold, Option.map_some, Option.some.injEq] at hold'
      rw [ContentHash.toHex_inj.mp hold']
  have htombstone : new = tombstoneHash := ContentHash.toHex_inj.mp (hnew'.symm.trans hnew)
  simp [branchAbsence, branch.parse_text, hgone, hread, htip, htombstone, bind, Except.bind, pure,
    Except.pure]

theorem Replays.branchAbsence_never (h : Replays moves store)
    (hgone : store.getRef branch.text = .ok none)
    (hlast : lastOf refName branch.text store.reflog = none) :
    branchAbsence branch.text store = .ok .neverExisted := by
  have hread : readReflog branch.text 1 store = .ok [] := by
    rw [h.readReflog_one, hlast]
    rfl
  simp [branchAbsence, branch.parse_text, hgone, hread, bind, Except.bind, pure, Except.pure]

theorem Replays.branchAbsence_congr (h : Replays moves store) (h' : Replays moves store')
    (hrefs : store'.refs = store.refs) (name : String) :
    branchAbsence name store' = branchAbsence name store := by
  cases hparse : BranchName.parse name with
  | error e => simp [branchAbsence, hparse, bind, Except.bind]
  | ok branch =>
    have hget : store'.getRef branch.text = store.getRef branch.text := getRef_congr (by rw [hrefs])
    have hread : readReflog branch.text 1 store' = readReflog branch.text 1 store := by
      rw [h.readReflog_one, h'.readReflog_one, h.newest, h'.newest]
    simp only [branchAbsence, hparse, bind, Except.bind, hget, hread]

/-! ## Calls -/

inductive RefCall where
  | createBranch (name : String) (target : ContentHash) (reason actor : String) (atMs : UInt64)
  | updateBranch (name : String) (target : ContentHash) (reason actor : String) (atMs : UInt64)
      (fastForwardOnly : Bool)
  | deleteBranch (name reason actor : String) (atMs : UInt64)
  | renameBranch (oldName newName reason actor : String) (atMs : UInt64)
  | commitCheckpointWithBranch (treeBytes : List UInt8) (treeCreatedAtMs : UInt64)
      (draft : CheckpointDraft) (branchName reason actor : String) (updatedAtMs : UInt64)
  | pruneReflog (name : String) (olderThanMs : UInt64) (maxRows : Nat)
      (tombstoneGraceMs nowMs : UInt64)

namespace RefCall

def serve (store : ContentStore) : RefCall → ContentStore
  | createBranch name target reason actor atMs =>
    (Session.createBranch name target reason actor atMs store).2
  | updateBranch name target reason actor atMs fastForwardOnly =>
    (Session.updateBranch name target reason actor atMs fastForwardOnly store).2
  | deleteBranch name reason actor atMs => (Session.deleteBranch name reason actor atMs store).2
  | renameBranch oldName newName reason actor atMs =>
    (Session.renameBranch oldName newName reason actor atMs store).2
  | commitCheckpointWithBranch treeBytes treeCreatedAtMs draft branchName reason actor
      updatedAtMs =>
    (Session.commitCheckpointWithBranch treeBytes treeCreatedAtMs draft branchName reason actor
      updatedAtMs store).2
  | pruneReflog name olderThanMs maxRows tombstoneGraceMs nowMs =>
    (Session.pruneReflog name olderThanMs maxRows tombstoneGraceMs nowMs store).2

/-- The moment that a call writes to the reflog is below `2^63`. -/
def InRange : RefCall → Prop
  | createBranch _ _ _ _ atMs | updateBranch _ _ _ _ atMs _ | deleteBranch _ _ _ atMs
  | renameBranch _ _ _ _ atMs | commitCheckpointWithBranch _ _ _ _ _ _ atMs =>
    beyondI64 atMs = false
  | pruneReflog .. => True

instance (call : RefCall) : Decidable call.InRange := by
  cases call <;> unfold InRange <;> infer_instance

end RefCall

def appended (store store' : ContentStore) : List ReflogRow :=
  store'.reflog.filter fun row => store.reflogSeq < row.seq

/-- Calls in turn on a store: all moves that they make, after some earlier ones, and the
store they leave. -/
def replay : List RefCall → List ReflogRow → ContentStore → List ReflogRow × ContentStore
  | [], moves, store => (moves, store)
  | call :: calls, moves, store =>
    replay calls (moves ++ appended store (call.serve store)) (call.serve store)

/-! ## One call -/

theorem appended_eq (hreflog : store'.reflog = store.reflog ++ rows)
    (hold : ∀ row ∈ store.reflog, row.seq ≤ store.reflogSeq)
    (hnew : ∀ row ∈ rows, store.reflogSeq < row.seq) : appended store store' = rows := by
  have hnone : (store.reflog.filter fun row => decide (store.reflogSeq < row.seq)) = [] :=
    filter_eq_nil_iff.mpr fun row hrow => by simpa using hold row hrow
  have hall : (rows.filter fun row => decide (store.reflogSeq < row.seq)) = rows :=
    filter_eq_self.mpr fun row hrow => by simpa using hnew row hrow
  rw [appended, hreflog, filter_append, hnone, hall, nil_append]

section Call

variable (h : Replays moves store)
include h

theorem Replays.reflog_le :
    ∀ row ∈ store.reflog, row.seq ≤ store.reflogSeq :=
  fun row hrow => h.numbered row (h.retained.subset hrow)

theorem Replays.appended_nil (hsub : store'.reflog ⊆ store.reflog) :
    appended store store' = [] :=
  filter_eq_nil_iff.mpr fun row hrow => by simpa using h.reflog_le row (hsub hrow)

theorem Replays.stay : Replays (moves ++ appended store store) store := by
  rw [h.appended_nil (List.Subset.refl _), append_nil]
  exact h

theorem Replays.serve_move {mid : ContentStore}
    (hrefs : ∀ branch : BranchName, mid.refs.find? branch.text = store.refs.find? branch.text)
    (hreflog : mid.reflog = store.reflog) (hseq : mid.reflogSeq = store.reflogSeq)
    (hmoved : Moved mid store' branch.text old new reason actor atMs)
    (hmoves : old ≠ none ∨ new ≠ none) (hrange : beyondI64 atMs = false) :
    Replays (moves ++ appended store store') store' := by
  have happended : appended store store' = [moveRow mid branch.text old new reason actor atMs] := by
    refine appended_eq ?_ h.reflog_le fun row hrow => ?_
    · rw [hmoved.reflog, hreflog]
      rfl
    · rw [mem_singleton.mp hrow, moveRow, hseq]
      exact Nat.lt_succ_self _
  rw [happended]
  exact (h.congr hrefs hreflog hseq).move hmoved hmoves hrange

theorem Replays.serve_moves {between : ContentStore}
    {first second : BranchName} {old new old' new' : Option ContentHash}
    (hmoved : Moved store between first.text old new reason actor atMs)
    (hmoved' : Moved between store' second.text old' new' reason actor atMs)
    (hmoves : old ≠ none ∨ new ≠ none) (hmoves' : old' ≠ none ∨ new' ≠ none)
    (hrange : beyondI64 atMs = false) : Replays (moves ++ appended store store') store' := by
  have happended : appended store store' = [moveRow store first.text old new reason actor atMs] ++
        [moveRow between second.text old' new' reason actor atMs] := by
    refine appended_eq ?_ h.reflog_le fun row hrow => ?_
    · rw [hmoved'.reflog, hmoved.reflog, append_assoc]
      rfl
    · rcases mem_append.mp hrow with hrow | hrow <;> rw [mem_singleton.mp hrow, moveRow]
      · exact Nat.lt_succ_self _
      · rw [hmoved.seq]
        exact (Nat.lt_succ_self _).trans (Nat.lt_succ_self _)
  rw [happended, ← append_assoc]
  exact (h.move hmoved hmoves hrange).move hmoved' hmoves' hrange

theorem Replays.of_spec {α : Type} {op : RefOp α}
    {Q : α → ContentStore → Prop}
    (hspec : wp op Q (fun _ store' => store' = store) store)
    (hextends : ∀ a store', Q a store' → Replays (moves ++ appended store store') store') :
    Replays (moves ++ appended store (op store).2) (op store).2 := by
  rcases hrun : op store with ⟨error | a, store'⟩
  · rw [of_wp_error hspec hrun]
    exact h.stay
  · exact hextends a store' (of_wp_ok hspec hrun)

theorem Replays.serve (call : RefCall) (hrange : call.InRange) :
    Replays (moves ++ appended store (call.serve store)) (call.serve store) := by
  cases call with
  | createBranch name target reason actor atMs =>
    refine h.of_spec (createBranch_spec name target reason actor atMs store) ?_
    rintro branch store' ⟨-, -, hmoved⟩
    exact h.serve_move (fun _ => rfl) rfl rfl hmoved (.inr nofun) hrange
  | updateBranch name target reason actor atMs fastForwardOnly =>
    refine h.of_spec (updateBranch_moved name target reason actor atMs fastForwardOnly store) ?_
    rintro branch store' ⟨-, -, tip, hmoved⟩
    exact h.serve_move (fun _ => rfl) rfl rfl hmoved (.inr nofun) hrange
  | deleteBranch name reason actor atMs =>
    refine h.of_spec (deleteBranch_spec name reason actor atMs store) ?_
    rintro tip store' ⟨branch, -, hmoved⟩
    exact h.serve_move (fun _ => rfl) rfl rfl hmoved (.inl nofun) hrange
  | renameBranch oldName newName reason actor atMs =>
    refine h.of_spec (renameBranch_spec oldName newName reason actor atMs store) ?_
    rintro tip store' ⟨old, new, between, -, -, -, hmoved, hmoved'⟩
    exact h.serve_moves hmoved hmoved' (.inl nofun) (.inr nofun) hrange
  | commitCheckpointWithBranch treeBytes treeCreatedAtMs draft branchName reason actor
      updatedAtMs =>
    refine h.of_spec (commitCheckpointWithBranch_spec treeBytes treeCreatedAtMs draft branchName
      reason actor updatedAtMs store) ?_
    rintro checkpoint store' ⟨-, branch, previous, -, hmoved⟩
    exact h.serve_move (find?_committed _ _ _ _) rfl rfl hmoved (.inr nofun) hrange
  | pruneReflog name olderThanMs maxRows tombstoneGraceMs nowMs =>
    refine h.of_spec (wp_mono
      (pruneReflog_spec name olderThanMs maxRows tombstoneGraceMs nowMs store)
      (fun _ _ hpruned => hpruned) fun _ _ hfail => hfail.1) ?_
    rintro report store' ⟨victims, rfl, hvictims⟩
    rw [h.appended_nil fun row hrow => mem_of_mem_filter hrow, append_nil]
    exact h.prune hvictims

theorem Replays.replay {calls : List RefCall}
    (hrange : ∀ call ∈ calls, call.InRange) :
    Replays (Session.replay calls moves store).1 (Session.replay calls moves store).2 := by
  induction calls generalizing moves store with
  | nil => exact h
  | cons call calls ih =>
    exact ih (h.serve call (hrange call mem_cons_self)) fun other hother =>
      hrange other (mem_cons_of_mem _ hother)

end Call

/-! ## The history of a run -/

structure ReflogHistory (moves : List ReflogRow) (store : ContentStore) : Prop where
  ordered : ∀ name, (reflogOf name store).Pairwise (·.seq < ·.seq)
  chained : ∀ row ∈ store.reflog, ∃ before after, moves = before ++ row :: after ∧
    Follows before row
  located : ∀ branch : BranchName,
    Locates store branch.text (reflogOf branch.text store).getLast?
  unmoved : ∀ name, reflogOf name store = [] → ∀ row ∈ moves, row.refName ≠ name
  live : ∀ (branch : BranchName) tip, store.getRef branch.text = .ok (some tip) →
    branchAbsence branch.text store = .ok (.live tip)
  deleted : ∀ (branch : BranchName) row, store.getRef branch.text = .ok none →
    (reflogOf branch.text store).getLast? = some row →
    ∃ tip : ContentHash, row.oldHash = some tip.toHex ∧ branchAbsence branch.text store =
      .ok (.deleted tip row.reason row.actor row.atMs.toUInt64)
  neverExisted : ∀ branch : BranchName, reflogOf branch.text store = [] →
    branchAbsence branch.text store = .ok .neverExisted
  pruned : ∀ name olderThanMs maxRows tombstoneGraceMs nowMs store',
    store' = (pruneReflog name olderThanMs maxRows tombstoneGraceMs nowMs store).2 →
    store'.refs = store.refs ∧ ∀ other, branchAbsence other store' = branchAbsence other store

theorem Replays.chained_retained (h : Replays moves store) :
    ∀ row ∈ store.reflog, ∃ before after, moves = before ++ row :: after ∧ Follows before row := by
  intro row hrow
  obtain ⟨before, after, hsplit⟩ := append_of_mem (h.retained.subset hrow)
  exact ⟨before, after, hsplit, h.chained before row after hsplit⟩

theorem Replays.pruned (h : Replays moves store) (name : String) (olderThanMs : UInt64)
    (maxRows : Nat) (tombstoneGraceMs nowMs : UInt64) :
    (pruneReflog name olderThanMs maxRows tombstoneGraceMs nowMs store).2.refs = store.refs ∧
      ∀ other, branchAbsence other
        (pruneReflog name olderThanMs maxRows tombstoneGraceMs nowMs store).2 =
          branchAbsence other store := by
  have hspec := pruneReflog_spec name olderThanMs maxRows tombstoneGraceMs nowMs store
  rcases hrun : pruneReflog name olderThanMs maxRows tombstoneGraceMs nowMs store with
    ⟨error | report, store'⟩
  · rw [(of_wp_error hspec hrun).1]
    exact ⟨rfl, fun _ => rfl⟩
  · obtain ⟨victims, rfl, hvictims⟩ := of_wp_ok hspec hrun
    exact ⟨rfl, h.branchAbsence_congr (h.prune hvictims) rfl⟩

/-- After any calls on a new store the reflog is a history of its branches. -/
theorem reflog_replays (calls : List RefCall) (hrange : ∀ call ∈ calls, call.InRange) :
    ReflogHistory (replay calls [] openInMemory).1 (replay calls [] openInMemory).2 := by
  have h := replays_empty.replay hrange
  generalize replay calls [] openInMemory = run at h
  have hlast : ∀ name, (reflogOf name run.2).getLast? = lastOf refName name run.1 := h.newest
  have hnil : ∀ name, reflogOf name run.2 = [] → lastOf refName name run.1 = none := by
    intro name hempty
    rw [← hlast, hempty]
    rfl
  refine ⟨fun name => (h.ascending.sublist h.retained).filter _, h.chained_retained, ?_, ?_,
    fun _ _ hlive => branchAbsence_live hlive, ?_, ?_, ?_⟩
  · intro branch
    rw [hlast]
    exact h.located branch
  · exact fun name hempty => lastOf_eq_none.mp (hnil name hempty)
  · intro branch row hgone hrow
    have hlocated := h.located branch
    rw [← hlast, hrow] at hlocated
    rcases hlocated with ⟨tip, htip, -⟩ | ⟨-, hnew, tip, hold⟩
    · rw [hgone] at htip
      cases htip
    · exact ⟨tip, hold, h.branchAbsence_deleted hgone hrow hnew hold⟩
  · intro branch hempty
    have hlocated := h.located branch
    rw [hnil _ hempty] at hlocated
    exact h.branchAbsence_never hlocated ((h.newest _).trans (hnil _ hempty))
  · rintro name olderThanMs maxRows tombstoneGraceMs nowMs _ rfl
    exact h.pruned name olderThanMs maxRows tombstoneGraceMs nowMs

def startAndDelete : List RefCall :=
  [.commitCheckpointWithBranch [] 1 (plainDraft [] "start") "heads/feature" "start" "user" 1,
    .deleteBranch "heads/feature" "done" "user" 2,
    .pruneReflog "heads/feature" 3 8 0 3]

theorem reflog_replays_startAndDelete : (∀ call ∈ startAndDelete, call.InRange) ∧
      (replay startAndDelete [] openInMemory).1.length = 2 ∧
      (replay startAndDelete [] openInMemory).2.reflog.length = 1 ∧
      ReflogHistory (replay startAndDelete [] openInMemory).1
        (replay startAndDelete [] openInMemory).2 :=
  ⟨by decide, by decide +kernel, by decide +kernel, reflog_replays startAndDelete (by decide)⟩

end BittyAi.Session
