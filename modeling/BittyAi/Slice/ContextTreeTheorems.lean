/-
BittyAi.Slice.ContextTreeTheorems — what a context tree holds under a name.

An entry is valid if `TreeEntry::new` makes it and its size fits its eight bytes.
-/
import BittyAi.Lib.KeyedTable
import BittyAi.Slice.ContextTree

namespace BittyAi.Slice

open Lib Session TreeEntry List

variable {tree : ContextTree} {entry : TreeEntry} {name : String}

/-! ## Slots -/

namespace ContextTree

theorem get_eq_some : tree.get name = some entry ↔ entry ∈ tree.entries ∧ entry.name = name :=
  find?_key_eq_some (pairwise_map.mpr (tree.sorted.imp fun hlt => hlt.ne))

theorem get_eq_none : tree.get name = none ↔ name ∉ tree.names := by simp [get, names]

theorem mem_names : name ∈ tree.names ↔ ∃ entry, tree.get name = some entry := by
  rw [← Option.isSome_iff_exists, ← Option.ne_none_iff_isSome, Ne, get_eq_none, not_not]

@[simp] theorem get_empty (name : String) : empty.get name = none := rfl

theorem find?_insertEntry (entry : TreeEntry) (entries : List TreeEntry) :
    (insertEntry entry entries).find? (·.name = name) =
      if entry.name = name then some entry else entries.find? (·.name = name) := by
  induction entries with
  | nil => by_cases h : entry.name = name <;> simp [insertEntry, h]
  | cons first rest ih =>
    unfold insertEntry
    split
    next => by_cases h : entry.name = name <;> simp [h]
    next =>
      split
      next heq => by_cases h : entry.name = name <;> simp [h, ← heq]
      next hne =>
        by_cases hfirst : first.name = name
        · simp [hfirst, hfirst ▸ hne]
        · simpa [hfirst] using ih

theorem get_insert (tree : ContextTree) (entry : TreeEntry) (name : String) :
    (tree.insert entry).get name = if entry.name = name then some entry else tree.get name :=
  find?_insertEntry entry tree.entries

end ContextTree

/-! ## Valid entries -/

/-- The entry is one that `TreeEntry::new` makes, of a size that fits eight bytes. -/
structure TreeEntry.Valid (entry : TreeEntry) : Prop where
  made : new entry.name entry.hash entry.kind entry.sizeBytes = .ok entry
  size : entry.sizeBytes >>> 64 = 0

theorem TreeEntry.new_valid {raw : String} {hash : ContentHash} {kind : EntryKind}
    {sizeBytes : Nat} (h : new raw hash kind sizeBytes = .ok entry)
    (hsize : sizeBytes >>> 64 = 0) : entry.Valid := by
  simp only [new, bind_eq_ok, pure_eq_ok, refuseIf_eq_ok, exists_const] at h
  obtain ⟨hfilled, hshort, hplain, rfl⟩ := h
  refine ⟨?_, hsize⟩
  simp only [new, bind_eq_ok, pure_eq_ok, refuseIf_eq_ok, exists_const, trim_trim]
  exact ⟨hfilled, hshort, hplain, trivial⟩

theorem TreeEntry.Valid.name_le (h : entry.Valid) : entry.name.utf8ByteSize ≤ maxSlotNameBytes := by
  have hmade := h.made
  simp only [new, bind_eq_ok, pure_eq_ok, refuseIf_eq_ok, exists_const, not_lt] at hmade
  obtain ⟨-, hshort, -, hsame⟩ := hmade
  rw [← hsame]
  exact hshort

structure TreeEntry.Fits (entry : TreeEntry) : Prop where
  name : entry.name.utf8ByteSize >>> 32 = 0
  size : entry.sizeBytes >>> 64 = 0

theorem TreeEntry.Valid.fits (h : entry.Valid) : entry.Fits := by
  have hname := h.name_le
  refine ⟨?_, h.size⟩
  rw [Nat.shiftRight_eq_div_pow]
  simp only [maxSlotNameBytes] at hname
  omega

def ContextTree.WellFormed (tree : ContextTree) : Prop := ∀ entry ∈ tree.entries, entry.Valid

namespace ContextTree

theorem wellFormed_empty : WellFormed empty := nofun

theorem WellFormed.insert (h : tree.WellFormed) (hentry : entry.Valid) :
    (tree.insert entry).WellFormed := by
  intro other hother
  rcases mem_insertEntry hother with rfl | hmem
  · exact hentry
  · exact h other hmem

/-! ## Reading back -/

/-- The bytes of a record are read back; its name is trimmed and checked, and what stands behind
them is left. -/
theorem parseEntry_record (h : entry.Fits) (rest : List UInt8) :
    parseEntry (entryBytes entry ++ rest) =
      (new entry.name entry.hash entry.kind entry.sizeBytes).map (·, rest) := by
  have hlen : ofBeBytes (beBytes 4 entry.name.utf8ByteSize) = entry.name.utf8ByteSize :=
    ofBeBytes_beBytes h.name
  have hsplit : entryBytes entry ++ rest = beBytes 4 entry.name.utf8ByteSize ++
      (utf8Bytes entry.name ++ (entry.hash.bytes ++ (entry.kind.asU8 ::
        (beBytes 8 entry.sizeBytes ++ rest)))) := by
    simp [entryBytes]
  have hsize : ofBeBytes (beBytes 8 entry.sizeBytes) = entry.sizeBytes := ofBeBytes_beBytes h.size
  -- the fields of the entry, cut out of the bytes one after the other
  have hname := length_utf8Bytes entry.name
  have hdropKind : ∀ ys, (entry.hash.bytes ++ entry.kind.asU8 :: ys).drop 33 = ys := by
    intro ys
    rw [append_cons]
    exact drop_left' (by simp [entry.hash.size])
  have hdropAll : (entry.hash.bytes ++ entry.kind.asU8 ::
      (beBytes 8 entry.sizeBytes ++ rest)).drop 41 = rest := by
    rw [← cons_append, ← append_assoc]
    exact drop_left' (by simp [entry.hash.size])
  rw [parseEntry, hsplit, refuseIf, if_neg (by simp)]
  simp only [bind, Except.bind, take_left' (length_beBytes 4 _),
    drop_left' (length_beBytes 4 _), hlen]
  rw [dif_neg (by simp [entry.hash.size]; omega)]
  simp only [← drop_drop, drop_left' hname, drop_left' entry.hash.size, hdropKind, hdropAll,
    take_left' hname, take_left' entry.hash.size, take_left' (length_beBytes 8 _), hsize,
    fromUTF8?_utf8Bytes, headD_cons]
  cases hkind : entry.kind <;> simp only [EntryKind.asU8] <;>
    cases new entry.name entry.hash _ entry.sizeBytes <;> rfl

theorem parseEntry_entryBytes (h : entry.Valid) (rest : List UInt8) :
    parseEntry (entryBytes entry ++ rest) = .ok (entry, rest) := by
  rw [parseEntry_record h.fits, h.made]
  rfl

theorem insertEntry_last {entries : List TreeEntry}
    (h : ∀ other ∈ entries, other.name < entry.name) :
    insertEntry entry entries = entries ++ [entry] := by
  induction entries with
  | nil => rfl
  | cons first rest ih =>
    have hfirst := h first mem_cons_self
    rw [insertEntry, if_neg hfirst.not_gt, if_neg hfirst.ne',
      ih fun other hother => h other (mem_cons_of_mem _ hother), cons_append]

theorem parseEntries_entryBytes {entries : List TreeEntry} {fuel : Nat} {read : ContextTree}
    (hvalid : ∀ entry ∈ entries, entry.Valid) (hfuel : (entries.flatMap entryBytes).length ≤ fuel)
    (hsorted : (read.entries ++ entries).Pairwise (·.name < ·.name)) :
    parseEntries fuel (entries.flatMap entryBytes) read =
      .ok ⟨read.entries ++ entries, hsorted⟩ := by
  induction entries generalizing fuel read with
  | nil => cases fuel <;> simp [parseEntries]
  | cons entry rest ih =>
    have hbytes : (entryBytes entry).length ≠ 0 := by simp [entryBytes]
    have hlast : insertEntry entry read.entries = read.entries ++ [entry] :=
      insertEntry_last fun other hother =>
        (pairwise_append.mp hsorted).2.2 other hother entry mem_cons_self
    have hinsert : (read.insert entry).entries = read.entries ++ [entry] := hlast
    have hrest : ((read.insert entry).entries ++ rest).Pairwise (·.name < ·.name) := by
      rw [hinsert, append_assoc]
      exact hsorted
    rw [flatMap_cons, length_append] at hfuel
    cases fuel with
    | zero => omega
    | succ fuel =>
      have hnonempty : (entryBytes entry ++ rest.flatMap entryBytes).isEmpty = false := by
        simp [entryBytes]
      rw [flatMap_cons, parseEntries, hnonempty, parseEntry_entryBytes (hvalid entry mem_cons_self)]
      have hread := @ih fuel (read.insert entry)
        (fun other hother => hvalid other (mem_cons_of_mem _ hother)) (by omega) hrest
      simp only [bind, Except.bind, Bool.false_eq_true, if_false, hread]
      simp [hinsert]

theorem fromCanonicalBytes_canonicalBytes (h : tree.WellFormed) :
    fromCanonicalBytes tree.canonicalBytes = .ok tree := by
  have hmagic : magic.isPrefixOf tree.canonicalBytes = true :=
    isPrefixOf_iff_prefix.mpr (prefix_append _ _)
  have hsorted : (empty.entries ++ tree.entries).Pairwise (·.name < ·.name) := tree.sorted
  rw [fromCanonicalBytes, if_pos hmagic, canonicalBytes, drop_left,
    parseEntries_entryBytes h (by simp) hsorted]
  rfl

theorem parseEntry_valid {bytes rest : List UInt8} (h : parseEntry bytes = .ok (entry, rest)) :
    entry.Valid := by
  have hsize : ∀ bytes : List UInt8, ofBeBytes (bytes.take 8) >>> 64 = 0 :=
    fun bytes => @ofBeBytes_fits _ 8 (length_take_le _ _)
  simp only [parseEntry, bind_eq_ok, refuseIf_eq_ok, exists_const] at h
  obtain ⟨-, h⟩ := h
  split at h
  next => cases h
  next =>
    split at h
    next =>
      simp only [bind_eq_ok] at h
      obtain ⟨name, -, h⟩ := h
      split at h
      all_goals
        simp only [bind_eq_ok, pure_eq_ok, Prod.mk.injEq, reduceCtorEq, false_and,
          exists_false] at h
      all_goals
        obtain ⟨kind, -, made, hmade, rfl, -⟩ := h
        exact new_valid hmade (hsize _)
    next => cases h

theorem parseEntries_wellFormed {fuel : Nat} {bytes : List UInt8} {read : ContextTree}
    (hread : read.WellFormed) (h : parseEntries fuel bytes read = .ok tree) :
    tree.WellFormed := by
  induction fuel generalizing bytes read with
  | zero =>
    cases h
    exact hread
  | succ fuel ih =>
    rw [parseEntries] at h
    split at h
    · cases h
      exact hread
    · rw [bind_eq_ok] at h
      obtain ⟨⟨entry, rest⟩, hentry, hrest⟩ := h
      exact ih (hread.insert (parseEntry_valid hentry)) hrest

theorem fromCanonicalBytes_wellFormed {bytes : List UInt8}
    (h : fromCanonicalBytes bytes = .ok tree) : tree.WellFormed := by
  rw [fromCanonicalBytes] at h
  split at h
  · exact parseEntries_wellFormed wellFormed_empty h
  · cases h

end ContextTree

/-! ## Merging a slot -/

section ThreeWay

variable {α : Type} {b o t : α}

/-- Both sides have changed the base, and not alike. -/
def Clashes (b o t : α) : Prop := o ≠ b ∧ t ≠ b ∧ o ≠ t

instance [DecidableEq α] (b o t : α) : Decidable (Clashes b o t) :=
  inferInstanceAs (Decidable (_ ∧ _ ∧ _))

/-- A side that has not changed the base gives way to the other. -/
def diff3 [DecidableEq α] (b o t : α) : α := if o = b then t else o

theorem diff3_of_ours_unchanged [DecidableEq α] (h : o = b) : diff3 b o t = t := if_pos h

theorem diff3_of_theirs_unchanged [DecidableEq α] (h : t = b) : diff3 b o t = o := by
  rw [diff3]
  split
  next heq => rw [h, heq]
  next => rfl

end ThreeWay

section MergeSlot

variable {key : String} {base ours theirs : Option TreeEntry} {result : TreeMergeResult}

theorem mergeSlot_eq (hheld : ¬(base = none ∧ ours = none ∧ theirs = none)) :
    mergeSlot key base ours theirs result =
      if Clashes base ours theirs then result.clash ⟨key, base, ours, theirs⟩
      else match diff3 base ours theirs with
        | some entry => result.keep entry
        | none => result := by
  rcases base with _ | b <;> rcases ours with _ | o <;> rcases theirs with _ | t
  · simp at hheld
  all_goals
    simp only [mergeSlot, Clashes, diff3, Option.some.injEq, reduceCtorEq, ne_eq]
    grind

end MergeSlot

/-! ## Merging trees -/

namespace ContextTree

variable {base ours theirs : ContextTree}

abbrev ClashesAt (base ours theirs : ContextTree) (name : String) : Prop :=
  Clashes (base.get name) (ours.get name) (theirs.get name)

abbrev diff3At (base ours theirs : ContextTree) (name : String) : Option TreeEntry :=
  diff3 (base.get name) (ours.get name) (theirs.get name)

def conflictAt (base ours theirs : ContextTree) (name : String) : SlotConflict :=
  ⟨name, base.get name, ours.get name, theirs.get name⟩

structure Settled (base ours theirs : ContextTree) (done : List String)
    (result : TreeMergeResult) : Prop where
  slots : ∀ name, result.merged.get name =
    if name ∈ done ∧ ¬ClashesAt base ours theirs name then diff3At base ours theirs name else none
  conflicts : result.conflicts =
    (done.filter (ClashesAt base ours theirs ·)).map (conflictAt base ours theirs)

theorem diff3At_eq_some (h : diff3At base ours theirs name = some entry) :
    entry.name = name ∧ (entry ∈ ours.entries ∨ entry ∈ theirs.entries) := by
  rw [diff3At, diff3] at h
  split at h
  · obtain ⟨hmem, hname⟩ := get_eq_some.mp h
    exact ⟨hname, .inr hmem⟩
  · obtain ⟨hmem, hname⟩ := get_eq_some.mp h
    exact ⟨hname, .inl hmem⟩

theorem Settled.slot {done : List String} {result : TreeMergeResult}
    (h : Settled base ours theirs done result) {key : String}
    (hheld : key ∈ base.names ++ ours.names ++ theirs.names) :
    Settled base ours theirs (done ++ [key])
      (mergeSlot key (base.get key) (ours.get key) (theirs.get key) result) := by
  have hsome : ¬(base.get key = none ∧ ours.get key = none ∧ theirs.get key = none) := by
    simp only [get_eq_none]
    simp only [mem_append] at hheld
    tauto
  rw [mergeSlot_eq hsome]
  by_cases hclash : ClashesAt base ours theirs key
  · rw [if_pos hclash]
    refine ⟨fun name => ?_, ?_⟩
    · rw [TreeMergeResult.clash, h.slots]
      refine if_congr ?_ rfl rfl
      by_cases hname : name = key
      · simp [hname, hclash]
      · simp [hname]
    · simp [TreeMergeResult.clash, h.conflicts, hclash, conflictAt]
  · rw [if_neg hclash]
    have hconflicts : result.conflicts =
        ((done ++ [key]).filter (ClashesAt base ours theirs ·)).map
          (conflictAt base ours theirs) := by
      simp [h.conflicts, hclash]
    have hother : ∀ name, name ≠ key → result.merged.get name =
        if name ∈ done ++ [key] ∧ ¬ClashesAt base ours theirs name then
          diff3At base ours theirs name else none := by
      intro name hname
      rw [h.slots]
      exact if_congr (by simp [hname]) rfl rfl
    split
    next entry hentry =>
      obtain ⟨rfl, -⟩ := diff3At_eq_some hentry
      refine ⟨fun name => ?_, hconflicts⟩
      by_cases hname : name = entry.name
      · rw [hname, TreeMergeResult.keep, get_insert, if_pos rfl, if_pos ⟨by simp, hclash⟩]
        exact hentry.symm
      · rw [TreeMergeResult.keep, get_insert, if_neg (Ne.symm hname)]
        exact hother name hname
    next hnone =>
      refine ⟨fun name => ?_, hconflicts⟩
      by_cases hname : name = key
      · have hdeleted : diff3At base ours theirs key = none := hnone
        rw [h.slots, hname, hdeleted]
        simp
      · exact hother name hname

theorem Settled.mergeSlots {done keys : List String} {result : TreeMergeResult}
    (h : Settled base ours theirs done result)
    (hheld : ∀ key ∈ keys, key ∈ base.names ++ ours.names ++ theirs.names) :
    Settled base ours theirs (done ++ keys) (mergeSlots base ours theirs keys result) := by
  induction keys generalizing done result with
  | nil => simpa [ContextTree.mergeSlots] using h
  | cons key keys ih =>
    have hrest := ih (h.slot (hheld key mem_cons_self)) fun other hother =>
      hheld other (mem_cons_of_mem _ hother)
    rwa [append_assoc] at hrest

theorem merge3way_settled (base ours theirs : ContextTree) :
    Settled base ours theirs (sortDedup (base.names ++ ours.names ++ theirs.names))
      (merge3way base ours theirs) := by
  have hstart : Settled base ours theirs [] ⟨empty, []⟩ := ⟨fun name => by simp, rfl⟩
  exact hstart.mergeSlots fun key hkey => mem_sortDedup.mp hkey

theorem merge3way_get (base ours theirs : ContextTree) (name : String) :
    (merge3way base ours theirs).merged.get name =
      if ClashesAt base ours theirs name then none else diff3At base ours theirs name := by
  rw [(merge3way_settled base ours theirs).slots]
  simp only [mem_sortDedup]
  by_cases hheld : name ∈ base.names ++ ours.names ++ theirs.names
  · by_cases hclash : ClashesAt base ours theirs name
    · rw [if_neg fun h => h.2 hclash, if_pos hclash]
    · rw [if_pos ⟨hheld, hclash⟩, if_neg hclash]
  · have hnone : ours.get name = none ∧ theirs.get name = none := by
      simp only [get_eq_none]
      simp only [mem_append] at hheld
      tauto
    rw [if_neg fun h => hheld h.1]
    simp [diff3At, diff3, hnone]

theorem merge3way_clean (h : (merge3way base ours theirs).conflicts = []) (name : String) :
    ¬ClashesAt base ours theirs name := by
  intro hclash
  have hours : ∃ entry, ours.get name = some entry ∨ theirs.get name = some entry := by
    cases hget : ours.get name with
    | some entry => exact ⟨entry, .inl rfl⟩
    | none =>
      cases hget' : theirs.get name with
      | some entry => exact ⟨entry, .inr rfl⟩
      | none => exact absurd (hget.trans hget'.symm) hclash.2.2
  have hheld : name ∈ base.names ++ ours.names ++ theirs.names := by
    simp only [mem_append, mem_names]
    obtain ⟨entry, hours | htheirs⟩ := hours
    · exact .inl (.inr ⟨entry, hours⟩)
    · exact .inr ⟨entry, htheirs⟩
  rw [(merge3way_settled base ours theirs).conflicts, map_eq_nil_iff, filter_eq_nil_iff] at h
  exact h name (mem_sortDedup.mpr hheld) (by simpa using hclash)

theorem merge3way_keeps (h : (merge3way base ours theirs).conflicts = []) (name : String) :
    (theirs.get name = base.get name →
      (merge3way base ours theirs).merged.get name = ours.get name) ∧
    (ours.get name = base.get name →
      (merge3way base ours theirs).merged.get name = theirs.get name) := by
  rw [merge3way_get, if_neg (merge3way_clean h name)]
  exact ⟨diff3_of_theirs_unchanged, diff3_of_ours_unchanged⟩

theorem WellFormed.merge3way (hours : ours.WellFormed) (htheirs : theirs.WellFormed) :
    (merge3way base ours theirs).merged.WellFormed := by
  intro entry hentry
  have hget := merge3way_get base ours theirs entry.name
  rw [get_eq_some.mpr ⟨hentry, rfl⟩] at hget
  split at hget
  · cases hget
  · rcases (diff3At_eq_some hget.symm).2 with hmem | hmem
    · exact hours entry hmem
    · exact htheirs entry hmem

/-! ## The three-way rule -/

theorem eq_of_get {tree other : ContextTree} (h : ∀ name, tree.get name = other.get name) :
    tree = other := by
  have hmem : ∀ {entry : TreeEntry} {x y : ContextTree}, (∀ name, x.get name = y.get name) →
      entry ∈ x.entries → entry ∈ y.entries := by
    intro entry x y hsame hentry
    have hget := get_eq_some.mpr ⟨hentry, rfl⟩
    rw [hsame] at hget
    exact (get_eq_some.mp hget).1
  have hirrefl : Std.Irrefl fun a b : TreeEntry => a.name < b.name := ⟨fun a => lt_irrefl a.name⟩
  have hantisymm : Std.Antisymm fun a b : TreeEntry => a.name < b.name :=
    ⟨fun a b hab hba => absurd hab hba.asymm⟩
  have hentries : tree.entries = other.entries :=
    tree.sorted.eq_of_mem_iff other.sorted fun _ => ⟨hmem h, hmem fun name => (h name).symm⟩
  cases tree
  cases other
  cases hentries
  rfl

theorem conflicts_at (base ours theirs : ContextTree) (name : String) :
    (merge3way base ours theirs).conflicts.filter (·.slot = name) =
      if ClashesAt base ours theirs name then [conflictAt base ours theirs name] else [] := by
  have hsettled := merge3way_settled base ours theirs
  have hnodup : (sortDedup (base.names ++ ours.names ++ theirs.names)).Nodup :=
    (sorted_sortDedup _).imp ne_of_lt
  split
  next hclash =>
    have hheld : name ∈ sortDedup (base.names ++ ours.names ++ theirs.names) := by
      by_contra hnone
      have hget : ours.get name = none ∧ theirs.get name = none := by
        simp only [get_eq_none]
        simp only [mem_sortDedup, mem_append] at hnone
        tauto
      exact hclash.2.2 (hget.1.trans hget.2.symm)
    have hslot : ∀ key ∈ sortDedup (base.names ++ ours.names ++ theirs.names),
        (decide ((conflictAt base ours theirs key).slot = name) &&
          decide (ClashesAt base ours theirs key)) = (key == name) := by
      intro key _
      by_cases hkey : key = name
      · simp [hkey, hclash, conflictAt]
      · simp [hkey, conflictAt]
    rw [hsettled.conflicts, filter_map, filter_filter]
    simp only [Function.comp_apply]
    rw [filter_congr hslot, filter_beq, count_eq_one_of_mem hnodup hheld]
    rfl
  next hclash =>
    rw [hsettled.conflicts, filter_map, map_eq_nil_iff, filter_eq_nil_iff]
    intro key hkey hslot
    have hname : key = name := of_decide_eq_true hslot
    exact hclash (hname ▸ of_decide_eq_true (mem_filter.mp hkey).2)

theorem slots_of_conflicts (base ours theirs : ContextTree) :
    (merge3way base ours theirs).conflicts.map (·.slot) =
      (sortDedup (base.names ++ ours.names ++ theirs.names)).filter
        (ClashesAt base ours theirs ·) := by
  rw [(merge3way_settled base ours theirs).conflicts, map_map]
  exact map_id _

theorem merge3way_eq (h : ∀ name, ¬ClashesAt base ours theirs name ∧
      diff3At base ours theirs name = tree.get name) :
    merge3way base ours theirs = ⟨tree, []⟩ := by
  have hmerged : (merge3way base ours theirs).merged = tree := by
    refine eq_of_get fun name => ?_
    rw [merge3way_get, if_neg (h name).1, (h name).2]
  have hconflicts : (merge3way base ours theirs).conflicts = [] := by
    rw [← map_eq_nil_iff, slots_of_conflicts, filter_eq_nil_iff]
    exact fun name _ => by simpa using (h name).1
  rw [← hmerged, ← hconflicts]

/-- `merge_3way` is the three-way rule in every slot, so it does not matter which side is ours, and
a side that has changed nothing, or the same, leaves the other. -/
theorem merge3way_is_diff3 (base ours theirs : ContextTree) : (∀ name,
      ((merge3way base ours theirs).conflicts.filter (·.slot = name) =
        if Clashes (base.get name) (ours.get name) (theirs.get name) then
          [⟨name, base.get name, ours.get name, theirs.get name⟩] else []) ∧
      (merge3way base ours theirs).merged.get name =
        if Clashes (base.get name) (ours.get name) (theirs.get name) then none
        else diff3 (base.get name) (ours.get name) (theirs.get name)) ∧
    (merge3way base theirs ours).merged = (merge3way base ours theirs).merged ∧
    (merge3way base theirs ours).conflicts.map (·.slot) =
      (merge3way base ours theirs).conflicts.map (·.slot) ∧
    merge3way base ours base = ⟨ours, []⟩ ∧ merge3way base ours ours = ⟨ours, []⟩ := by
  have hswap : ∀ name, ClashesAt base theirs ours name ↔ ClashesAt base ours theirs name :=
    fun name => ⟨fun h => ⟨h.2.1, h.1, h.2.2.symm⟩, fun h => ⟨h.2.1, h.1, h.2.2.symm⟩⟩
  refine ⟨fun name => ⟨conflicts_at base ours theirs name, merge3way_get base ours theirs name⟩,
    eq_of_get fun name => ?_, ?_, merge3way_eq fun name => ⟨fun h => h.2.1 rfl, ?_⟩,
    merge3way_eq fun name => ⟨fun h => h.2.2 rfl, ?_⟩⟩
  · rw [merge3way_get, merge3way_get]
    simp only [hswap]
    split
    next => rfl
    next hclash =>
      simp only [diff3At, diff3]
      grind [Clashes]
  · rw [slots_of_conflicts, slots_of_conflicts]
    simp only [hswap]
    congr 1
    refine sortDedup_congr fun name => ?_
    simp only [mem_append]
    tauto
  · exact diff3_of_theirs_unchanged rfl
  · simp [diff3At, diff3]

/-- An entry for the samples. -/
def slot (name : String) : TreeEntry := ⟨name, tombstoneHash, .blob, 0⟩

variable {tree : ContextTree} {bytes : List UInt8}

/-! ## Reading what was written -/

/-- The trees that are built by inserting entries made with `TreeEntry::new`, of sizes that fit 64
bits. -/
inductive Built : ContextTree → Prop
  | empty : Built empty
  | insert {tree : ContextTree} {raw : String} {hash : ContentHash} {kind : EntryKind}
      {sizeBytes : Nat} {entry : TreeEntry} (h : Built tree)
      (hsize : sizeBytes < 0x10000000000000000)
      (hmade : new raw hash kind sizeBytes = .ok entry) : Built (tree.insert entry)

theorem Built.wellFormed (h : Built tree) : tree.WellFormed := by
  induction h with
  | empty => exact wellFormed_empty
  | insert h hsize hmade ih =>
    refine ih.insert (new_valid hmade ?_)
    rw [Nat.shiftRight_eq_div_pow]
    omega

/-- A built tree is read back from its bytes; so no other built tree has its bytes, nor its digest
unless the hash collides. -/
theorem tree_codec (h : Built tree) : fromCanonicalBytes tree.canonicalBytes = .ok tree ∧
    ∀ other, Built other →
      (other.canonicalBytes = tree.canonicalBytes ↔ other = tree) ∧
      (other.digest = tree.digest → other = tree ∨ other.canonicalBytes ≠ tree.canonicalBytes ∧
          ContentHash.compute other.canonicalBytes = ContentHash.compute tree.canonicalBytes) := by
  have hread := fromCanonicalBytes_canonicalBytes h.wellFormed
  refine ⟨hread, fun other hother => ?_⟩
  have hinj : other.canonicalBytes = tree.canonicalBytes ↔ other = tree := by
    refine ⟨fun hbytes => ?_, fun heq => by rw [heq]⟩
    have hback := fromCanonicalBytes_canonicalBytes hother.wellFormed
    rw [hbytes, hread] at hback
    exact (Except.ok.inj hback).symm
  refine ⟨hinj, fun hdigest => ?_⟩
  by_cases heq : other = tree
  · exact .inl heq
  · exact .inr ⟨fun hbytes => heq (hinj.mp hbytes), hdigest⟩

/-- Two slots, the later name inserted first. -/
def twoSlots : ContextTree := (empty.insert (slot "b")).insert (slot "a")

theorem tree_codec_twoSlots : fromCanonicalBytes twoSlots.canonicalBytes = .ok twoSlots ∧
    ∀ other, Built other →
      (other.canonicalBytes = twoSlots.canonicalBytes ↔ other = twoSlots) := by
  have hmade : ∀ name ∈ ["a", "b"], new name tombstoneHash .blob 0 = .ok (slot name) := by
    decide +kernel
  obtain ⟨hread, hinj⟩ := tree_codec (.insert (.insert .empty (by decide) (hmade "b" (by simp)))
    (by decide) (hmade "a" (by simp)))
  exact ⟨hread, fun other hother => (hinj other hother).1⟩

/-! ## Writing what was read -/

theorem made_of_parseEntries {records : List TreeEntry} {fuel : Nat} {read : ContextTree}
    (hfits : ∀ record ∈ records, record.Fits) (hfuel : (records.flatMap entryBytes).length ≤ fuel)
    (h : parseEntries fuel (records.flatMap entryBytes) read = .ok tree) :
    ∀ record ∈ records, ∃ entry,
      new record.name record.hash record.kind record.sizeBytes = .ok entry := by
  induction records generalizing fuel read with
  | nil => simp
  | cons record records ih =>
    have hbytes : (entryBytes record).length ≠ 0 := by simp [entryBytes]
    rw [flatMap_cons, length_append] at hfuel
    cases fuel with
    | zero => omega
    | succ fuel =>
      have hnonempty : (entryBytes record ++ records.flatMap entryBytes).isEmpty = false := by
        simp [entryBytes]
      rw [flatMap_cons, parseEntries, hnonempty, if_neg Bool.false_ne_true,
        parseEntry_record (hfits record mem_cons_self), bind_eq_ok] at h
      obtain ⟨⟨entry, rest⟩, hentry, h⟩ := h
      obtain ⟨made, hmade, hpair⟩ := map_eq_ok.mp hentry
      obtain ⟨rfl, rfl⟩ := Prod.mk.inj hpair
      refine forall_mem_cons.mpr ⟨⟨made, hmade⟩, ?_⟩
      exact ih (fun other hother => hfits other (mem_cons_of_mem _ hother)) (by omega) h

def OrderedRecords (bytes : List UInt8) : Prop :=
  ∃ records : List TreeEntry, bytes = magic ++ records.flatMap entryBytes ∧
    (∀ record ∈ records, record.Fits ∧ trim record.name = record.name) ∧
    records.Pairwise (·.name < ·.name)

theorem decoded_bytes_canonical_iff (h : fromCanonicalBytes bytes = .ok tree) :
    tree.canonicalBytes = bytes ↔ OrderedRecords bytes := by
  constructor
  · rintro rfl
    have hvalid := fromCanonicalBytes_wellFormed h
    refine ⟨tree.entries, rfl, fun entry hentry => ⟨(hvalid entry hentry).fits, ?_⟩, tree.sorted⟩
    have hmade := (hvalid entry hentry).made
    simp only [new, bind_eq_ok, pure_eq_ok, refuseIf_eq_ok, exists_const] at hmade
    exact congrArg name hmade.2.2.2
  · rintro ⟨records, rfl, hrecords, hsorted⟩
    have hparse := h
    rw [fromCanonicalBytes, if_pos ( isPrefixOf_iff_prefix.mpr (prefix_append _ _)),
      drop_left] at hparse
    have hmade := made_of_parseEntries (fun record hrecord => (hrecords record hrecord).1)
      (by simp) hparse
    -- a record under a trimmed name is the entry that is made of it
    have hvalid : WellFormed ⟨records, hsorted⟩ := by
      intro record hrecord
      obtain ⟨entry, hentry⟩ := hmade record hrecord
      have hsame := hentry
      simp only [new, bind_eq_ok, pure_eq_ok, refuseIf_eq_ok, exists_const,
        (hrecords record hrecord).2] at hsame
      obtain ⟨-, -, -, rfl⟩ := hsame
      exact ⟨hentry, (hrecords record hrecord).1.size⟩
    have hread := fromCanonicalBytes_canonicalBytes hvalid
    rw [show canonicalBytes ⟨records, hsorted⟩ = magic ++ records.flatMap entryBytes from rfl,
      h] at hread
    rw [Except.ok.inj hread]
    rfl

theorem decoded_bytes_canonical_twoSlots :
    let bytes := magic ++ [slot "a", slot "b"].flatMap entryBytes
    fromCanonicalBytes bytes = .ok twoSlots ∧ twoSlots.canonicalBytes = bytes := by
  have hread : fromCanonicalBytes (magic ++ [slot "a", slot "b"].flatMap entryBytes) =
      .ok twoSlots := by decide +kernel
  have hslots : ∀ record ∈ [slot "a", slot "b"], record.name.utf8ByteSize >>> 32 = 0 ∧
      record.sizeBytes >>> 64 = 0 ∧ trim record.name = record.name := by decide +kernel
  refine ⟨hread, (decoded_bytes_canonical_iff hread).mpr ⟨_, rfl, ?_, by decide +kernel⟩⟩
  exact fun record h => ⟨⟨(hslots record h).1, (hslots record h).2.1⟩, (hslots record h).2.2⟩

/-- A record under a name with a blank in front of it, and the same record twice, are read as the
tree of the record alone. -/
theorem read_back_differently : let record : TreeEntry := ⟨"a", tombstoneHash, .blob, 0⟩
    let tree := empty.insert record
    let padded := magic ++ entryBytes { record with name := " a" }
    let twice := magic ++ (entryBytes record ++ entryBytes record)
    fromCanonicalBytes padded = .ok tree ∧ fromCanonicalBytes twice = .ok tree ∧
      tree.canonicalBytes ≠ padded ∧ tree.canonicalBytes ≠ twice ∧ padded ≠ twice := by
  decide +kernel

end ContextTree

end BittyAi.Slice
