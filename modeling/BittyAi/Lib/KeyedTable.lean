/-
BittyAi.Lib.KeyedTable — a table of rows with a primary key.
-/
import Mathlib.Data.List.Nodup

namespace BittyAi.Lib

open List

variable {κ ρ : Type} {key : ρ → κ}

structure KeyedTable (key : ρ → κ) where
  rows : List ρ
  nodup : (rows.map key).Nodup

variable [DecidableEq κ] {k : κ} {row : ρ} {rows : List ρ}

theorem find?_key_eq_some (hnodup : (rows.map key).Nodup) :
    (rows.find? fun row => key row = k) = some row ↔ row ∈ rows ∧ key row = k := by
  constructor
  · intro h
    exact ⟨mem_of_find?_eq_some h, by simpa using find?_some h⟩
  · rintro ⟨hrow, rfl⟩
    cases h : rows.find? fun other => key other = key row with
    | none => simpa using find?_eq_none.mp h row hrow
    | some other =>
      have hkey : key other = key row := by simpa using find?_some h
      rw [inj_on_of_nodup_map hnodup (mem_of_find?_eq_some h) hrow hkey]

theorem find?_key_map {change : ρ → ρ} (hkey : ∀ row, key (change row) = key row) :
    ((rows.map change).find? fun row => key row = k) =
      (rows.find? fun row => key row = k).map change := by
  simp only [find?_map, Function.comp_def, hkey]

namespace KeyedTable

variable {t : KeyedTable key}

def find? (t : KeyedTable key) (k : κ) : Option ρ := t.rows.find? fun row => key row = k

def contains (t : KeyedTable key) (k : κ) : Bool := (t.find? k).isSome

@[simp] theorem find?_eq_some : t.find? k = some row ↔ row ∈ t.rows ∧ key row = k :=
  find?_key_eq_some t.nodup

theorem find?_eq_none : t.find? k = none ↔ ∀ row ∈ t.rows, key row ≠ k := by simp [find?]

@[simp] theorem contains_eq_true : t.contains k = true ↔ ∃ row ∈ t.rows, key row = k := by
  simp [contains, Option.isSome_iff_exists]

theorem countP_eq_one (h : t.find? k = some row) : (t.rows.countP fun row => key row = k) = 1 := by
  obtain ⟨hrow, rfl⟩ := find?_eq_some.mp h
  have hcount : (t.rows.countP fun other => key other = key row) =
      (t.rows.map key).count (key row) := by
    rw [count, countP_map]
    rfl
  rw [hcount]
  exact count_eq_one_of_mem t.nodup (mem_map_of_mem hrow)

/-! ## Writing -/

def erase (t : KeyedTable key) (k : κ) : KeyedTable key where
  rows := t.rows.filter fun row => key row ≠ k
  nodup := t.nodup.sublist (filter_sublist.map key)

@[simp] theorem mem_erase : row ∈ (t.erase k).rows ↔ row ∈ t.rows ∧ key row ≠ k := by simp [erase]

theorem mem_foldl_erase {ks : List κ} :
    row ∈ (ks.foldl erase t).rows ↔ row ∈ t.rows ∧ key row ∉ ks := by
  induction ks generalizing t with
  | nil => simp
  | cons k ks ih => simp [ih, and_assoc]

def modify (t : KeyedTable key) (k : κ) (change : ρ → ρ)
    (hkey : ∀ row, key (change row) = key row) : KeyedTable key where
  rows := t.rows.map fun row => if key row = k then change row else row
  nodup := by
    have hkeys : (t.rows.map fun row => if key row = k then change row else row).map key =
        t.rows.map key := by
      rw [map_map]
      refine map_congr_left fun row _ => ?_
      by_cases h : key row = k <;> simp [h, hkey]
    rw [hkeys]
    exact t.nodup

def insert? (t : KeyedTable key) (row : ρ) : Option (KeyedTable key) :=
  if h : key row ∈ t.rows.map key then none
  else some ⟨t.rows ++ [row], by simpa [nodup_append] using ⟨t.nodup, by simpa using h⟩⟩

def insertOrIgnore (t : KeyedTable key) (row : ρ) : KeyedTable key := (t.insert? row).getD t

def filter (t : KeyedTable key) (keep : ρ → Bool) : KeyedTable key where
  rows := t.rows.filter keep
  nodup := t.nodup.sublist (filter_sublist.map key)

theorem contains_eq_false : t.contains k = false ↔ k ∉ t.rows.map key := by
  rw [← Bool.not_eq_true, contains_eq_true, mem_map]

theorem insert?_of_contains (h : t.contains (key row) = true) : t.insert? row = none := by
  rw [insert?, dif_pos]
  simpa using h

theorem insert?_of_not_contains (h : t.contains (key row) = false) :
    ∃ t', t.insert? row = some t' ∧ t'.rows = t.rows ++ [row] := by
  rw [insert?, dif_neg (contains_eq_false.mp h)]
  exact ⟨_, rfl, rfl⟩

theorem insert?_eq_some {t' : KeyedTable key} (h : t.insert? row = some t') :
    t.contains (key row) = false ∧ t'.rows = t.rows ++ [row] := by
  cases hkey : t.contains (key row) with
  | true => simp [insert?_of_contains hkey] at h
  | false =>
    obtain ⟨t'', hinsert, hrows⟩ := insert?_of_not_contains hkey
    rw [hinsert, Option.some.injEq] at h
    exact ⟨rfl, h ▸ hrows⟩

def upsert (t : KeyedTable key) (row : ρ) : KeyedTable key :=
  match t.insert? row with
  | some t' => t'
  | none =>
    { rows := t.rows.map fun other => if key other = key row then row else other
      nodup := by
        have hkeys : (t.rows.map fun other => if key other = key row then row else other).map key =
            t.rows.map key := by
          rw [map_map]
          refine map_congr_left fun other _ => ?_
          by_cases h : key other = key row <;> simp [h]
        rw [hkeys]
        exact t.nodup }

omit [DecidableEq κ] in
@[simp] theorem filter_rows {keep : ρ → Bool} :
    (t.filter keep).rows = t.rows.filter keep := rfl

/-! ## Lookups after a write -/

theorem find?_congr {t' : KeyedTable key}
    (h : ∀ row, key row = k → (row ∈ t'.rows ↔ row ∈ t.rows)) : t'.find? k = t.find? k := by
  refine Option.ext fun row => ?_
  rw [find?_eq_some, find?_eq_some]
  constructor
  · rintro ⟨hrow, hkey⟩
    exact ⟨(h row hkey).mp hrow, hkey⟩
  · rintro ⟨hrow, hkey⟩
    exact ⟨(h row hkey).mpr hrow, hkey⟩

theorem mem_insertOrIgnore {other : ρ} : other ∈ (t.insertOrIgnore row).rows ↔
      other ∈ t.rows ∨ other = row ∧ t.contains (key row) = false := by
  unfold insertOrIgnore
  cases hkey : t.contains (key row) with
  | true => simp [insert?_of_contains hkey]
  | false =>
    obtain ⟨t', hinsert, hrows⟩ := insert?_of_not_contains hkey
    simp [hinsert, hrows]

theorem insertOrIgnore_of_contains
    (h : t.contains (key row) = true) : t.insertOrIgnore row = t := by
  rw [insertOrIgnore, insert?_of_contains h]
  rfl

theorem find?_insertOrIgnore_self (t : KeyedTable key) (row : ρ) :
    (t.insertOrIgnore row).find? (key row) = some ((t.find? (key row)).getD row) := by
  cases hfind : t.find? (key row) with
  | none =>
    have hfree : t.contains (key row) = false := by rw [contains, hfind]; rfl
    rw [find?_eq_some, mem_insertOrIgnore]
    exact ⟨.inr ⟨rfl, hfree⟩, rfl⟩
  | some other =>
    obtain ⟨hmem, hkey⟩ := find?_eq_some.mp hfind
    rw [find?_eq_some, mem_insertOrIgnore]
    exact ⟨.inl hmem, hkey⟩

theorem mem_upsert {other : ρ} :
    other ∈ (t.upsert row).rows ↔ other = row ∨ other ∈ t.rows ∧ key other ≠ key row := by
  unfold upsert
  cases hkey : t.contains (key row) with
  | true =>
    rw [insert?_of_contains hkey]
    simp only [mem_map]
    constructor
    · rintro ⟨old, hold, rfl⟩
      by_cases h : key old = key row <;> simp [h, hold]
    · rintro (rfl | ⟨hmem, hne⟩)
      · obtain ⟨old, hold, hsame⟩ := contains_eq_true.mp hkey
        exact ⟨old, hold, if_pos hsame⟩
      · exact ⟨other, hmem, if_neg hne⟩
  | false =>
    obtain ⟨t', hinsert, hrows⟩ := insert?_of_not_contains hkey
    have hfree : ∀ old ∈ t.rows, key old ≠ key row := fun old hold hsame => by
      rw [contains_eq_true.mpr ⟨old, hold, hsame⟩] at hkey
      cases hkey
    rw [hinsert]
    simp only [hrows, mem_append, mem_singleton]
    constructor
    · rintro (hmem | rfl)
      · exact .inr ⟨hmem, hfree other hmem⟩
      · exact .inl rfl
    · rintro (rfl | ⟨hmem, -⟩)
      · exact .inr rfl
      · exact .inl hmem

theorem rows_foldl_upsert {rows : List ρ}
    (h : ((t.rows ++ rows).map key).Nodup) : (rows.foldl upsert t).rows = t.rows ++ rows := by
  induction rows generalizing t with
  | nil => simp
  | cons row rest ih =>
    have hfree : t.contains (key row) = false := by
      rw [contains_eq_false]
      rw [map_append, map_cons] at h
      exact fun hmem => disjoint_of_nodup_append h hmem mem_cons_self
    obtain ⟨t', hinsert, hrows⟩ := insert?_of_not_contains hfree
    have hupsert : t.upsert row = t' := by rw [upsert, hinsert]
    have happend : t'.rows ++ rest = t.rows ++ row :: rest := by
      rw [hrows, append_assoc, singleton_append]
    rw [foldl_cons, hupsert, ih (happend ▸ h), happend]

theorem mem_foldl_insertOrIgnore_id {keys : List κ} {t : KeyedTable fun k : κ => k} :
    k ∈ (keys.foldl insertOrIgnore t).rows ↔ k ∈ t.rows ∨ k ∈ keys := by
  induction keys generalizing t with
  | nil => simp
  | cons first rest ih =>
    rw [foldl_cons, ih, mem_insertOrIgnore, mem_cons, contains_eq_false, map_id']
    constructor
    · rintro ((hmem | ⟨rfl, -⟩) | hmem)
      · exact .inl hmem
      · exact .inr (.inl rfl)
      · exact .inr (.inr hmem)
    · rintro (hmem | rfl | hmem)
      · exact .inl (.inl hmem)
      · by_cases hold : k ∈ t.rows
        · exact .inl (.inl hold)
        · exact .inl (.inr ⟨rfl, hold⟩)
      · exact .inr hmem

@[simp] theorem find?_upsert_self (t : KeyedTable key) (row : ρ) :
    (t.upsert row).find? (key row) = some row := by
  rw [find?_eq_some, mem_upsert]
  exact ⟨.inl rfl, rfl⟩

theorem find?_upsert_of_ne (h : key row ≠ k) : (t.upsert row).find? k = t.find? k := by
  refine find?_congr fun other hother => ?_
  rw [mem_upsert, hother]
  constructor
  · rintro (rfl | ⟨hmem, -⟩)
    · exact absurd hother h
    · exact hmem
  · exact fun hmem => .inr ⟨hmem, Ne.symm h⟩

theorem find?_foldl_upsert {rows : List ρ} :
    (rows.foldl upsert t).find? k = (rows.reverse.find? fun row => key row = k).or (t.find? k) := by
  induction rows generalizing t with
  | nil => simp
  | cons row rest ih =>
    rw [foldl_cons, ih, reverse_cons, find?_append, Option.or_assoc]
    congr 1
    by_cases hkey : key row = k
    · subst hkey
      simp
    · simp [find?_upsert_of_ne hkey, hkey]

@[simp] theorem find?_erase_self (t : KeyedTable key) (k : κ) : (t.erase k).find? k = none := by
  simp [find?_eq_none]

theorem find?_erase_of_ne {other : κ} (h : other ≠ k) :
    (t.erase k).find? other = t.find? other := by
  refine find?_congr fun row hrow => ?_
  rw [mem_erase, hrow]
  exact and_iff_left h

theorem find?_modify {other : κ} {change : ρ → ρ} (hkey : ∀ row, key (change row) = key row) :
    (t.modify k change hkey).find? other =
      (t.find? other).map fun row => if key row = k then change row else row :=
  find?_key_map fun row => by split <;> simp [hkey]

theorem find?_modify_of_ne {other : κ} {change : ρ → ρ} (hkey : ∀ row, key (change row) = key row)
    (h : other ≠ k) : (t.modify k change hkey).find? other = t.find? other := by
  rw [find?_modify]
  cases hfind : t.find? other with
  | none => rfl
  | some row => rw [Option.map_some, if_neg ((find?_eq_some.mp hfind).2 ▸ h)]

end KeyedTable

end BittyAi.Lib
