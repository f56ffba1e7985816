/-
BittyAi.Runtime.BreakpointTheorems — which ranges of `select_breakpoints` keep its cap.
-/
import BittyAi.Runtime.Compression
import BittyAi.Runtime.ContextAssemblyTheorems

namespace BittyAi.Runtime

open Lib List

/-! ## The ranges are those of a packing -/

/-- The ranges of consecutive groups of records. -/
def rangesOf (start : Nat) : List (List ContextRecord) → List SpanRange
  | [] => []
  | group :: groups => ⟨start, start + group.length⟩ :: rangesOf (start + group.length) groups

variable {records : List ContextRecord}

theorem packFrom_eq {cap start : Nat} {ranges out : List SpanRange}
    {group rest : List ContextRecord}
    (h : packFrom cap ranges start (weight (·.footprintBytes) group) (start + group.length) rest =
      .ok out) :
    out = ranges ++ rangesOf start (pack (·.footprintBytes) cap group rest) := by
  induction rest generalizing ranges start group with
  | nil =>
    cases group with
    | nil =>
      simp only [packFrom, length_nil, Nat.add_zero, lt_irrefl, if_false] at h
      split at h <;> cases h
      simp [pack, rangesOf]
    | cons first group =>
      simp only [packFrom, length_cons, Nat.lt_add_right_iff_pos, Nat.succ_pos, if_true] at h
      split at h <;> cases h
      simp [pack, rangesOf]
  | cons record rest ih =>
    rw [packFrom] at h
    rw [pack]
    split at h
    next hsplit =>
      dsimp only at h
      split at h
      · cases h
      · rw [if_pos hsplit, rangesOf, @ih _ _ [record] h]
        simp
    next hsplit =>
      rw [if_neg hsplit]
      exact ih (by simpa [Nat.add_assoc] using h)

theorem rangesOf_tiles (start : Nat) (groups : List (List ContextRecord)) :
    (rangesOf start groups).flatMap (fun range => range' range.start (range.stop - range.start)) =
      range' start groups.flatten.length := by
  induction groups generalizing start with
  | nil => rfl
  | cons group groups ih => simp [rangesOf, ih, range'_append_1]

theorem forall_rangesOf {P : SpanRange → Prop} {Q : List ContextRecord → Prop}
    (hiff : ∀ range : SpanRange, range.start ≤ range.stop →
      (range.covered records).length = range.stop - range.start →
      (P range ↔ Q (range.covered records)))
    {start : Nat} {groups : List (List ContextRecord)}
    (h : records.drop start = groups.flatten) :
    (∀ range ∈ rangesOf start groups, P range) ↔ ∀ group ∈ groups, Q group := by
  induction groups generalizing start with
  | nil => simp [rangesOf]
  | cons group groups ih =>
    have hcovered : (SpanRange.mk start (start + group.length)).covered records = group := by
      simp [SpanRange.covered, h]
    have hP := hiff ⟨start, start + group.length⟩ (by simp) (by simp [hcovered])
    rw [hcovered] at hP
    have hrest : records.drop (start + group.length) = groups.flatten := by
      rw [← drop_drop, h]
      simp
    simp only [rangesOf, forall_mem_cons, hP, ih hrest]

/-! ## The cap -/

/-- The ranges are not empty, are in order and partition the records, and those of two or more
records keep the cap. -/
structure Packed (records : List ContextRecord) (cap : Nat) (ranges : List SpanRange) : Prop where
  nonempty : ∀ range ∈ ranges, range.start < range.stop
  tiles : ranges.flatMap (fun range => range' range.start (range.stop - range.start)) =
    range records.length
  capped : ∀ range ∈ ranges, 2 ≤ range.stop - range.start →
    weight (·.footprintBytes) (range.covered records) ≤ cap

/-- A range of two or more records is over the cap exactly if it ends in a record over the cap
behind records without any footprint, at the start or behind another record over the cap. -/
theorem breakpoints_capped_iff (records : List ContextRecord) (config : CompressionConfig)
    {ranges : List SpanRange} (h : selectBreakpoints records config = .ok ranges) :
    Packed records config.effectiveSpanBytes ranges ↔
      ∀ before record after, records = before ++ record :: after →
        ¬Buries (·.footprintBytes) config.effectiveSpanBytes before record := by
  have hpacked : packFrom config.effectiveSpanBytes [] 0 0 0 records = .ok ranges := by
    unfold selectBreakpoints at h
    cases hvalid : config.validate with
    | error error => simp [hvalid, bind, Except.bind] at h
    | ok => simpa [hvalid, bind, Except.bind] using h
  obtain rfl := @packFrom_eq _ 0 [] _ [] _ hpacked
  have hflat : records.drop 0 =
      (pack (·.footprintBytes) config.effectiveSpanBytes [] records).flatten := by
    simp [flatten_pack]
  have hcap := @pack_capped_iff _ (·.footprintBytes) config.effectiveSpanBytes _ _ records
    opened_nil
  simp only [length_nil, weight_nil, nil_append, Nat.zero_le, implies_true, true_and] at hcap
  rw [← hcap, ← forall_rangesOf ?_ hflat, nil_append]
  · refine ⟨Packed.capped, fun hcapped => ⟨?_, ?_, hcapped⟩⟩
    · rw [@forall_rangesOf records _ (· ≠ []) ?_ _ _ hflat]
      · exact fun group => ne_nil_of_mem_pack
      · intro range hle hlength
        rw [← length_pos_iff, hlength]
        omega
    · rw [rangesOf_tiles, ← hflat, range_eq_range']
      rfl
  · intro range _ hlength
    rw [hlength]

/-- A record without footprint and a record over the cap share the range of both. -/
theorem blank_range_over_cap : ∃ config ranges,
    selectBreakpoints [plainRecord "a" .normal "", plainRecord "b" .normal "wide"] config =
      .ok ranges ∧
      ¬Packed [plainRecord "a" .normal "", plainRecord "b" .normal "wide"]
        config.effectiveSpanBytes ranges := by
  refine ⟨⟨3, none⟩, [⟨0, 2⟩], by decide, fun h => ?_⟩
  exact absurd (h.capped ⟨0, 2⟩ (by simp) (by decide)) (by decide)

def packedRecords : List ContextRecord :=
  [plainRecord "a" .normal "12", plainRecord "b" .normal "3", plainRecord "c" .normal "4",
    plainRecord "d" .normal "56", plainRecord "e" .normal "wide"]

/-- Two ranges of two records fill the cap, and a record over it has a range of its own. -/
theorem breakpoints_capped_pairs :
    selectBreakpoints packedRecords ⟨3, none⟩ = .ok [⟨0, 2⟩, ⟨2, 4⟩, ⟨4, 5⟩] ∧
      Packed packedRecords 3 [⟨0, 2⟩, ⟨2, 4⟩, ⟨4, 5⟩] := by
  refine ⟨by decide, (breakpoints_capped_iff _ ⟨3, none⟩ (by decide)).mpr ?_⟩
  have hpositive : ∀ record ∈ packedRecords, record.footprintBytes ≠ 0 := by decide
  rintro before record after heq ⟨-, ⟨blank, hblank, hzero⟩, -⟩
  exact hpositive blank (heq ▸ mem_append_left _ (mem_of_getLast? hblank)) hzero

end BittyAi.Runtime
