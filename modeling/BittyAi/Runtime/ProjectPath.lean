/-
BittyAi.Runtime.ProjectPath — the path gate of `bitty-ai-runtime/src/prompt.rs`: which
project files the roots admit.

A path is a text here and is never looked up. The gate compares texts; that this is the same
as containment by segments is proved below.
-/
import BittyAi.Lib.Utf8

namespace BittyAi.Runtime

open Lib List

/-! ## The gate -/

def maxProjectPathLen : Nat := 256

/-- Rust `PromptError::InvalidProjectPath`, the one error of the gate. -/
structure InvalidProjectPath where
  path : String

def isUnsafePathSegment (segment : List Char) : Bool :=
  segment.isEmpty || segment == ['.'] || segment == ['.', '.']

def splitRootedPath (path : String) : Option (Bool × List Char) :=
  if path.isEmpty ∨ maxProjectPathLen < path.utf8ByteSize then none
  else if path.toList.any (· ∈ ['\x00', '\r', '\n', '\\']) then none
  else
    let (absolute, rest) := match path.toList with
      | '/' :: rest => (true, rest)
      | rest => (false, rest)
    if rest.isEmpty then none
    else if (rest.splitOn '/').any isUnsafePathSegment then none
    else some (absolute, rest)

/-- The body of the loop over the roots: whether this root admits the candidate. -/
def rootAdmits (candidateAbs : Bool) (candidateRest : List Char) (root : String) : Bool :=
  match splitRootedPath root with
  | none => false
  | some (rootAbs, rootRest) =>
    if rootAbs ≠ candidateAbs ∨ maxProjectPathLen < (encode rootRest).length then false
    else candidateRest == rootRest ||
      ((encode rootRest).length < (encode candidateRest).length &&
        (rootRest.isPrefixOf candidateRest &&
          (encode candidateRest)[(encode rootRest).length]? == some 0x2F))

def admitProjectPath (roots : List String) (candidate : String) : Except InvalidProjectPath Unit :=
  match splitRootedPath candidate with
  | none => .error ⟨candidate⟩
  | some (candidateAbs, candidateRest) =>
    if maxProjectPathLen < (encode candidateRest).length then .error ⟨candidate⟩
    else if roots.any (rootAdmits candidateAbs candidateRest) then .ok ()
    else .error ⟨candidate⟩

/-! ## Paths as segments -/

def isAbsolute (path : String) : Bool := path.toList.head? == some '/'

/-- The text behind the leading slash, if there is one. -/
def unrooted (path : String) : List Char :=
  if isAbsolute path then path.toList.tail else path.toList

def segments (path : String) : List (List Char) := (unrooted path).splitOn '/'

def WellFormedPath (path : String) : Prop :=
  path.utf8ByteSize ≤ maxProjectPathLen ∧
    (∀ c ∈ path.toList, c ∉ ['\x00', '\r', '\n', '\\']) ∧
    ∀ segment ∈ segments path, segment ∉ [[], ['.'], ['.', '.']]

/-- Where a path leads from a directory: a dot stays, two dots go up. -/
def descend (directory : List (List Char)) (path : List (List Char)) : List (List Char) :=
  path.foldl (fun here segment =>
    if segment = [] ∨ segment = ['.'] then here
    else if segment = ['.', '.'] then here.dropLast else here ++ [segment]) directory

variable {path root candidate : String} {rest more : List Char}

theorem splitRootedPath_eq_some {absolute : Bool} :
    splitRootedPath path = some (absolute, rest) ↔
      WellFormedPath path ∧ absolute = isAbsolute path ∧
        rest = unrooted path := by
  have hrest : (match path.toList with
      | '/' :: rest => (true, rest)
      | rest => (false, rest)) =
        (isAbsolute path, unrooted path) := by
    unfold unrooted isAbsolute
    split
    next h => simp [h]
    next h =>
      have : path.toList.head? ≠ some '/' := fun hhead => by
        obtain ⟨rest, hcons⟩ := head?_eq_some_iff.mp hhead
        exact h _ hcons
      simp [this]
  have hsafe : (∀ segment ∈ segments path, segment ∉ [[], ['.'], ['.', '.']]) ↔
      ¬(segments path).any isUnsafePathSegment = true := by
    simp [isUnsafePathSegment, and_assoc]
  -- an empty path, or one slash, has one segment, which is empty
  have hempty : ¬(segments path).any isUnsafePathSegment = true → ¬path.isEmpty = true ∧
      ¬(unrooted path).isEmpty = true := by
    intro hsafe
    refine ⟨fun h => hsafe ?_, fun h => hsafe ?_⟩
    · rw [String.isEmpty_iff.mp h]
      rfl
    · rw [segments, isEmpty_iff.mp h]
      rfl
  unfold splitRootedPath
  rw [hrest]
  simp only [Option.ite_none_left_eq_some, Option.some.injEq, Prod.mk.injEq, not_or, Nat.not_lt]
  rw [WellFormedPath, hsafe, @eq_comm _ absolute, @eq_comm _ rest]
  have hbad : (∀ c ∈ path.toList, c ∉ ['\x00', '\r', '\n', '\\']) ↔
      ¬path.toList.any (· ∈ ['\x00', '\r', '\n', '\\']) = true := by
    simp
  rw [hbad]
  exact ⟨fun ⟨⟨_, hlen⟩, hchars, _, hsegs, heq⟩ => ⟨⟨hlen, hchars, hsegs⟩, heq⟩,
    fun ⟨⟨hlen, hchars, hsegs⟩, heq⟩ =>
      ⟨⟨(hempty hsegs).1, hlen⟩, hchars, (hempty hsegs).2, hsegs, heq⟩⟩

theorem intercalate_append_cons {α : Type} (x : α) {front : List (List α)} (hfront : front ≠ [])
    {back : List (List α)} (hback : back ≠ []) :
    [x].intercalate (front ++ back) = [x].intercalate front ++ x :: [x].intercalate back := by
  induction front with
  | nil => exact absurd rfl hfront
  | cons first front ih =>
    cases front with
    | nil => simp [intercalate_cons_of_ne_nil hback]
    | cons second front => simpa [intercalate_cons_cons] using ih (by simp)

/-- A list of segments goes on as the text does behind a separator. -/
theorem splitOn_prefix_iff : rest.splitOn '/' <+: more.splitOn '/' ↔
    more = rest ∨ ∃ behind, more = rest ++ '/' :: behind := by
  constructor
  · rintro ⟨others, hothers⟩
    have hmore := congrArg ['/'].intercalate hothers
    rw [intercalate_splitOn] at hmore
    by_cases hnil : others = []
    · rw [hnil, append_nil, intercalate_splitOn] at hmore
      exact .inl hmore.symm
    · rw [intercalate_append_cons _ (splitOn_ne_nil _ _) hnil, intercalate_splitOn] at hmore
      exact .inr ⟨_, hmore.symm⟩
  · rintro (rfl | ⟨behind, rfl⟩)
    · exact prefix_rfl
    · rw [splitOn_append_cons_self]
      exact prefix_append _ _

theorem length_unrooted_le (h : WellFormedPath path) :
    (encode (unrooted path)).length ≤ maxProjectPathLen := by
  have hlength := h.1
  rw [← length_utf8Bytes, utf8Bytes_eq_encode] at hlength
  refine Nat.le_trans ?_ hlength
  unfold unrooted
  split
  · cases path.toList <;> simp
  · exact Nat.le_refl _

/-- The byte behind a textual prefix is the slash exactly if the next character is. -/
theorem goes_on_iff : (rest.isPrefixOf more &&
    (encode more)[(encode rest).length]? == some 0x2F) = true ↔
      ∃ behind, more = rest ++ '/' :: behind := by
  simp only [Bool.and_eq_true, isPrefixOf_iff_prefix, beq_iff_eq]
  constructor
  · rintro ⟨⟨others, rfl⟩, hslash⟩
    rw [encode_append, getElem?_append_right (Nat.le_refl _), Nat.sub_self] at hslash
    cases hothers : encode others with
    | nil => simp [hothers] at hslash
    | cons b back =>
      obtain rfl : b = 0x2F := by simpa [hothers] using hslash
      obtain ⟨behind, rfl, -⟩ := @encode_cancel ['/'] others back hothers.symm
      exact ⟨behind, rfl⟩
  · rintro ⟨behind, rfl⟩
    refine ⟨prefix_append _ _, ?_⟩
    rw [encode_append, getElem?_append_right (Nat.le_refl _), Nat.sub_self]
    rfl

theorem rootAdmits_iff : rootAdmits (isAbsolute candidate) (unrooted candidate) root = true ↔
    WellFormedPath root ∧ isAbsolute root = isAbsolute candidate ∧
      segments root <+: segments candidate := by
  rw [segments, segments, splitOn_prefix_iff]
  unfold rootAdmits
  cases hsplit : splitRootedPath root with
  | none =>
    refine iff_of_false Bool.false_ne_true fun h => ?_
    cases hsplit.symm.trans (splitRootedPath_eq_some.mpr ⟨h.1, rfl, rfl⟩)
  | some pair =>
    obtain ⟨absolute, rest⟩ := pair
    obtain ⟨hwf, rfl, rfl⟩ := splitRootedPath_eq_some.mp hsplit
    have hlength : ¬maxProjectPathLen < (encode (unrooted root)).length :=
      Nat.not_lt.mpr (length_unrooted_le hwf)
    by_cases habs : isAbsolute root = isAbsolute candidate
    · simp only [habs, ne_eq, not_true_eq_false, hlength, or_self, if_false, Bool.or_eq_true,
        beq_iff_eq, hwf, true_and]
      refine or_congr_right ?_
      rw [Bool.and_eq_true, goes_on_iff]
      refine ⟨And.right, fun h => ⟨decide_eq_true ?_, h⟩⟩
      obtain ⟨behind, hbehind⟩ := h
      rw [hbehind, encode_append, length_append, encode_cons, length_append]
      have hslash : 0 < (String.utf8EncodeChar '/').length := by decide
      omega
    · simp [habs]

theorem descend_wellFormed (h : WellFormedPath path) (directory : List (List Char)) :
    descend directory (segments path) = directory ++ segments path := by
  have hsafe := h.2.2
  generalize segments path = parts at hsafe
  induction parts generalizing directory with
  | nil => simp [descend]
  | cons part parts ih =>
    obtain ⟨hpart, hparts⟩ := forall_mem_cons.mp hsafe
    simp only [mem_cons, not_mem_nil, or_false, not_or] at hpart
    have hstep : descend directory (part :: parts) = descend (directory ++ [part]) parts := by
      simp [descend, hpart]
    rw [hstep, ih _ hparts]
    simp

theorem admitProjectPath_iff (roots : List String) (candidate : String) :
    admitProjectPath roots candidate = .ok () ↔ WellFormedPath candidate ∧ ∃ root ∈ roots,
      WellFormedPath root ∧ isAbsolute root = isAbsolute candidate ∧
        segments root <+: segments candidate := by
  unfold admitProjectPath
  cases hsplit : splitRootedPath candidate with
  | none =>
    refine iff_of_false (by simp) fun h => ?_
    cases hsplit.symm.trans (splitRootedPath_eq_some.mpr ⟨h.1, rfl, rfl⟩)
  | some pair =>
    obtain ⟨absolute, rest⟩ := pair
    obtain ⟨hwf, rfl, rfl⟩ := splitRootedPath_eq_some.mp hsplit
    simp only [Nat.not_lt.mpr (length_unrooted_le hwf), if_false, hwf, true_and, ← rootAdmits_iff,
      ← any_eq_true]
    split <;> simp_all

/-- Admission is containment by segments. So more roots admit more, and an admitted path leads,
from any directory, below where one of the roots leads. -/
theorem path_admission_is_containment (roots : List String) (candidate : String) :
    (admitProjectPath roots candidate = .ok () ↔ WellFormedPath candidate ∧ ∃ root ∈ roots,
      WellFormedPath root ∧ isAbsolute root = isAbsolute candidate ∧
        segments root <+: segments candidate) ∧
    (∀ more, roots ⊆ more → admitProjectPath roots candidate = .ok () →
      admitProjectPath more candidate = .ok ()) ∧
    (admitProjectPath roots candidate = .ok () → ∃ root ∈ roots,
      isAbsolute root = isAbsolute candidate ∧ ∀ directory,
        descend directory (segments root) <+: descend directory (segments candidate)) := by
  refine ⟨admitProjectPath_iff roots candidate, fun more hmore h => ?_, fun h => ?_⟩
  · obtain ⟨hwf, root, hroot, hadmits⟩ := (admitProjectPath_iff _ _).mp h
    exact (admitProjectPath_iff _ _).mpr ⟨hwf, root, hmore hroot, hadmits⟩
  · obtain ⟨hwf, root, hroot, hrootWf, habs, hcontained⟩ := (admitProjectPath_iff _ _).mp h
    refine ⟨root, hroot, habs, fun directory => ?_⟩
    rw [descend_wellFormed hwf, descend_wellFormed hrootWf]
    exact (prefix_append_right_inj directory).mpr hcontained

end BittyAi.Runtime
