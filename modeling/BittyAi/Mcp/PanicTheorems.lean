/-
BittyAi.Mcp.PanicTheorems — which lines of a server can panic the client.

The helpers cut a line at indices next to an ASCII byte, which stand between two characters
(`encode_ascii`), with two exceptions: the four bytes behind `\u` in `find_string_field`,
and the first byte `collect_text_parts` skips of a value that is no string. `LineSafe` says
which lines reach neither of them in the middle of a character.
-/
import BittyAi.Mcp.FieldTheorems
import BittyAi.Mcp.Frame

namespace BittyAi.Mcp

open Lib

variable {line : Text}

/-! ## The condition -/

/-- The answer that `line` carries, if it is an error: its `error` object. -/
abbrev ErrorOf (line error : Text) : Prop := ObjectField "error".toList line error

/-- The `result` object of an answer that is no error. -/
def ResultOf (line result : Text) : Prop :=
  (∀ error, ¬ErrorOf line error) ∧ ObjectField "result".toList line result

def EntrySafe (object : Text) : Prop :=
  ¬CutField "name".toList object ∧
    ∀ name, StringField "name".toList object name → name ≠ [] →
      ¬CutField "description".toList object

/-- The objects of a page: of the array `tools`, or none if there is no such member. -/
def PageObjects (result : Text) (objects : List Text) : Prop :=
  (∀ raw, ¬RawField "tools".toList result raw) ∧ objects = [] ∨
    ∃ array, RawField "tools".toList result array ∧ (trimStart array).head? = some '[' ∧
      Objects array objects

def PartsSafe (result : Text) : Prop :=
  ∀ array, RawField "content".toList result array → ¬PartsPanic array 0

structure LineSafe (line : Text) : Prop where
  method : ¬CutField "method".toList line
  message : ∀ error, ErrorOf line error → ¬CutField "message".toList error
  version : ∀ result, ResultOf line result → ¬CutField "protocolVersion".toList result
  page : ∀ result objects, ResultOf line result → PageObjects result objects →
    (∀ object ∈ objects, EntrySafe object) ∧ ¬CutField "nextCursor".toList result
  parts : ∀ result, ResultOf line result → PartsSafe result

def Returns {α : Type} (x : Panicking α) : Prop := ∃ a, x = .ok a

structure AllReturn (line : Text) : Prop where
  request : ∀ cwd, Returns (handleServerRequest line cwd)
  handshake : Returns (parseInitializeResult line)
  page : Returns (parseToolsPage line)
  call : ∀ tool, Returns (parseCallResult line tool)
  tools : Returns (isToolsListChangedNotification line)
  resources : Returns (isResourcesListChangedNotification line)
  prompts : Returns (isPromptsListChangedNotification line)

/-! ## Returning -/

section Returning

variable {α β : Type} {x : Panicking α}

theorem returns_iff : Returns x ↔ ¬∃ panic, x = .error panic := by cases x <;> simp [Returns]

@[simp] theorem returns_ok (a : α) : Returns (.ok a : Panicking α) := ⟨a, rfl⟩

theorem returns_bind {f : α → Panicking β} :
    Returns (x >>= f) ↔ Returns x ∧ ∀ a, x = .ok a → Returns (f a) := by
  cases x with
  | error | ok => simp [Returns, bind, Except.bind]

theorem returns_map {f : α → β} : Returns (x >>= fun a => pure (f a)) ↔ Returns x := by
  simp [returns_bind, pure, Except.pure]

end Returning

theorem returns_findStringField {key : Text} :
    Returns (findStringField line key) ↔ ¬CutField key line := by
  rw [returns_iff, findStringField_panics_iff]

theorem returns_handleServerRequest (cwd : Text) :
    Returns (handleServerRequest line cwd) ↔ ¬CutField "method".toList line := by
  rw [handleServerRequest, returns_bind, returns_findStringField]
  refine and_iff_left fun method _ => ?_
  cases method <;> exact returns_ok _

theorem returns_isNotification (method : Text) (h : ¬CutField "method".toList line) :
    Returns (isNotification method line) := by
  rw [isNotification]
  split
  · exact returns_ok _
  · exact returns_map.mpr (returns_findStringField.mpr h)

theorem forall_answer {α : Type} {onError onResult : Text → Panicking α} {neither : α} :
    Returns (match findObjectField line "error".toList with
      | some error => onError error
      | none =>
        match findObjectField line "result".toList with
        | none => .ok neither
        | some result => onResult result) ↔
      (∀ error, ErrorOf line error → Returns (onError error)) ∧
        ∀ result, ResultOf line result → Returns (onResult result) := by
  simp only [ErrorOf, ResultOf, ← findObjectField_eq_some_iff]
  cases findObjectField line "error".toList with
  | some error => simp
  | none => cases findObjectField line "result".toList <;> simp

theorem returns_parseInitializeResult : Returns (parseInitializeResult line) ↔
      (∀ error, ErrorOf line error → ¬CutField "message".toList error) ∧
        ∀ result, ResultOf line result → ¬CutField "protocolVersion".toList result := by
  refine forall_answer.trans ?_
  simp only [returns_map, initializeError, returns_findStringField]

theorem returns_toolEntry (object : Text) : Returns (toolEntry object) ↔ EntrySafe object := by
  rw [toolEntry, returns_bind, returns_findStringField, EntrySafe]
  refine and_congr_right fun _ => ?_
  simp only [← findStringField_eq_some_iff]
  constructor
  · intro h name hname hne
    have hreturns := h (some name) hname
    simp only [List.isEmpty_iff, hne, if_false, returns_map, returns_findStringField] at hreturns
    exact hreturns
  · intro h name hname
    cases name with
    | none => exact returns_ok _
    | some name =>
      by_cases hne : name = []
      · simp [hne, pure, Except.pure]
      · simp only [List.isEmpty_iff, hne, if_false, returns_map, returns_findStringField]
        exact h name hname hne

theorem returns_toolEntries (objects : List Text) :
    Returns (toolEntries objects) ↔ ∀ object ∈ objects, EntrySafe object := by
  induction objects with
  | nil => simp [toolEntries]
  | cons object objects ih =>
    rw [toolEntries, returns_bind, returns_toolEntry, List.forall_mem_cons]
    refine and_congr_right fun hsafe => ?_
    simp only [returns_map, ih]
    obtain ⟨entry, hentry⟩ := (returns_toolEntry object).mpr hsafe
    exact ⟨fun h => h entry hentry, fun h _ _ => h⟩

theorem pageEntries_cases (result : Text) :
    (∃ objects, (∀ others, PageObjects result others ↔ others = objects) ∧
      pageEntries result = do pure (.ok (← toolEntries objects))) ∨
    (∀ objects, ¬PageObjects result objects) ∧
      ∃ error, pageEntries result = .ok (.error error) := by
  simp only [PageObjects, ← findRawField_eq_some_iff, ← splitArrayObjects_eq_ok_iff]
  rw [pageEntries]
  cases findRawField result "tools".toList with
  | none => exact .inl ⟨[], by simp, rfl⟩
  | some array =>
    dsimp only
    split
    next rest htrim =>
      cases hsplit : splitArrayObjects array with
      | error error => exact .inr ⟨by simp [hsplit], error, rfl⟩
      | ok objects =>
        refine .inl ⟨objects, fun others => ?_, rfl⟩
        simp [htrim, hsplit, eq_comm]
    next htrim =>
      refine .inr ⟨?_, _, rfl⟩
      rintro objects (⟨hnone, -⟩ | ⟨array', harray, hhead, -⟩)
      · exact absurd rfl (hnone array)
      · obtain rfl := Option.some.inj harray
        cases hstart : trimStart array with
        | nil => simp [hstart] at hhead
        | cons c rest =>
          rw [hstart, List.head?_cons, Option.some.injEq] at hhead
          exact htrim rest (by rw [hstart, hhead])

theorem returns_parseToolsPage : Returns (parseToolsPage line) ↔
      ∀ result objects, ResultOf line result → PageObjects result objects →
        (∀ object ∈ objects, EntrySafe object) ∧ ¬CutField "nextCursor".toList result := by
  refine (forall_answer.trans (and_iff_right fun _ _ => returns_ok _)).trans ?_
  refine forall_congr' fun result => ?_
  rw [forall_comm]
  refine forall_congr' fun _ => ?_
  rw [returns_bind]
  rcases pageEntries_cases result with ⟨objects, hobjects, hentries⟩ | ⟨hnone, error, hentries⟩
  · simp only [hobjects, forall_eq]
    rw [hentries, returns_map, returns_toolEntries]
    refine and_congr_right fun hsafe => ?_
    obtain ⟨entries, hread⟩ := (returns_toolEntries objects).mpr hsafe
    have hok : (do pure (.ok (← toolEntries objects)) : Panicking (Except McpError _)) =
        .ok (.ok entries) := by
      rw [hread]
      rfl
    rw [hok]
    simp only [Except.ok.injEq, forall_eq', returns_map, pageCursor, returns_findStringField]
  · rw [hentries]
    simp [hnone, pure, Except.pure]

theorem returns_collectTextParts (result : Text) :
    Returns (collectTextParts result) ↔ PartsSafe result := by
  simp only [PartsSafe, ← findRawField_eq_some_iff, collectTextParts]
  cases findRawField result "content".toList with
  | none => simp
  | some array =>
    rw [returns_iff, collectParts_panics_iff le_rfl]
    simp

theorem returns_parseCallResult (tool : String) : Returns (parseCallResult line tool) ↔
      (∀ error, ErrorOf line error → ¬CutField "message".toList error) ∧
        ∀ result, ResultOf line result → PartsSafe result := by
  refine forall_answer.trans (and_congr (forall₂_congr fun error _ => ?_)
    (forall₂_congr fun result _ => ?_))
  · rw [returns_map, errorAnswer, returns_bind, returns_findStringField]
    refine and_iff_left fun message _ => ?_
    dsimp only
    split
    · split <;> exact returns_ok _
    · exact returns_ok _
  · rw [← returns_collectTextParts]
    split
    · rw [returns_map, reportedFailure, returns_map]
    · rw [returns_map, resultText, returns_bind]
      refine and_iff_left fun collected _ => ?_
      split
      · exact returns_ok _
      · split <;> exact returns_ok _

/-! ## The lines that panic -/

/-- An index next to an ASCII byte cuts no character; and every function returns exactly on the
lines that reach the other two indices at whole characters. -/
theorem server_line_panics_iff (line : Text) :
    (∀ front b back, encode line = front ++ b :: back → b.toNat ≤ 127 →
      isBoundary (b :: back) = true ∧ isBoundary back = true) ∧
    (AllReturn line ↔ LineSafe line) := by
  refine ⟨fun front b back h hb => ?_, fun h => ?_, fun h => ?_⟩
  · obtain ⟨as, c, bs, rfl, rfl, rfl⟩ := encode_ascii h hb
    have hback : b :: encode bs = encode (c :: bs) := by
      rw [encode_append, List.append_cancel_left_eq] at h
      exact h.symm
    rw [hback]
    exact ⟨isBoundary_encode _, isBoundary_encode _⟩
  · obtain ⟨hmessage, hversion⟩ := returns_parseInitializeResult.mp h.handshake
    exact
      { method := (returns_handleServerRequest []).mp (h.request [])
        message := hmessage
        version := hversion
        page := returns_parseToolsPage.mp h.page
        parts := ((returns_parseCallResult "").mp (h.call "")).2 }
  · exact
      { request := fun cwd => (returns_handleServerRequest cwd).mpr h.method
        handshake := returns_parseInitializeResult.mpr ⟨h.message, h.version⟩
        page := returns_parseToolsPage.mpr h.page
        call := fun tool => (returns_parseCallResult tool).mpr ⟨h.message, h.parts⟩
        tools := returns_isNotification _ h.method
        resources := returns_isNotification _ h.method
        prompts := returns_isNotification _ h.method }

/-- Two accepted lines: a method with three digits behind `\u`, and a text part without a value. -/
theorem accepted_lines_panic : let cut := "\x7b\"method\":\"\\u000é\"\x7d".toList
    let bare := "\x7b\"result\":\x7b\"content\":x\"text\":\x7d\x7d".toList
    (decodeLine (encode cut) ⟨0, 0, 0⟩).1 = some cut ∧
      (∀ cwd, handleServerRequest cut cwd = .error .midCharacter) ∧
      (decodeLine (encode bare) ⟨0, 0, 0⟩).1 = some bare ∧
      ∀ tool, parseCallResult bare tool = .error .outOfRange := by
  intro cut bare
  refine ⟨by decide +kernel, fun cwd => ?_, by decide +kernel, fun tool => ?_⟩
  · have hmethod : findStringField cut "method".toList = .error .midCharacter := by decide +kernel
    rw [handleServerRequest, hmethod]
    rfl
  · have herror : findObjectField bare "error".toList = none := by decide +kernel
    have hresult : findObjectField bare "result".toList =
        some "\x7b\"content\":x\"text\":\x7d".toList := by decide +kernel
    have hflag : findBoolField "\x7b\"content\":x\"text\":\x7d".toList "isError".toList = none := by
      decide +kernel
    have hparts : collectTextParts "\x7b\"content\":x\"text\":\x7d".toList =
        .error .outOfRange := by
      rfl
    rw [parseCallResult, herror]
    dsimp only
    rw [hresult]
    dsimp only
    rw [hflag, if_neg (by decide), resultText, hparts]
    rfl

end BittyAi.Mcp
