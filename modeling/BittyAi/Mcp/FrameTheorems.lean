/-
BittyAi.Mcp.FrameTheorems — what `next_line` makes of a stream.

The length that is compared with the limit counts the terminator, so a line is returned
exactly when it fits in the limit together with its terminator.
-/
import BittyAi.Mcp.Frame

namespace BittyAi.Mcp

open Lib List

/-! ## Lines and verdicts -/

def splitLines : List UInt8 → List (List UInt8)
  | [] => []
  | b :: rest =>
    if b = 0x0A then [b] :: splitLines rest
    else match splitLines rest with
      | [] => [[b]]
      | line :: lines => (b :: line) :: lines

inductive Verdict where
  | returned (line : Text)
  | malformed
  | oversize (error : McpError)

/-- An object in braces, with white space around it. -/
def IsObject (text : Text) : Prop :=
  ∃ lead inner trail, text = lead ++ ('\x7b' :: (inner ++ ['\x7d'])) ++ trail ∧
    (∀ c ∈ lead, isWhitespace c) ∧ ∀ c ∈ trail, isWhitespace c

/-- A line and its content, without the ending. -/
inductive Content : List UInt8 → List UInt8 → Prop
  | feed {content} (h : content.getLast? ≠ some 0x0D) : Content (content ++ [0x0A]) content
  | crlf (content) : Content (content ++ [0x0D, 0x0A]) content
  | bare {content} (h : content.getLast? ≠ some 0x0A) : Content content content

/-- What is to become of a line, by its bytes alone. -/
inductive Judged (line : List UInt8) : Verdict → Prop
  | returned {content : List UInt8} {text : Text} (hfits : line.length ≤ maxFrameBytes)
      (hcontent : Content line content) (hutf8 : content = encode text) (hobject : IsObject text) :
      Judged line (.returned text)
  | malformed (hfits : line.length ≤ maxFrameBytes)
      (hnone : ∀ text, Content line (encode text) → ¬IsObject text) : Judged line .malformed
  | oversize {kept : List UInt8} (hlong : maxFrameBytes < line.length)
      (hkept : Content (line.take (maxFrameBytes + 1)) kept) :
      Judged line (.oversize ⟨.frame, .frameTooLarge maxFrameBytes kept.length⟩)

/-- The verdict of `next_line`, computed. -/
def judge (line : List UInt8) : Verdict :=
  let raw := stripEnding (line.take (maxFrameBytes + 1))
  if line.length > maxFrameBytes then .oversize (tooLarge (min raw.length (maxFrameBytes + 1)))
  else match (decodeLine raw ⟨0, 0, 0⟩).1 with
    | some text => .returned text
    | none => .malformed

def Verdict.result : Verdict → Option (Except McpError Text)
  | returned line => some (.ok line)
  | malformed => none
  | oversize error => some (.error error)

def FrameStats.count (stats : FrameStats) : Verdict → FrameStats
  | .returned _ => { stats with received := stats.received + 1 }
  | .malformed => { stats with droppedMalformed := stats.droppedMalformed + 1 }
  | .oversize _ => { stats with rejectedOversize := stats.rejectedOversize + 1 }

def FrameStats.total (stats : FrameStats) : Nat :=
  stats.received + stats.droppedMalformed + stats.rejectedOversize

/-- The results of `next_line` called until it returns `Ok(None)`, and the counters then. -/
inductive Drains : Reader → FrameStats → List (Except McpError Text) → FrameStats → Prop
  | done {reader reader' stats after} (h : nextLine reader stats = (.ok none, reader', after)) :
      Drains reader stats [] after
  | next {reader reader' stats stats' result results after}
      (h : nextLine reader stats = (result.map some, reader', stats'))
      (hmore : Drains reader' stats' results after) : Drains reader stats (result :: results) after

variable {reader : Reader} {stats after : FrameStats} {results : List (Except McpError Text)}

theorem getLast?_bracketed {α : Type} (a z : α) (mid : List α) :
    (a :: (mid ++ [z])).getLast? = some z := by
  rw [← cons_append, getLast?_concat]

/-! ## One line -/

theorem content_iff {line content : List UInt8} :
    Content line content ↔ content = stripEnding line := by
  constructor
  · intro h
    cases h with
    | feed h => simp [stripEnding, h]
    | crlf => simp [stripEnding]
    | bare h => simp [stripEnding, h]
  · rintro rfl
    have hsplit : ∀ {front : List UInt8} {b : UInt8}, front.getLast? = some b →
        front = front.dropLast ++ [b] := fun h => (dropLast_append_getLast? _ h).symm
    rw [stripEnding]
    split
    next hlast =>
      split
      next hreturn =>
        have heq : line = line.dropLast.dropLast ++ [0x0D, 0x0A] := by
          conv_lhs => rw [hsplit hlast, hsplit hreturn]
          simp
        conv_lhs => rw [heq]
        exact .crlf _
      next hreturn =>
        conv_lhs => rw [hsplit hlast]
        exact .feed hreturn
    next hlast => exact .bare hlast

theorem isObject_iff {text : Text} : IsObject text ↔
    (trimChars text).head? = some '\x7b' ∧ (trimChars text).getLast? = some '\x7d' := by
  constructor
  · rintro ⟨lead, inner, trail, rfl, hlead, htrail⟩
    rw [trimChars_bracketed hlead htrail (by decide) (by decide)]
    simp [getLast?_bracketed]
  · rintro ⟨hhead, hlast⟩
    obtain ⟨lead, trail, heq, hlead, htrail⟩ := trimChars_split text
    obtain ⟨rest, hrest⟩ := head?_eq_some_iff.mp hhead
    obtain ⟨front, hfront⟩ := getLast?_eq_some_iff.mp hlast
    cases front with
    | nil => simp [hfront] at hrest
    | cons c inner =>
      obtain ⟨rfl, -⟩ := cons.inj (hfront.symm.trans hrest)
      exact ⟨lead, inner, trail, by rw [← cons_append, ← hfront, ← heq], hlead, htrail⟩

theorem decodeLine_eq_some {raw : List UInt8} {stats : FrameStats} {text : Text} :
    (decodeLine raw stats).1 = some text ↔ raw = encode text ∧ IsObject text := by
  rw [isObject_iff, decodeLine]
  cases hutf8 : fromUtf8? raw with
  | none =>
    refine iff_of_false (by simp) ?_
    rintro ⟨rfl, -⟩
    have hread : fromUtf8? (encode text) = some (String.ofList text) :=
      fromUtf8?_eq_some.mpr (by rw [utf8Bytes_eq_encode, String.toList_ofList])
    rw [hread] at hutf8
    cases hutf8
  | some read =>
    rw [fromUtf8?_eq_some.mp hutf8, utf8Bytes_eq_encode, encode_inj]
    dsimp only
    split
    next hempty =>
      refine iff_of_false (by simp) ?_
      rintro ⟨rfl, hhead, -⟩
      simp [isEmpty_iff.mp hempty] at hhead
    split
    next =>
      refine iff_of_false (by simp) ?_
      rintro ⟨rfl, hhead, hlast⟩
      simp_all
    next hbraces =>
      simp only [Option.some.injEq]
      refine ⟨?_, fun h => h.1⟩
      rintro rfl
      simpa [not_or] using hbraces

theorem judged_iff {line : List UInt8} {verdict : Verdict} :
    Judged line verdict ↔ verdict = judge line := by
  rw [judge]
  by_cases hlong : line.length > maxFrameBytes
  · have hkept : ∀ {kept}, Content (line.take (maxFrameBytes + 1)) kept →
        kept.length ≤ maxFrameBytes + 1 := by
      intro kept h
      rw [content_iff.mp h, stripEnding]
      split <;> [split; skip] <;> simp
    rw [if_pos hlong]
    constructor
    · intro h
      cases h with
      | returned hfits => omega
      | malformed hfits => omega
      | oversize _ h =>
        rw [← content_iff.mp h, min_eq_left (hkept h)]
        rfl
    · rintro rfl
      have h := content_iff.mpr (rfl : _ = stripEnding (line.take (maxFrameBytes + 1)))
      rw [min_eq_left (hkept h)]
      exact .oversize hlong h
  · rw [if_neg hlong, take_of_length_le (by omega)]
    have hfits := Nat.not_lt.mp hlong
    cases hdecode : (decodeLine (stripEnding line) ⟨0, 0, 0⟩).1 with
    | none =>
      have hnone : ∀ text, Content line (encode text) → ¬IsObject text := by
        intro text h hobject
        rw [decodeLine_eq_some.mpr ⟨(content_iff.mp h).symm, hobject⟩] at hdecode
        cases hdecode
      constructor
      · intro h
        cases h with
        | returned _ h hutf8 hobject => exact absurd hobject (hnone _ (hutf8 ▸ h))
        | malformed => rfl
        | oversize h => omega
      · rintro rfl
        exact .malformed hfits hnone
    | some text =>
      obtain ⟨hraw, hobject⟩ := decodeLine_eq_some.mp hdecode
      constructor
      · intro h
        cases h with
        | returned _ h hutf8 =>
          rw [content_iff.mp h, hraw, encode_inj] at hutf8
          rw [hutf8]
        | malformed _ hnone => exact absurd hobject (hnone text (content_iff.mpr hraw.symm))
        | oversize h => omega
      · rintro rfl
        exact .returned hfits (content_iff.mpr rfl) hraw hobject

theorem splitLines_end {line : List UInt8} (h : 0x0A ∉ line) (hne : line ≠ []) :
    splitLines line = [line] := by
  induction line with
  | nil => contradiction
  | cons b line ih =>
    simp only [mem_cons, not_or] at h
    rw [splitLines, if_neg (Ne.symm h.1)]
    cases line with
    | nil => rfl
    | cons c line => rw [ih h.2 (by simp)]

theorem splitLines_feed {front : List UInt8} (h : 0x0A ∉ front) (more : List UInt8) :
    splitLines (front ++ [0x0A] ++ more) = (front ++ [0x0A]) :: splitLines more := by
  induction front with
  | nil => rfl
  | cons b front ih =>
    simp only [mem_cons, not_or] at h
    rw [cons_append, cons_append, splitLines, if_neg (Ne.symm h.1), ih h.2]

theorem decodeLine_cases (raw : List UInt8) :
    (∃ line, ∀ stats, decodeLine raw stats = (some line, stats.count (.returned line))) ∨
      ∀ stats, decodeLine raw stats = (none, stats.count .malformed) := by
  unfold decodeLine
  cases fromUtf8? raw with
  | none => exact .inr fun _ => rfl
  | some text =>
    dsimp only
    split
    · exact .inr fun _ => rfl
    split
    · exact .inr fun _ => rfl
    · exact .inl ⟨_, fun _ => rfl⟩

/-- `next_line` after it has read a line. -/
def afterLine (reader : Reader) (stats : FrameStats) (verdict : Verdict) :
    Except McpError (Option Text) × Reader × FrameStats :=
  match verdict.result with
  | some result => (result.map some, reader, stats.count verdict)
  | none => nextLine reader (stats.count verdict)

theorem nextLine_end (h : reader.rest = []) (stats : FrameStats) :
    nextLine reader stats = (.ok none, reader, stats) := by
  have hstep : Probe.step { reader } = { reader, eof := true } := by simp [Probe.step, h]
  have hrun : Probe.run { reader } = { reader, eof := true } := by
    rw [Probe.run, if_neg (by simp), hstep, Probe.run, if_pos (.inr rfl)]
  rw [nextLine, hrun]
  rfl

theorem nextLine_cases (reader : Reader) : reader.rest = [] ∨
    ∃ line reader', splitLines reader.rest = line :: splitLines reader'.rest ∧
      ∀ stats, nextLine reader stats = afterLine reader' stats (judge line) := by
  obtain ⟨line, more, hrest, hmore, ⟨hraw, hretained⟩, hend⟩ :=
    Probe.run_spec { reader } rfl rfl (Probe.holds_start reader)
  by_cases hempty : reader.rest = []
  · exact .inl hempty
  rw [nil_append] at hraw hretained
  replace hrest : reader.rest = line ++ more := hrest
  have hline : line ≠ [] := by
    rintro rfl
    obtain ⟨-, -, rfl⟩ | ⟨-, front, -, hfront⟩ := hend
    · exact hempty hrest
    · simp at hfront
  have hnil : (line.take (maxFrameBytes + 1)).isEmpty = false := by simpa using hline
  refine .inr ⟨line, (Probe.run { reader }).reader, ?_, fun stats => ?_⟩
  · rw [hmore, hrest]
    obtain ⟨-, hfeed, rfl⟩ | ⟨-, front, hfeed, rfl⟩ := hend
    · rw [append_nil, splitLines_end hfeed hline]
      rfl
    · exact splitLines_feed hfeed more
  · rw [nextLine]
    simp only [hraw, hretained, hnil, Bool.false_eq_true, and_false, if_false, judge]
    by_cases hlong : line.length > maxFrameBytes
    · rw [if_pos hlong, if_pos hlong]
      rfl
    rw [if_neg hlong, if_neg hlong]
    have hstrip : ¬((Probe.run { reader }).eof = true ∧
        (stripEnding (line.take (maxFrameBytes + 1))).isEmpty = true) := by
      rintro ⟨heof, hstrip⟩
      obtain ⟨-, hfeed, -⟩ | ⟨hgo, -⟩ := hend
      · rw [stripEnding, if_neg, hnil] at hstrip
        · cases hstrip
        · exact fun hlast => hfeed (mem_of_mem_take (mem_of_getLast? hlast))
      · rw [hgo] at heof
        cases heof
    rw [if_neg hstrip]
    obtain ⟨text, hdecode⟩ | hdecode :=
      decodeLine_cases (stripEnding (line.take (maxFrameBytes + 1)))
    · rw [hdecode, hdecode]
      rfl
    · rw [hdecode, hdecode]
      dsimp only [afterLine, Verdict.result]
      obtain ⟨heof, -, rfl⟩ | ⟨hgo, -⟩ := hend
      · rw [if_pos heof, nextLine_end hmore]
      · rw [if_neg (by simp [hgo])]

/-! ## A whole stream -/

theorem Drains.of_nextLine_eq {reader' : Reader} {stats' : FrameStats}
    (h : Drains reader stats results after)
    (heq : nextLine reader stats = nextLine reader' stats') :
    Drains reader' stats' results after := by
  cases h with
  | done h => exact .done (heq ▸ h)
  | next h hmore => exact .next (heq ▸ h) hmore

theorem drains_iff : Drains reader stats results after ↔
      results = (splitLines reader.rest).filterMap (fun line => (judge line).result) ∧
        after =
          (splitLines reader.rest).foldl (fun stats line => stats.count (judge line)) stats := by
  induction hlines : splitLines reader.rest generalizing reader stats results with
  | nil =>
    obtain hrest | ⟨line, reader', hsplit, -⟩ := nextLine_cases reader
    · have hend := nextLine_end hrest stats
      constructor
      · intro h
        cases h with
        | done h => simp_all
        | @next _ _ _ _ result _ _ h => cases result <;> simp [hend, Except.map] at h
      · rintro ⟨rfl, rfl⟩
        exact .done hend
    · simp [hlines] at hsplit
  | cons line lines ih =>
    obtain hrest | ⟨line', reader', hsplit, hnext⟩ := nextLine_cases reader
    · simp [hrest, splitLines] at hlines
    · obtain ⟨rfl, rfl⟩ := cons.inj (hlines.symm.trans hsplit)
      have hstep := hnext stats
      rw [foldl_cons, filterMap_cons]
      unfold afterLine at hstep
      cases hresult : (judge line).result with
      | none =>
        rw [hresult] at hstep
        rw [← ih rfl]
        exact ⟨fun h => h.of_nextLine_eq hstep, fun h => h.of_nextLine_eq hstep.symm⟩
      | some result =>
        rw [hresult] at hstep
        constructor
        · intro h
          cases h with
          | done h => cases result <;> simp [hstep, Except.map] at h
          | @next _ _ _ _ result' _ _ h hmore =>
            obtain ⟨hmap, rfl, rfl⟩ : result'.map some = result.map some ∧ _ ∧ _ := by
              simpa using h.symm.trans hstep
            obtain rfl : result' = result := by
              cases result <;> cases result' <;> simp_all [Except.map]
            simpa using (ih rfl).mp hmore
        · rintro ⟨rfl, hafter⟩
          exact .next hstep ((ih rfl).mpr ⟨rfl, hafter⟩)

theorem total_foldl_count (lines : List (List UInt8)) (stats : FrameStats) :
    (lines.foldl (fun stats line => stats.count (judge line)) stats).total =
      stats.total + lines.length := by
  induction lines generalizing stats with
  | nil => rfl
  | cons line lines ih =>
    rw [foldl_cons, ih, length_cons]
    cases judge line <;> simp only [FrameStats.count, FrameStats.total] <;> omega

theorem Probe.holds_iterate (reader : Reader) (n : Nat) :
    ∃ sofar, (step^[n] { reader }).Holds sofar := by
  induction n with
  | zero => exact ⟨[], holds_start reader⟩
  | succ n ih =>
    obtain ⟨sofar, h⟩ := ih
    rw [Function.iterate_succ_apply']
    obtain ⟨-, hstep⟩ | ⟨front, -, -, -, hstep⟩ | ⟨bytes, -, -, -, -, hstep⟩ :=
      (step^[n] { reader }).step_cases
    · exact ⟨sofar, by simpa [hstep, Holds] using h⟩
    · exact ⟨_, by rw [hstep]; exact h.take (front ++ [0x0A])⟩
    · exact ⟨_, hstep ▸ h.take bytes⟩

theorem forall₂_judged_iff {lines : List (List UInt8)} {verdicts : List Verdict} :
    Forall₂ Judged lines verdicts ↔ verdicts = lines.map judge := by
  have hjudged : Judged = fun line verdict => judge line = verdict := by
    funext line verdict
    exact propext (judged_iff.trans eq_comm)
  rw [hjudged, ← forall₂_map_left_iff, forall₂_eq_eq_eq, eq_comm]

/-- Every window of the reader gives the same results: each line is returned, dropped or refused
by its bytes alone, in order, and no pass of the loop retains more than one byte over the limit.
-/
theorem framing_by_lines (reader : Reader) (stats : FrameStats) :
    ∃ verdicts, (∀ others, Forall₂ Judged (splitLines reader.rest) others ↔ others = verdicts) ∧
      (∀ results after, Drains reader stats results after ↔
        results = verdicts.filterMap Verdict.result ∧
          after = verdicts.foldl FrameStats.count stats) ∧
      (∀ results after, Drains reader stats results after →
        after.total = stats.total + (splitLines reader.rest).length) ∧
      ∀ n, (Probe.step^[n] { reader }).raw.length ≤ maxFrameBytes + 1 := by
  refine ⟨(splitLines reader.rest).map judge, fun _ => forall₂_judged_iff, fun results after => ?_,
    fun results after h => ?_, fun n => ?_⟩
  · rw [drains_iff, filterMap_map, foldl_map]
    rfl
  · rw [(drains_iff.mp h).2, total_foldl_count]
  · obtain ⟨sofar, hraw, -⟩ := Probe.holds_iterate reader n
    rw [hraw]
    exact length_take_le _ _

/-! ## The limit -/

inductive Ending where
  | lf
  | crlf
  | eof

def Ending.bytes : Ending → List UInt8
  | lf => [0x0A]
  | crlf => [0x0D, 0x0A]
  | eof => []

def Ending.Ends (content more : List UInt8) : Ending → Prop
  | lf => content.getLast? ≠ some 0x0D
  | crlf => True
  | eof => more = []

variable {ending : Ending} {content more : List UInt8}

theorem stripEnding_ending (hends : ending.Ends content more) (hfeed : 0x0A ∉ content) :
    stripEnding (content ++ ending.bytes) = content := by
  cases ending with
  | lf => simp [stripEnding, Ending.bytes, show content.getLast? ≠ some 0x0D from hends]
  | crlf =>
    have hbytes : content ++ Ending.crlf.bytes = content ++ [0x0D] ++ [0x0A] := by
      simp [Ending.bytes]
    simp [stripEnding, hbytes]
  | eof =>
    have hlast : content.getLast? ≠ some 0x0A := fun h => hfeed (mem_of_getLast? h)
    simp [stripEnding, Ending.bytes, hlast]

theorem splitLines_ending (hends : ending.Ends content more) (hfeed : 0x0A ∉ content)
    (hne : content ≠ []) : splitLines (content ++ ending.bytes ++ more) =
      (content ++ ending.bytes) :: splitLines more := by
  cases ending with
  | lf => exact splitLines_feed hfeed more
  | crlf =>
    have h := @splitLines_feed (content ++ [0x0D]) (by simp [hfeed]) more
    simpa [Ending.bytes] using h
  | eof =>
    obtain rfl : more = [] := hends
    simpa [Ending.bytes, splitLines] using splitLines_end hfeed hne

theorem nextLine_ending {line : Text} (hends : ending.Ends content more) (hfeed : 0x0A ∉ content)
    (hformed : (decodeLine content stats).1 = some line) (window : Nat → Nat) :
    (∃ error, (nextLine ⟨content ++ ending.bytes ++ more, window⟩ stats).1 = .error error) ∧
        maxFrameBytes < content.length + ending.bytes.length ∨
      (nextLine ⟨content ++ ending.bytes ++ more, window⟩ stats).1 = .ok (some line) ∧
        content.length + ending.bytes.length ≤ maxFrameBytes := by
  have hne : content ≠ [] := by
    rintro rfl
    cases hformed
  have hlines := splitLines_ending hends hfeed hne
  obtain hrest | ⟨line', reader', hsplit, hnext⟩ :=
    nextLine_cases ⟨content ++ ending.bytes ++ more, window⟩
  · simp [show content ++ ending.bytes ++ more = [] from hrest, splitLines] at hlines
  obtain ⟨rfl, -⟩ := cons.inj (hlines.symm.trans hsplit)
  rw [hnext, ← length_append, judge]
  by_cases hlong : (content ++ ending.bytes).length > maxFrameBytes
  · exact .inl ⟨⟨_, by rw [if_pos hlong]; rfl⟩, hlong⟩
  refine .inr ⟨?_, Nat.not_lt.mp hlong⟩
  rw [if_neg hlong, take_of_length_le (by omega), stripEnding_ending hends hfeed]
  obtain ⟨text, hdecode⟩ | hdecode := decodeLine_cases content
  · rw [hdecode] at hformed ⊢
    obtain rfl := Option.some.inj hformed
    rfl
  · simp [hdecode] at hformed

/-- A well-formed line is returned exactly when it fits in the limit with its terminator. -/
theorem frame_accepted_iff (ending : Ending) (window : Nat → Nat) (content more : List UInt8)
    (line : Text) (stats : FrameStats) (hends : ending.Ends content more)
    (hfeed : 0x0A ∉ content) (hformed : (decodeLine content stats).1 = some line) :
    (nextLine ⟨content ++ ending.bytes ++ more, window⟩ stats).1 = .ok (some line) ↔
      content.length + ending.bytes.length ≤ maxFrameBytes := by
  obtain ⟨⟨error, hrefused⟩, hlong⟩ | ⟨hreturned, hfits⟩ :=
    nextLine_ending hends hfeed hformed window
  · rw [hrefused]
    exact iff_of_false (by simp) (Nat.not_le.mpr hlong)
  · exact iff_of_true hreturned hfits

theorem frame_accepted_empty_object :
    (nextLine ⟨[0x7B, 0x7D, 0x0A], fun _ => 0⟩ ⟨0, 0, 0⟩).1 = .ok (some ['\x7b', '\x7d']) :=
  (frame_accepted_iff .lf _ [0x7B, 0x7D] [] _ _ (by simp [Ending.Ends]) (by simp)
    (by decide +kernel)).mpr (by simp [Ending.bytes, maxFrameBytes])

/-- An object of `n + 2` bytes. -/
def blankObject (n : Nat) : List UInt8 := 0x7B :: (replicate n 0x20 ++ [0x7D])

theorem length_blankObject (n : Nat) : (blankObject n).length = n + 2 := by simp [blankObject]

theorem decodeLine_blankObject (n : Nat) (stats : FrameStats) :
    (decodeLine (blankObject n) stats).1 = some ('\x7b' :: (replicate n ' ' ++ ['\x7d'])) := by
  refine decodeLine_eq_some.mpr ⟨?_, [], replicate n ' ', [], by simp, by simp, by simp⟩
  rw [encode_cons, encode_append, encode_replicate rfl]
  rfl

theorem blankObject_refused {n : Nat} (h : maxFrameBytes < n + 3) (window : Nat → Nat) :
    ∃ error, (nextLine ⟨blankObject n ++ [0x0A], window⟩ ⟨0, 0, 0⟩).1 = .error error := by
  have hfeed : 0x0A ∉ blankObject n := by simp [blankObject]
  have hends : Ending.lf.Ends (blankObject n) [] := by
    simp [Ending.Ends, blankObject, getLast?_bracketed]
  obtain ⟨hrefused, -⟩ | ⟨-, hfits⟩ :=
    nextLine_ending hends hfeed (decodeLine_blankObject n ⟨0, 0, 0⟩) window
  · rwa [append_nil] at hrefused
  · rw [length_blankObject, Ending.bytes, length_singleton] at hfits
    omega

/-- An object of exactly the limit, and a line feed behind it. -/
theorem full_frame_refused :
    checkFrameLen (blankObject (maxFrameBytes - 2)).length = .ok () ∧
      (∃ line, (decodeLine (blankObject (maxFrameBytes - 2)) ⟨0, 0, 0⟩).1 = some line) ∧
      ∀ window, ∃ error, (nextLine ⟨blankObject (maxFrameBytes - 2) ++ [0x0A], window⟩
        ⟨0, 0, 0⟩).1 = .error error := by
  have hlength : maxFrameBytes - 2 + 2 = maxFrameBytes := Nat.sub_add_cancel (by decide)
  exact ⟨by rw [checkFrameLen, length_blankObject, hlength, if_neg (lt_irrefl _)],
    ⟨_, decodeLine_blankObject _ _⟩, blankObject_refused (hlength.ge.trans_lt (Nat.lt_succ_self _))⟩

end BittyAi.Mcp
