/-
BittyAi.Runtime.SseTheorems — how the events depend on the cuts between the chunks.

`Reads` is the reading of the complete lines of some bytes, without the bound on what is
left behind them. It goes on where it stopped when more bytes arrive (`Reads.append`,
`Reads.split`), so the lines do not depend on the cuts. What does is the bound: it is
checked on what is left at the end of every chunk, and there a carriage return that may
belong to a line break is counted with its line.
-/
import BittyAi.Lib.Utf8
import BittyAi.Runtime.Sse

namespace BittyAi.Runtime

open Lib Exiting List

section Chunks

/-! ## Line breaks -/

def isBreak (b : UInt8) : Bool := b = 10 || b = 13

def Unbroken (line : List UInt8) : Prop := ∀ b ∈ line, isBreak b = false

/-- A line break, with the bytes behind it: a carriage return alone needs one to be told from the
first half of a pair. -/
def Terminates (term rest : List UInt8) : Prop :=
  term = [10] ∨ term = [13, 10] ∨ (term = [13] ∧ ∃ b more, rest = b :: more ∧ b ≠ 10)

variable {line term rest line' term' rest' buffer : List UInt8}

theorem Unbroken.findLineBreakFrom_append (h : Unbroken line) (i : Nat) :
    findLineBreakFrom i (line ++ rest) = findLineBreakFrom (i + line.length) rest := by
  induction line generalizing i with
  | nil => rfl
  | cons b line ih =>
    obtain ⟨hb, hline⟩ := forall_mem_cons.mp h
    simp only [isBreak, Bool.or_eq_false_iff, decide_eq_false_iff_not] at hb
    rw [cons_append, findLineBreakFrom.eq_def]
    simp only [if_neg hb.1, if_neg hb.2, ih hline, length_cons]
    congr 1
    omega

theorem le_findLineBreakFrom {i lineEnd advance : Nat}
    (h : findLineBreakFrom i buffer = some (lineEnd, advance)) : i ≤ lineEnd := by
  induction buffer generalizing i with
  | nil => cases h
  | cons b buffer ih =>
    rw [findLineBreakFrom.eq_def] at h
    dsimp only at h
    split at h
    · cases h
      exact Nat.le_refl _
    · split at h
      · split at h
        · split at h <;> cases h <;> exact Nat.le_refl _
        · cases h
      · exact Nat.le_of_succ_le (ih h)

theorem Unbroken.findLineBreak_eq_none (h : Unbroken line) : findLineBreak line = none := by
  have hend : findLineBreakFrom 0 (line ++ []) = none := h.findLineBreakFrom_append 0
  rwa [append_nil] at hend

theorem Unbroken.findLineBreak_cr (h : Unbroken line) : findLineBreak (line ++ [13]) = none := by
  rw [findLineBreak, h.findLineBreakFrom_append]
  rfl

theorem findLineBreak_line (h : Unbroken line) (hterm : Terminates term rest) :
    findLineBreak (line ++ (term ++ rest)) = some (line.length, line.length + term.length) := by
  rw [findLineBreak, h.findLineBreakFrom_append, Nat.zero_add]
  rcases hterm with rfl | rfl | ⟨rfl, b, more, rfl, hb⟩
  · simp [findLineBreakFrom]
  · simp [findLineBreakFrom]
  · simp [findLineBreakFrom, hb]

theorem findLineBreak_cases (buffer : List UInt8) :
    (findLineBreak buffer = none ∧
      ∃ line, Unbroken line ∧ (buffer = line ∨ buffer = line ++ [13])) ∨
      ∃ line term rest, Unbroken line ∧ Terminates term rest ∧ buffer = line ++ (term ++ rest) := by
  induction buffer with
  | nil => exact .inl ⟨rfl, [], by simp [Unbroken], .inl rfl⟩
  | cons b buffer ih =>
    by_cases hlf : b = 10
    · exact .inr ⟨[], [10], buffer, by simp [Unbroken], .inl rfl, by simp [hlf]⟩
    by_cases hcr : b = 13
    · subst hcr
      cases buffer with
      | nil => exact .inl ⟨rfl, [], by simp [Unbroken], .inr rfl⟩
      | cons next more =>
        by_cases hpair : next = 10
        · exact .inr ⟨[], [13, 10], more, by simp [Unbroken], .inr (.inl rfl), by simp [hpair]⟩
        · exact .inr ⟨[], [13], next :: more, by simp [Unbroken],
            .inr (.inr ⟨rfl, next, more, rfl, hpair⟩), rfl⟩
    have hb : isBreak b = false := by simp [isBreak, hlf, hcr]
    have hcons : ∀ {line}, Unbroken line → Unbroken (b :: line) := fun h =>
      forall_mem_cons.mpr ⟨hb, h⟩
    rcases ih with ⟨-, line, hline, rfl | rfl⟩ | ⟨line, term, rest, hline, hterm, rfl⟩
    · exact .inl ⟨(hcons hline).findLineBreak_eq_none, b :: buffer, hcons hline, .inl rfl⟩
    · exact .inl ⟨(hcons hline).findLineBreak_cr, b :: line, hcons hline, .inr rfl⟩
    · exact .inr ⟨b :: line, term, rest, hcons hline, hterm, rfl⟩

theorem line_unique (hline : Unbroken line) (hterm : Terminates term rest) (hline' : Unbroken line')
    (hterm' : Terminates term' rest') (h : line ++ (term ++ rest) = line' ++ (term' ++ rest')) :
    line = line' ∧ term = term' ∧ rest = rest' := by
  have hbreak := findLineBreak_line hline hterm
  rw [h, findLineBreak_line hline' hterm', Option.some.injEq, Prod.mk.injEq] at hbreak
  obtain ⟨rfl, hbehind⟩ := append_inj h hbreak.1.symm
  obtain ⟨rfl, rfl⟩ := append_inj hbehind (by omega)
  exact ⟨rfl, rfl, rfl⟩

theorem Terminates.append (h : Terminates term rest) (more : List UInt8) :
    Terminates term (rest ++ more) := by
  rcases h with h | h | ⟨h, b, tail, rfl, hb⟩
  · exact .inl h
  · exact .inr (.inl h)
  · exact .inr (.inr ⟨h, b, tail ++ more, rfl, hb⟩)

theorem findLineBreak_none_of_append {front more : List UInt8}
    (h : findLineBreak (front ++ more) = none) : findLineBreak front = none := by
  rcases findLineBreak_cases front with ⟨hnone, -⟩ | ⟨line, term, rest, hline, hterm, rfl⟩
  · exact hnone
  · have hsome := findLineBreak_line hline (hterm.append more)
    simp only [append_assoc] at h
    rw [h] at hsome
    cases hsome

/-! ## Reading lines -/

/-- The complete lines of some bytes are read: the events, the fields afterwards and what is
left. -/
inductive Reads : SseFields → List UInt8 → List SseEvent → SseFields → List UInt8 → Prop
  | stop {fields : SseFields} {left : List UInt8} :
    findLineBreak left = none → Reads fields left [] fields left
  | line {fields fields₁ fields₂ : SseFields} {line term rest left : List UInt8}
    {emitted events : List SseEvent} :
    Unbroken line → Terminates term rest → line.length ≤ maxSseLineBytes →
    takeLine line fields = .ok (emitted, fields₁) → Reads fields₁ rest events fields₂ left →
    Reads fields (line ++ (term ++ rest)) (emitted ++ events) fields₂ left

variable {fields fields₁ fields₂ : SseFields} {bytes more left left' : List UInt8}
  {events events' : List SseEvent}

theorem Reads.left_open (h : Reads fields bytes events fields₁ left) :
    findLineBreak left = none := by
  induction h with
  | stop hnone => exact hnone
  | line _ _ _ _ _ ih => exact ih

theorem reads_open (hnone : findLineBreak buffer = none) :
    Reads fields buffer events fields₁ left ↔ events = [] ∧ fields₁ = fields ∧ left = buffer := by
  constructor
  · intro h
    cases h with
    | stop _ => exact ⟨rfl, rfl, rfl⟩
    | line hline hterm =>
      rw [findLineBreak_line hline hterm] at hnone
      cases hnone
  · rintro ⟨rfl, rfl, rfl⟩
    exact .stop hnone

theorem reads_line (hline : Unbroken line) (hterm : Terminates term rest) :
    Reads fields (line ++ (term ++ rest)) events fields₂ left ↔
      line.length ≤ maxSseLineBytes ∧ ∃ emitted fields₁ more,
        takeLine line fields = .ok (emitted, fields₁) ∧ Reads fields₁ rest more fields₂ left ∧
          events = emitted ++ more := by
  constructor
  · intro h
    generalize hbytes : line ++ (term ++ rest) = bytes at h
    cases h with
    | stop hnone =>
      rw [← hbytes, findLineBreak_line hline hterm] at hnone
      cases hnone
    | line hline' hterm' hshort htake hreads =>
      obtain ⟨rfl, rfl, rfl⟩ := line_unique hline hterm hline' hterm' hbytes
      exact ⟨hshort, _, _, _, htake, hreads, rfl⟩
  · rintro ⟨hshort, emitted, fields₁, more, htake, hreads, rfl⟩
    exact .line hline hterm hshort htake hreads

theorem Reads.unique (h : Reads fields bytes events fields₁ left)
    (h' : Reads fields bytes events' fields₂ left') :
    events = events' ∧ fields₁ = fields₂ ∧ left = left' := by
  induction h generalizing events' with
  | stop hnone =>
    obtain ⟨rfl, rfl, rfl⟩ := (reads_open hnone).mp h'
    exact ⟨rfl, rfl, rfl⟩
  | line hline hterm _ htake _ ih =>
    obtain ⟨-, emitted, fields', more, htake', hrest', rfl⟩ := (reads_line hline hterm).mp h'
    rw [htake, Except.ok.injEq, Prod.mk.injEq] at htake'
    obtain ⟨rfl, rfl⟩ := htake'
    obtain ⟨rfl, rfl, rfl⟩ := ih hrest'
    exact ⟨rfl, rfl, rfl⟩

theorem Reads.append (h : Reads fields bytes events fields₁ left)
    (hmore : Reads fields₁ (left ++ more) events' fields₂ left') :
    Reads fields (bytes ++ more) (events ++ events') fields₂ left' := by
  induction h with
  | stop => exact hmore
  | line hline hterm hlong htake _ ih =>
    have hall := Reads.line hline (hterm.append more) hlong htake (ih hmore)
    simpa using hall

theorem Reads.split (h : Reads fields (bytes ++ more) events fields₂ left') :
    ∃ events₁ fields₁ left events₂, Reads fields bytes events₁ fields₁ left ∧
      Reads fields₁ (left ++ more) events₂ fields₂ left' ∧ events = events₁ ++ events₂ := by
  generalize hall : bytes ++ more = all at h
  induction h generalizing bytes with
  | stop hnone =>
    subst hall
    exact ⟨[], _, bytes, [], .stop (findLineBreak_none_of_append hnone), .stop hnone, rfl⟩
  | line hline hterm hlong htake hrest ih =>
    rcases findLineBreak_cases bytes with ⟨hnone, -⟩ | ⟨line', term', rest', hline', hterm', rfl⟩
    · refine ⟨[], _, bytes, _, .stop hnone, ?_, rfl⟩
      rw [hall]
      exact .line hline hterm hlong htake hrest
    · rw [append_assoc, append_assoc] at hall
      obtain ⟨rfl, rfl, rfl⟩ := line_unique hline' (hterm'.append more) hline hterm hall
      obtain ⟨events₁, fields₁, left, events₂, hfirst, hsecond, rfl⟩ := ih rfl
      exact ⟨_, fields₁, left, events₂, .line hline' hterm' hlong htake hfirst, hsecond, by simp⟩

theorem Reads.left_behind (h : Reads fields bytes events fields₁ left) :
    ∃ before, bytes = before ++ left ∧ (∀ b, before.getLast? = some b → isBreak b = true) ∧
      (before.getLast? = some 13 → left ≠ []) := by
  induction h with
  | stop _ => exact ⟨[], rfl, by simp, by simp⟩
  | @line _ _ _ line term rest _ _ _ _ hterm _ _ _ ih =>
    obtain ⟨before, rfl, hbreak, hleft⟩ := ih
    refine ⟨line ++ (term ++ before), by simp, ?_⟩
    rcases eq_nil_or_concat before with rfl | ⟨front, b, rfl⟩
    · rcases hterm with rfl | rfl | ⟨rfl, b, more, hmore, -⟩
      · simp [isBreak]
      · simp [isBreak]
      · rw [nil_append] at hmore
        simp [isBreak, hmore]
    · simp only [concat_eq_append, getLast?_concat] at hbreak hleft
      simpa using ⟨hbreak b rfl, fun hcr => hleft (by rw [hcr])⟩

/-! ## The loop of `feed` -/

namespace SseParser

variable {chunks : List (List UInt8)} {front : List UInt8} {parser' : SseParser}

theorem feedLoop_ok_iff {turns : Nat} (hturns : buffer.length < turns) :
    feedLoop turns events ⟨fields, buffer⟩ = (.ok events', parser') ↔
      ∃ emitted, events' = events ++ emitted ∧
        Reads fields buffer emitted parser'.toSseFields parser'.buffer ∧
        parser'.buffer.length ≤ maxSseLineBytes := by
  induction turns generalizing fields buffer events with
  | zero => exact absurd hturns (Nat.not_lt_zero _)
  | succ turns ih =>
    rcases findLineBreak_cases buffer with ⟨hnone, -⟩ | ⟨line, term, rest, hline, hterm, rfl⟩
    · obtain ⟨fields', buffer'⟩ := parser'
      rw [feedLoop]
      simp only [hnone, reads_open hnone]
      split
      · refine iff_of_false (by simp) ?_
        rintro ⟨-, -, ⟨-, -, rfl⟩, hbound⟩
        omega
      · simp only [Prod.mk.injEq, Except.ok.injEq, SseParser.mk.injEq]
        constructor
        · rintro ⟨rfl, rfl, rfl⟩
          exact ⟨[], by simp, ⟨rfl, rfl, rfl⟩, by omega⟩
        · rintro ⟨-, rfl, ⟨rfl, rfl, rfl⟩, -⟩
          exact ⟨by simp, rfl, rfl⟩
    · have hrest : (line ++ (term ++ rest)).drop (line.length + term.length) = rest := by
        rw [← append_assoc, ← length_append, drop_left]
      have hshorter : rest.length < turns := by
        have hpos : 0 < term.length := by rcases hterm with rfl | rfl | ⟨rfl, -⟩ <;> simp
        simp only [length_append] at hturns
        omega
      rw [feedLoop]
      simp only [findLineBreak_line hline hterm, take_left, hrest, reads_line hline hterm]
      split
      · refine iff_of_false (by simp) ?_
        rintro ⟨-, -, ⟨hshort, -⟩, -⟩
        omega
      · cases htake : takeLine line fields with
        | error error => simp
        | ok taken =>
          obtain ⟨emitted, fields₁⟩ := taken
          rw [ih hshorter]
          constructor
          · rintro ⟨more, rfl, hreads, hbound⟩
            exact ⟨emitted ++ more, by simp, ⟨by omega, _, _, _, rfl, hreads, rfl⟩, hbound⟩
          · rintro ⟨all, rfl, ⟨-, emitted', fields', more, hsame, hreads, rfl⟩, hbound⟩
            cases hsame
            exact ⟨more, by simp, hreads, hbound⟩

theorem feed_ok_iff {chunk : List UInt8} : feed chunk ⟨fields, buffer⟩ = (.ok events, parser') ↔
      Reads fields (buffer ++ chunk) events parser'.toSseFields parser'.buffer ∧
        parser'.buffer.length ≤ maxSseLineBytes := by
  rw [feed, feedLoop_ok_iff (Nat.lt_succ_self _)]
  simp

/-- Feeding chunk by chunk reads the lines of all of them, as long as what is left at the end of
each chunk is short. -/
theorem feedAll_ok_iff (hopen : findLineBreak buffer = none) :
    feedAll chunks ⟨fields, buffer⟩ = (.ok events, parser') ↔
      Reads fields (buffer ++ chunks.flatten) events parser'.toSseFields parser'.buffer ∧
        ∀ front, front <+: chunks → front ≠ [] → ∀ events fields' left,
          Reads fields (buffer ++ front.flatten) events fields' left →
            left.length ≤ maxSseLineBytes := by
  induction chunks generalizing fields buffer events with
  | nil =>
    obtain ⟨fields', buffer'⟩ := parser'
    rw [feedAll, flatten_nil, append_nil, reads_open hopen]
    constructor
    · intro h
      cases h
      refine ⟨⟨rfl, rfl, rfl⟩, fun front hfront hne => ?_⟩
      exact absurd (prefix_nil.mp hfront) hne
    · rintro ⟨⟨rfl, rfl, rfl⟩, -⟩
      rfl
  | cons chunk chunks ih =>
    simp only [feedAll, run_bind_eq_ok, flatten_cons]
    constructor
    · rintro ⟨events₁, parser₁, hfeed, events₂, parser₂, hrest, hdone⟩
      cases hdone
      obtain ⟨hreads₁, hbound₁⟩ := feed_ok_iff.mp hfeed
      obtain ⟨hreads₂, hbounds⟩ := (ih hreads₁.left_open).mp hrest
      refine ⟨?_, fun front hfront hne events fields' left hreads => ?_⟩
      · rw [← append_assoc]
        exact hreads₁.append hreads₂
      · obtain ⟨front, rfl⟩ : ∃ front', front = chunk :: front' := by
          obtain ⟨a, front, rfl⟩ := exists_cons_of_ne_nil hne
          exact ⟨front, by rw [(cons_prefix_cons.mp hfront).1]⟩
        rw [flatten_cons, ← append_assoc] at hreads
        obtain ⟨_, fields₁, left₁, _, hfirst, hsecond, -⟩ := hreads.split
        obtain ⟨-, rfl, rfl⟩ := hreads₁.unique hfirst
        by_cases hend : front = []
        · rw [hend, flatten_nil, append_nil, reads_open hreads₁.left_open] at hsecond
          rwa [hsecond.2.2]
        · exact hbounds front (cons_prefix_cons.mp hfront).2 hend _ _ _ hsecond
    · rintro ⟨hreads, hbounds⟩
      rw [← append_assoc] at hreads
      obtain ⟨events₁, fields₁, left₁, events₂, hfirst, hsecond, rfl⟩ := hreads.split
      have hshort := hbounds [chunk] (by simp) (by simp) _ _ _ (by simpa using hfirst)
      refine ⟨events₁, ⟨fields₁, left₁⟩, feed_ok_iff.mpr ⟨hfirst, hshort⟩, events₂, parser',
        (ih hfirst.left_open).mpr ⟨hsecond, fun front hfront hne events fields' left hread => ?_⟩,
        rfl⟩
      refine hbounds (chunk :: front) (by simpa using hfront) (by simp) _ _ _
        (?_ : Reads fields _ (events₁ ++ events) fields' left)
      rw [flatten_cons, ← append_assoc]
      exact hfirst.append hread

/-! ## Cuts -/

def CutBehindFullLine (chunks : List (List UInt8)) : Prop :=
  ∃ front before line, front <+: chunks ∧ front.flatten = before ++ (line ++ [13]) ∧
    line.length = maxSseLineBytes ∧ Unbroken line ∧
    ∀ b, before.getLast? = some b → isBreak b = true

theorem unbroken_suffix_unique {before before' : List UInt8} (hline : Unbroken line)
    (hline' : Unbroken line') (hbefore : ∀ b, before.getLast? = some b → isBreak b = true)
    (hbefore' : ∀ b, before'.getLast? = some b → isBreak b = true)
    (h : before ++ line = before' ++ line') : line = line' := by
  have hnone : ∀ {front more : List UInt8}, Unbroken more →
      (∀ b, (front ++ more).getLast? = some b → isBreak b = true) → more = [] := by
    intro front more hmore hbreak
    rcases eq_nil_or_concat more with hnil | ⟨init, b, rfl⟩
    · exact hnil
    · simp only [concat_eq_append, ← append_assoc, getLast?_concat] at hbreak
      have hb := hmore b (by simp)
      rw [hbreak b rfl] at hb
      cases hb
  rcases append_eq_append_iff.mp h with ⟨more, rfl, rfl⟩ | ⟨more, rfl, rfl⟩
  · rw [hnone (fun b hb => hline b (mem_append_left _ hb)) hbefore', nil_append]
  · rw [hnone (fun b hb => hline' b (mem_append_left _ hb)) hbefore, nil_append]

theorem left_of_cr (h : Reads fields (front ++ [13]) events fields₁ left) :
    ∃ before line, front = before ++ line ∧ left = line ++ [13] ∧ Unbroken line ∧
      ∀ b, before.getLast? = some b → isBreak b = true := by
  obtain ⟨before, hbytes, hbreak, hleft⟩ := h.left_behind
  have hne : left ≠ [] := by
    rintro rfl
    rw [append_nil] at hbytes
    exact hleft (by simp [← hbytes]) rfl
  rcases findLineBreak_cases left with ⟨-, line, hline, rfl | rfl⟩ | ⟨_, _, _, hline, hterm, rfl⟩
  · rcases eq_nil_or_concat left with rfl | ⟨init, b, rfl⟩
    · exact absurd rfl hne
    · rw [concat_eq_append, ← append_assoc] at hbytes
      cases append_inj_right' hbytes rfl
      cases hline 13 (by simp)
  · rw [← append_assoc] at hbytes
    exact ⟨before, line, append_cancel_right hbytes, rfl, hline, hbreak⟩
  · have hopen := h.left_open
    rw [findLineBreak_line hline hterm] at hopen
    cases hopen

/-- What is left too long at a cut, where everything is read in the end, is a full line with its
carriage return. -/
theorem long_left {more : List UInt8} (h : Reads fields front events fields₁ left)
    (hlong : maxSseLineBytes < left.length)
    (hmore : Reads fields₁ (left ++ more) events' fields₂ left')
    (hend : left'.length ≤ maxSseLineBytes) :
    ∃ before line, front = before ++ (line ++ [13]) ∧ line.length = maxSseLineBytes ∧
      Unbroken line ∧ ∀ b, before.getLast? = some b → isBreak b = true := by
  obtain ⟨before, rfl, hbreak, -⟩ := h.left_behind
  rcases findLineBreak_cases (left ++ more) with ⟨hnone, -⟩ | ⟨line, term, rest, hline, hterm, hall⟩
  · obtain ⟨-, -, rfl⟩ := (reads_open hnone).mp hmore
    rw [length_append] at hend
    omega
  · have hshort := ((reads_line hline hterm).mp (hall ▸ hmore)).1
    have hbehind : ∀ {unfinished rest' : List UInt8}, Unbroken unfinished →
        left ++ more = unfinished ++ rest' → unfinished.length ≤ line.length := by
      intro unfinished rest' hunfinished hsame
      have hbreak := findLineBreak_line hline hterm
      rw [← hall, hsame, findLineBreak, hunfinished.findLineBreakFrom_append,
        Nat.zero_add] at hbreak
      exact le_findLineBreakFrom hbreak
    rcases findLineBreak_cases left with
      ⟨-, unfinished, hunfinished, rfl | rfl⟩ | ⟨_, _, _, hfirst, hterm', rfl⟩
    · have := hbehind hunfinished rfl
      omega
    · have := hbehind hunfinished (append_assoc _ _ _)
      rw [length_append, length_singleton] at hlong
      exact ⟨before, unfinished, rfl, by omega, hunfinished, hbreak⟩
    · have hopen := h.left_open
      rw [findLineBreak_line hfirst hterm'] at hopen
      cases hopen

theorem parseStream_eq_ok : parseStream chunks = .ok events ↔ ∃ fed parser last parser',
      feedAll chunks new = (.ok fed, parser) ∧ finish parser = (.ok last, parser') ∧
        events = fed ++ last.toList := by
  constructor
  · intro h
    have hrun : feedToEnd chunks new = (.ok events, (feedToEnd chunks new).2) := Prod.ext h rfl
    obtain ⟨fed, parser, hfed, hrest⟩ := run_bind_eq_ok.mp hrun
    obtain ⟨last, parser', hlast, hdone⟩ := run_bind_eq_ok.mp hrest
    exact ⟨fed, parser, last, parser', hfed, hlast, (Except.ok.inj (Prod.mk.inj hdone).1).symm⟩
  · rintro ⟨fed, parser, last, parser', hfed, hlast, rfl⟩
    have hrun : feedToEnd chunks new = (.ok (fed ++ last.toList), parser') :=
      run_bind_eq_ok.mpr ⟨fed, parser, hfed, run_bind_eq_ok.mpr ⟨last, parser', hlast, rfl⟩⟩
    rw [parseStream, hrun]

/-- Of two ways to cut the same bytes, if the first gives events then the second gives the same
ones exactly if no cut of it stands behind the carriage return of a line of the greatest length. -/
theorem chunking_invariant_iff {first second : List (List UInt8)}
    (hsame : first.flatten = second.flatten) (hfirst : parseStream first = .ok events) :
    parseStream second = .ok events ↔ ¬CutBehindFullLine second := by
  obtain ⟨fed, parser, last, parser', hfed, hlast, rfl⟩ := parseStream_eq_ok.mp hfirst
  have hnew : findLineBreak [] = none := rfl
  obtain ⟨hreads, hbounds⟩ := (feedAll_ok_iff hnew).mp hfed
  rw [hsame] at hreads
  have hend : parser.buffer.length ≤ maxSseLineBytes := by
    by_cases hempty : first = []
    · rw [← hsame, hempty, flatten_nil, append_nil] at hreads
      rw [((reads_open hnew).mp hreads).2.2]
      exact Nat.zero_le _
    · exact hbounds first prefix_rfl hempty _ _ _ (hsame ▸ hreads)
  have hsecond : parseStream second = .ok (fed ++ last.toList) ↔
      feedAll second new = (.ok fed, parser) := by
    constructor
    · intro h
      obtain ⟨fed₂, parser₂, -, -, hfed₂, -, -⟩ := parseStream_eq_ok.mp h
      obtain ⟨rfl, hfields, hbuffer⟩ := ((feedAll_ok_iff hnew).mp hfed₂).1.unique hreads
      rw [hfed₂]
      cases parser
      cases parser₂
      cases hfields
      cases hbuffer
      rfl
    · intro h
      exact parseStream_eq_ok.mpr ⟨fed, parser, last, parser', h, hlast, rfl⟩
  rw [hsecond, new, feedAll_ok_iff hnew]
  constructor
  · rintro ⟨-, hshort⟩ ⟨front, before, line, hfront, hbytes, hlength, hline, hbreak⟩
    obtain ⟨back, hback⟩ := hfront
    rw [← hback, flatten_append, ← append_assoc] at hreads
    obtain ⟨_, _, left, _, hleft, -, -⟩ := hreads.split
    have hbound := hshort front ⟨back, hback⟩ (by rintro rfl; simp at hbytes) _ _ _ hleft
    rw [nil_append, hbytes, ← append_assoc] at hleft
    obtain ⟨before', line', hparts, rfl, hline', hbreak'⟩ := left_of_cr hleft
    obtain rfl := unbroken_suffix_unique hline hline' hbreak hbreak' hparts
    rw [length_append, length_singleton] at hbound
    omega
  · intro hcut
    refine ⟨hreads, fun front hfront _ events₁ fields₁ left hleft => ?_⟩
    by_contra hlong
    obtain ⟨back, rfl⟩ := hfront
    rw [flatten_append, ← append_assoc] at hreads
    obtain ⟨_, _, _, _, hleft', hrest, -⟩ := hreads.split
    obtain ⟨-, rfl, rfl⟩ := hleft.unique hleft'
    obtain ⟨before, line, hbytes, hlength, hline, hbreak⟩ :=
      long_left hleft (Nat.not_le.mp hlong) hrest hend
    exact hcut ⟨front, before, line, ⟨back, rfl⟩, hbytes, hlength, hline, hbreak⟩

theorem chunking_invariant_short : parseStream [utf8Bytes "data: x\r", utf8Bytes "\n\r\n"] =
      .ok [⟨"message", "x", none, none⟩] := by
  have hwhole : parseStream [utf8Bytes "data: x\r\n\r\n"] = .ok [⟨"message", "x", none, none⟩] := by
    decide +kernel
  refine (chunking_invariant_iff (by decide +kernel) hwhole).mpr ?_
  rintro ⟨front, before, line, ⟨back, hfront⟩, hbytes, hlength, -⟩
  have hfew : (front ++ back).flatten.length = 11 := by
    rw [hfront]
    decide +kernel
  rw [flatten_append, hbytes] at hfew
  simp only [length_append, maxSseLineBytes] at hfew hlength
  omega

/-! ## A full line -/

theorem takeLine_colons (n : Nat) (fields : SseFields) :
    takeLine (replicate (n + 1) 58) fields = .ok ([], fields) := by
  have htext : fromUtf8? (replicate (n + 1) 58) = some (String.ofList (replicate (n + 1) ':')) := by
    rw [fromUtf8?_eq_some, utf8Bytes_eq_encode, String.toList_ofList,
      encode_replicate (b := 58) rfl]
  rw [takeLine, htext]
  simp [replicate_succ]

def fullLine : List UInt8 := replicate maxSseLineBytes 58

theorem length_fullLine : fullLine.length = maxSseLineBytes := length_replicate

theorem takeLine_fullLine (fields : SseFields) : takeLine fullLine fields = .ok ([], fields) := by
  rw [fullLine, show maxSseLineBytes = 65535 + 1 from rfl]
  exact takeLine_colons 65535 fields

theorem unbroken_fullLine : Unbroken fullLine := by
  intro b hb
  rw [eq_of_mem_replicate hb]
  rfl

/-- A comment of the greatest length is read in one piece, and refused if it is cut inside its line
break. -/
theorem full_line_cut_refused : parseStream [fullLine ++ [13, 10]] = .ok [] ∧
      ∀ events, parseStream [fullLine ++ [13], [10]] ≠ .ok events := by
  have hnew : findLineBreak [] = none := rfl
  constructor
  · have hreads : Reads {} (fullLine ++ ([13, 10] ++ [])) ([] ++ []) {} [] :=
      .line unbroken_fullLine (.inr (.inl rfl)) (Nat.le_of_eq length_fullLine)
        (takeLine_fullLine {}) (.stop hnew)
    rw [append_nil] at hreads
    have hfeed : feed (fullLine ++ [13, 10]) new = (.ok [], new) := by
      rw [new, feed_ok_iff, nil_append]
      exact ⟨hreads, Nat.zero_le _⟩
    refine parseStream_eq_ok.mpr ⟨[], new, none, new, ?_, rfl, rfl⟩
    exact run_bind_eq_ok.mpr ⟨[], new, hfeed, run_bind_eq_ok.mpr ⟨[], new, rfl, rfl⟩⟩
  · intro events h
    obtain ⟨fed, parser, -, -, hfed, -⟩ := parseStream_eq_ok.mp h
    have hshort := ((feedAll_ok_iff hnew).mp hfed).2 [fullLine ++ [13]] (by simp) (by simp) [] {}
      (fullLine ++ [13])
    rw [flatten_singleton, nil_append] at hshort
    have hbound := hshort (.stop unbroken_fullLine.findLineBreak_cr)
    rw [length_append, length_fullLine, length_singleton] at hbound
    omega

end SseParser

end Chunks

/-! ## What data lines add up to

The values of `data` fields are put together one by one, and the parser tells the first from
the others by what it has so far: a value that is put to nothing gets no line break. -/

open SseParser

variable {data value : String} {values : List String}

def addValue (data value : String) : String :=
  if data = "" then value else data ++ "\n" ++ value

def gathered (values : List String) : String := values.foldl addValue ""

def joined (values : List String) : String := "\n".intercalate values

theorem foldl_addValue (h : data ≠ "") : values.foldl addValue data = joined (data :: values) := by
  induction values generalizing data with
  | nil => simp [joined]
  | cons value values ih =>
    have hstep : addValue data value = data ++ "\n" ++ value := if_neg h
    have hne : data ++ "\n" ++ value ≠ "" := by simp
    rw [foldl_cons, hstep, ih hne]
    simp [joined, String.append_assoc]

theorem gathered_cons_empty : gathered ("" :: values) = gathered values := rfl

theorem gathered_cons (h : value ≠ "") : gathered (value :: values) = joined (value :: values) :=
  foldl_addValue h

theorem gathered_size_le (values : List String) :
    (gathered values).utf8ByteSize ≤ (joined values).utf8ByteSize := by
  induction values with
  | nil => exact Nat.le_refl _
  | cons value values ih =>
    by_cases h : value = ""
    · subst h
      rw [gathered_cons_empty]
      refine ih.trans ?_
      cases values <;> simp [joined]
    · rw [gathered_cons h]

theorem gathered_eq_iff (hsome : ∃ v ∈ value :: values, v ≠ "") :
    gathered (value :: values) = joined (value :: values) ↔ value ≠ "" := by
  refine ⟨?_, gathered_cons⟩
  rintro h rfl
  cases values with
  | nil => simp at hsome
  | cons second values =>
    -- a line break is lost with each empty value in front
    have hless := gathered_size_le (second :: values)
    rw [← gathered_cons_empty, h] at hless
    simp [joined] at hless

theorem size_le_addValue (data value : String) :
    data.utf8ByteSize ≤ (addValue data value).utf8ByteSize := by
  unfold addValue
  split
  · simp [*]
  · rw [String.utf8ByteSize_append, String.utf8ByteSize_append]
    omega

theorem size_le_foldl_addValue (data : String) (values : List String) :
    data.utf8ByteSize ≤ (values.foldl addValue data).utf8ByteSize := by
  induction values generalizing data with
  | nil => exact Nat.le_refl _
  | cons value values ih => exact (size_le_addValue data value).trans (ih _)

/-! ## Data lines -/

inductive LineEnd where
  | lf
  | cr
  | crlf
  deriving DecidableEq

def LineEnd.bytes : LineEnd → List UInt8
  | .lf => [10]
  | .cr => [13]
  | .crlf => [13, 10]

def dataLine (value : String) : List UInt8 := utf8Bytes ("data: " ++ value)

def dataLines (lines : List (String × LineEnd)) : List UInt8 :=
  lines.flatMap fun line => dataLine line.1 ++ line.2.bytes

variable {lines : List (String × LineEnd)} {rest left : List UInt8} {events : List SseEvent}
  {fields : SseFields} {blank : LineEnd}

/-- The values have no line breaks, and the lines and the data they add up to are within the
bounds of the parser. -/
structure Feasible (lines : List (String × LineEnd)) : Prop where
  plain : ∀ line ∈ lines, '\n' ∉ line.1.toList ∧ '\r' ∉ line.1.toList
  short : ∀ line ∈ lines, (dataLine line.1).length ≤ maxSseLineBytes
  fits : (joined (lines.map Prod.fst)).utf8ByteSize ≤ maxSseEventBytes

def collecting (data : String) : SseFields := { currentData := data, hasEventFields := true }

theorem mem_toList_of_octet {text : String} {c : Char} {b : UInt8} (hc : encode [c] = [b])
    (hb : b.toNat ≤ 127) (h : b ∈ utf8Bytes text) : c ∈ text.toList := by
  rw [utf8Bytes_eq_encode] at h
  obtain ⟨front, back, hsplit⟩ := append_of_mem h
  obtain ⟨as, c', bs, hcs, rfl, rfl⟩ := encode_ascii hsplit hb
  have hsame : encode [c'] ++ encode bs = [b] ++ encode bs := by simpa [hcs] using hsplit
  have hoctet := append_cancel_right hsame
  rw [← hc, encode_inj] at hoctet
  simp [hcs, cons.inj hoctet]

theorem unbroken_dataLine (h : '\n' ∉ value.toList ∧ '\r' ∉ value.toList) :
    Unbroken (dataLine value) := by
  intro b hb
  by_contra hbreak
  simp only [isBreak, Bool.not_eq_false, Bool.or_eq_true, decide_eq_true_eq] at hbreak
  rcases hbreak with rfl | rfl
  · have hmem := mem_toList_of_octet (c := '\n') rfl (by decide) hb
    simp [h.1] at hmem
  · have hmem := mem_toList_of_octet (c := '\r') rfl (by decide) hb
    simp [h.2] at hmem

theorem takeLine_dataLine (started : Bool)
    (hfits : (addValue data value).utf8ByteSize ≤ maxSseEventBytes) :
    takeLine (dataLine value) { currentData := data, hasEventFields := started } =
      .ok ([], collecting (addValue data value)) := by
  have htext : fromUtf8? (dataLine value) = some ("data: " ++ value) := fromUtf8?_eq_some.mpr rfl
  have hsplit : splitField ("data: " ++ value).toList = ("data", value) := by simp [splitField]
  have hadd : data.utf8ByteSize + (if data = "" then value.utf8ByteSize else
      1 + value.utf8ByteSize) = (addValue data value).utf8ByteSize := by
    unfold addValue
    split
    · simp [*]
    · rw [String.utf8ByteSize_append, String.utf8ByteSize_append]
      exact (Nat.add_assoc ..).symm
  have hprocess : processLine ("data: " ++ value)
      { currentData := data, hasEventFields := started } =
        .ok (collecting (addValue data value)) := by
    simp only [processLine, hsplit, hadd, if_neg (Nat.not_lt.mpr hfits)]
    rfl
  simp [takeLine, htext, hprocess, Except.map]

/-! ## Streams of data lines -/

def EndsBefore (lines : List (String × LineEnd)) (rest : List UInt8) : Prop :=
  ∀ value, lines.getLast? = some (value, .cr) → ∃ b more, rest = b :: more ∧ b ≠ 10

theorem terminates_bytes {lineEnd : LineEnd}
    (h : lineEnd = .cr → ∃ b more, rest = b :: more ∧ b ≠ 10) :
    Terminates lineEnd.bytes rest := by
  cases lineEnd with
  | lf => exact .inl rfl
  | crlf => exact .inr (.inl rfl)
  | cr => exact .inr (.inr ⟨rfl, h rfl⟩)

theorem reads_dataLines {started : Bool} (hne : lines ≠ [])
    (hplain : ∀ line ∈ lines, '\n' ∉ line.1.toList ∧ '\r' ∉ line.1.toList)
    (hshort : ∀ line ∈ lines, (dataLine line.1).length ≤ maxSseLineBytes)
    (hfits : ((lines.map Prod.fst).foldl addValue data).utf8ByteSize ≤ maxSseEventBytes)
    (hends : EndsBefore lines rest)
    (hrest :
      Reads (collecting ((lines.map Prod.fst).foldl addValue data)) rest events fields left) :
    Reads { currentData := data, hasEventFields := started } (dataLines lines ++ rest) events
      fields left := by
  induction lines generalizing data started with
  | nil => exact absurd rfl hne
  | cons line lines ih =>
    obtain ⟨value, lineEnd⟩ := line
    obtain ⟨⟨hvalue, hplain⟩, hfirst, hshort⟩ := And.intro (forall_mem_cons.mp hplain)
      (forall_mem_cons.mp hshort)
    have htake := takeLine_dataLine started ((size_le_foldl_addValue _ _).trans hfits)
    have hbehind : Reads (collecting (addValue data value)) (dataLines lines ++ rest) events
        fields left ∧ (lineEnd = .cr → ∃ b more, dataLines lines ++ rest = b :: more ∧ b ≠ 10) := by
      cases lines with
      | nil => exact ⟨hrest, fun hcr => hends value (by rw [hcr]; rfl)⟩
      | cons next lines =>
        refine ⟨ih (by simp) hplain hshort hfits (fun v hv => hends v ?_) hrest, fun _ => ?_⟩
        · rwa [getLast?_cons_cons]
        · -- the next line begins with a letter
          exact ⟨100, _, rfl, by decide⟩
    have hall := Reads.line (unbroken_dataLine hvalue) (terminates_bytes hbehind.2) hfirst htake
      hbehind.1
    simpa [dataLines] using hall

theorem Feasible.reads (h : Feasible lines) (hne : lines ≠ []) (hends : EndsBefore lines rest)
    (hrest : Reads (collecting (gathered (lines.map Prod.fst))) rest events fields left) :
    Reads {} (dataLines lines ++ rest) events fields left :=
  reads_dataLines hne h.plain h.short ((gathered_size_le _).trans h.fits) hends hrest

theorem Feasible.feed_complete (h : Feasible lines) (hne : lines ≠ [])
    (hends : EndsBefore lines blank.bytes) (hblank : blank ≠ .cr) :
    (feed (dataLines lines ++ blank.bytes) .new).1 =
      .ok [⟨"message", gathered (lines.map Prod.fst), none, none⟩] := by
  have hterm : Terminates blank.bytes [] := terminates_bytes fun hcr => absurd hcr hblank
  have hlast : Reads (collecting (gathered (lines.map Prod.fst))) ([] ++ (blank.bytes ++ []))
      ([⟨"message", gathered (lines.map Prod.fst), none, none⟩] ++ []) {} [] :=
    .line (by simp [Unbroken]) hterm (Nat.zero_le _) rfl (.stop rfl)
  rw [nil_append, append_nil, append_nil] at hlast
  have hfeed : feed (dataLines lines ++ blank.bytes) .new = (.ok [_], .new) :=
    feed_ok_iff.mpr ⟨h.reads hne hends hlast, Nat.zero_le _⟩
  exact congrArg Prod.fst hfeed

theorem Feasible.feed_open (h : Feasible lines) (hne : lines ≠ []) (hends : EndsBefore lines rest)
    (hopen : findLineBreak rest = none) (hshort : rest.length ≤ maxSseLineBytes) :
    (feed (dataLines lines ++ rest) .new).1 = .ok [] := by
  have hfeed : feed (dataLines lines ++ rest) .new = (.ok [], ⟨_, rest⟩) :=
    feed_ok_iff.mpr ⟨h.reads hne hends (.stop hopen), hshort⟩
  exact congrArg Prod.fst hfeed

theorem Feasible.feed_pair {front : List (String × LineEnd)}
    (h : Feasible (front ++ [(value, .cr)])) :
    (feed (dataLines (front ++ [(value, .cr)]) ++ [10]) .new).1 = .ok [] := by
  have hsame : dataLines (front ++ [(value, .cr)]) ++ [10] =
      dataLines (front ++ [(value, .crlf)]) ++ [] := by
    simp [dataLines, LineEnd.bytes]
  have hpair : Feasible (front ++ [(value, .crlf)]) := by
    obtain ⟨hplain, hshort, hfits⟩ := h
    simp only [forall_mem_append, forall_mem_singleton] at hplain hshort
    refine ⟨?_, ?_, by simpa using hfits⟩
    · simpa only [forall_mem_append, forall_mem_singleton] using hplain
    · simpa only [forall_mem_append, forall_mem_singleton] using hshort
  rw [hsame]
  exact hpair.feed_open (by simp) (by simp [EndsBefore]) rfl (Nat.zero_le _)

/-- Data lines and a blank line give one event with the joined values where the first value is not
empty and the blank line is whole. -/
theorem data_lines_joined_iff (lines : List (String × LineEnd)) (hne : lines ≠ [])
    (hsome : ∃ line ∈ lines, line.1 ≠ "") (h : Feasible lines) (blank : LineEnd) :
    (∃ event, (feed (dataLines lines ++ blank.bytes) .new).1 = .ok [event] ∧
        event.data = joined (lines.map Prod.fst)) ↔
      (lines.head hne).1 ≠ "" ∧ blank ≠ .cr ∧ ¬((lines.getLast hne).2 = .cr ∧ blank = .lf) := by
  by_cases hpair : (lines.getLast hne).2 = .cr ∧ blank = .lf
  · obtain ⟨hcr, rfl⟩ := hpair
    have hlast : lines.getLast hne = ((lines.getLast hne).1, .cr) := Prod.ext rfl hcr
    have hsplit : lines.dropLast ++ [((lines.getLast hne).1, .cr)] = lines := by
      rw [← hlast, dropLast_append_getLast hne]
    rw [← hsplit] at h
    have hnone := h.feed_pair
    rw [hsplit] at hnone
    refine iff_of_false ?_ fun hall => hall.2.2 ⟨hcr, rfl⟩
    rintro ⟨event, hfeed, -⟩
    cases hnone.symm.trans hfeed
  have hends : EndsBefore lines blank.bytes := by
    intro value hvalue
    have hlast : (lines.getLast hne).2 = .cr := by
      rw [getLast?_eq_some_getLast hne, Option.some.injEq] at hvalue
      rw [hvalue]
    cases blank with
    | lf => exact absurd ⟨hlast, rfl⟩ hpair
    | cr => exact ⟨13, [], rfl, by decide⟩
    | crlf => exact ⟨13, [10], rfl, by decide⟩
  by_cases hblank : blank = .cr
  · subst hblank
    have hnone := h.feed_open hne hends rfl (by decide)
    refine iff_of_false ?_ fun hall => hall.2.1 rfl
    rintro ⟨event, hfeed, -⟩
    cases hnone.symm.trans hfeed
  · rw [h.feed_complete hne hends hblank]
    obtain ⟨first, rest, rfl⟩ := exists_cons_of_ne_nil hne
    have hvalues : ∃ v ∈ (first :: rest).map Prod.fst, v ≠ "" := by simpa using hsome
    simpa [hpair, hblank] using gathered_eq_iff hvalues

theorem data_lines_joined_trailing :
    ∃ event, (feed (dataLines [("a", .lf), ("", .cr)] ++ [13, 10]) .new).1 =
      .ok [event] ∧ event.data = "a\n" :=
  (data_lines_joined_iff [("a", .lf), ("", .cr)] (by simp) ⟨_, mem_cons_self, by simp⟩
    ⟨by simp, by decide +kernel, by decide +kernel⟩ .crlf).mpr (by simp)

theorem leading_empty_value_lost :
    (feed (dataLines [("", .lf), ("a", .lf)] ++ LineEnd.bytes .lf) .new).1 =
        .ok [⟨"message", "a", none, none⟩] ∧ joined ["", "a"] = "\na" := by
  have h : Feasible [("", .lf), ("a", .lf)] := ⟨by simp, by decide +kernel, by decide +kernel⟩
  exact ⟨h.feed_complete (by simp) (by simp [EndsBefore]) (by simp), by decide +kernel⟩

end BittyAi.Runtime
