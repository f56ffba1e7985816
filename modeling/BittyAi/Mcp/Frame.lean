/-
BittyAi.Mcp.Frame — the line framing of `bitty-ai-mcp/src/frame.rs`.

A `BufRead` may expose any non-empty part of the bytes to come at each `fill_buf`.
-/
import BittyAi.Lib.Utf8
import BittyAi.Mcp.Error
import BittyAi.Mcp.Json

namespace BittyAi.Mcp

open Lib List

/-! ## One line -/

def maxFrameBytes : Nat := 256 * 1024

def tooLarge (actual : Nat) : McpError := ⟨.frame, .frameTooLarge maxFrameBytes actual⟩

def checkFrameLen (len : Nat) : Except McpError Unit :=
  if len > maxFrameBytes then .error (tooLarge len) else .ok ()

structure FrameStats where
  received : Nat
  droppedMalformed : Nat
  rejectedOversize : Nat

def decodeLine (raw : List UInt8) (stats : FrameStats) : Option Text × FrameStats :=
  let dropped := { stats with droppedMalformed := stats.droppedMalformed + 1 }
  match fromUtf8? raw with
  | none => (none, dropped)
  | some text =>
    let trimmed := trimChars text.toList
    if trimmed.isEmpty then (none, dropped)
    else if trimmed.head? ≠ some '\x7b' ∨ trimmed.getLast? ≠ some '\x7d' then (none, dropped)
    else (some text.toList, { stats with received := stats.received + 1 })

/-! ## Reading lines -/

/-- A `BufRead` without read errors: the bytes to come, and how many more than one of them the
`n`-th `fill_buf` from here exposes. -/
structure Reader where
  rest : List UInt8
  window : Nat → Nat

/-- The locals of the inner loop of `next_line`. -/
structure Probe where
  reader : Reader
  raw : List UInt8 := []
  retained : Nat := 0
  sawNewline : Bool := false
  eof : Bool := false

namespace Probe

def take (p : Probe) (bytes : List UInt8) : Probe :=
  { p with
    raw := if p.retained < maxFrameBytes + 1 then
        p.raw ++ bytes.take (min bytes.length (maxFrameBytes + 1 - p.retained))
      else p.raw
    retained := p.retained + bytes.length
    reader := ⟨p.reader.rest.drop bytes.length, fun n => p.reader.window (n + 1)⟩ }

def step (p : Probe) : Probe :=
  let available := p.reader.rest.take (p.reader.window 0 + 1)
  if available.isEmpty then { p with eof := true }
  else match available.findIdx? (· = 0x0A) with
    | some offset => { p.take (available.take (offset + 1)) with sawNewline := true }
    | none => p.take available

theorem step_cases (p : Probe) :
    (p.reader.rest = [] ∧ p.step = { p with eof := true }) ∨
      (∃ front more, p.reader.rest = front ++ 0x0A :: more ∧ 0x0A ∉ front ∧
        p.step = { p.take (front ++ [0x0A]) with sawNewline := true }) ∨
      ∃ bytes more, p.reader.rest = bytes ++ more ∧ bytes ≠ [] ∧ 0x0A ∉ bytes ∧
        p.step = p.take bytes := by
  obtain ⟨later, hrest⟩ : ∃ later, p.reader.rest =
      p.reader.rest.take (p.reader.window 0 + 1) ++ later :=
    ⟨_, (take_append_drop _ _).symm⟩
  by_cases hempty : p.reader.rest.take (p.reader.window 0 + 1) = []
  · exact .inl ⟨by simpa using hempty, by simp [step, hempty]⟩
  · right
    rw [step]
    generalize p.reader.rest.take (p.reader.window 0 + 1) = available at *
    rw [if_neg (by simpa using hempty)]
    cases hfound : available.findIdx? (· = 0x0A) with
    | none =>
      have hnone : 0x0A ∉ available := fun h => by simpa using findIdx?_eq_none_iff.mp hfound _ h
      exact .inr ⟨_, _, hrest, hempty, hnone, rfl⟩
    | some offset =>
      obtain ⟨hlt, hbyte, hbefore⟩ := findIdx?_eq_some_iff_getElem.mp hfound
      have htake : available.take (offset + 1) = available.take offset ++ [0x0A] := by
        rw [take_succ_eq_append_getElem hlt, of_decide_eq_true hbyte]
      refine .inl ⟨available.take offset, available.drop (offset + 1) ++ later, ?_, ?_,
        by rw [← htake]⟩
      · rw [hrest]
        conv_lhs => rw [← available.take_append_drop (offset + 1), htake]
        simp
      · intro hmem
        obtain ⟨i, hi, hget⟩ := mem_iff_getElem.mp hmem
        have hnot := hbefore i (by simp at hi; omega)
        simp at hget hnot
        exact hnot hget

def left (p : Probe) : Nat := p.reader.rest.length + if p.eof then 0 else 1

theorem left_step {p : Probe} (h : p.eof = false) : p.step.left < p.left := by
  obtain ⟨hrest, hstep⟩ | ⟨front, more, hrest, -, hstep⟩ | ⟨bytes, more, hrest, hne, -, hstep⟩ :=
    p.step_cases
  · simp [hstep, left, h, hrest]
  · simp [hstep, left, take, h, hrest]
  · have := length_pos_iff.mpr hne
    simp [hstep, left, take, h, hrest]
    omega

def run (p : Probe) : Probe :=
  if p.sawNewline ∨ p.eof then p else p.step.run
termination_by p.left
decreasing_by exact left_step (by simp_all)

def Holds (p : Probe) (sofar : List UInt8) : Prop :=
  p.raw = sofar.take (maxFrameBytes + 1) ∧ p.retained = sofar.length

theorem Holds.take {p : Probe} {sofar : List UInt8} (h : p.Holds sofar) (bytes : List UInt8) :
    (p.take bytes).Holds (sofar ++ bytes) := by
  obtain ⟨hraw, hretained⟩ := h
  refine ⟨?_, by simp [Probe.take, hretained]⟩
  simp only [Probe.take, hraw, hretained, take_append]
  split
  · congr 1
    rw [take_eq_take_iff]
    omega
  · rw [show maxFrameBytes + 1 - sofar.length = 0 by omega]
    simp

theorem holds_start (reader : Reader) : Holds { reader } [] := ⟨rfl, rfl⟩

theorem run_spec (p : Probe) {sofar : List UInt8} (hnew : p.sawNewline = false)
    (heof : p.eof = false) (h : p.Holds sofar) :
    ∃ line more, p.reader.rest = line ++ more ∧ p.run.reader.rest = more ∧
      p.run.Holds (sofar ++ line) ∧
      (p.run.eof = true ∧ 0x0A ∉ line ∧ more = [] ∨
        p.run.eof = false ∧ ∃ front, 0x0A ∉ front ∧ line = front ++ [0x0A]) := by
  fun_induction run p generalizing sofar with
  | case1 p hstop => simp [hnew, heof] at hstop
  | case2 p hgo ih =>
    obtain ⟨hrest, hstep⟩ | ⟨front, more, hrest, hfront, hstep⟩ |
      ⟨bytes, more, hrest, hne, hbytes, hstep⟩ := p.step_cases
    · rw [hstep, run, if_pos (.inr rfl)]
      exact ⟨[], [], by simpa using hrest, hrest, by simpa [Holds] using h,
        .inl ⟨rfl, by simp, rfl⟩⟩
    · rw [hstep, run, if_pos (.inl rfl)]
      exact ⟨front ++ [0x0A], more, by simp [hrest], by simp [Probe.take, hrest], h.take _,
        .inr ⟨heof, front, hfront, rfl⟩⟩
    · obtain ⟨line, after, hmore, hread, hholds, hend⟩ :=
        ih (by simp [hstep, Probe.take, hnew]) (by simp [hstep, Probe.take, heof])
          (hstep ▸ h.take bytes)
      have hsplit : more = line ++ after := by simpa [hstep, Probe.take, hrest] using hmore
      refine ⟨bytes ++ line, after, by simp [hrest, hsplit], hread, by simpa using hholds, ?_⟩
      obtain ⟨hstopped, hline, hafter⟩ | ⟨hstopped, front, hfront, rfl⟩ := hend
      · exact .inl ⟨hstopped, by simp [hbytes, hline], hafter⟩
      · exact .inr ⟨hstopped, bytes ++ front, by simp [hbytes, hfront], by simp⟩

end Probe

def stripEnding (raw : List UInt8) : List UInt8 :=
  if raw.getLast? = some 0x0A then
    if raw.dropLast.getLast? = some 0x0D then raw.dropLast.dropLast else raw.dropLast
  else raw

def nextLine (reader : Reader) (stats : FrameStats) :
    Except McpError (Option Text) × Reader × FrameStats :=
  let p := Probe.run { reader }
  if p.eof ∧ p.raw.isEmpty then (.ok none, p.reader, stats)
  else
    let raw := stripEnding p.raw
    if p.retained > maxFrameBytes then
      (.error (tooLarge (min raw.length (maxFrameBytes + 1))), p.reader,
        { stats with rejectedOversize := stats.rejectedOversize + 1 })
    else if p.eof ∧ raw.isEmpty then (.ok none, p.reader, stats)
    else match decodeLine raw stats with
      | (some line, stats) => (.ok (some line), p.reader, stats)
      | (none, stats) =>
        if p.eof then (.ok none, p.reader, stats) else nextLine p.reader stats
termination_by reader.rest.length
decreasing_by
  obtain ⟨line, more, hrest, hmore, -, ⟨heof, -⟩ | ⟨-, front, -, rfl⟩⟩ :=
    Probe.run_spec { reader } rfl rfl (Probe.holds_start reader)
  · contradiction
  · rw [hmore, show reader.rest = _ from hrest]
    simp only [length_append, length_singleton]
    omega

end BittyAi.Mcp
