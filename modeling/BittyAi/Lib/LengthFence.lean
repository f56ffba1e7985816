/-
BittyAi.Lib.LengthFence — length-prefixed fences in a byte string.

A fence header is an opening marker, a length in decimal and a closing marker; the declared
number of octets after it is the fenced region. `read` finds the first header of a text and
returns where its region starts and how long it is declared to be. Nothing is escaped: what
makes a fence readable is that no header starts in front of it.
-/
import BittyAi.Lib.Text
import BittyAi.Lib.Utf8

namespace BittyAi.Lib

open List

/-! ## Decimal octets -/

def isDigitOctet (b : UInt8) : Bool := 0x30 ≤ b && b ≤ 0x39

def decimalOctets (n : Nat) : List UInt8 := (Nat.toDigits 10 n).map fun c => UInt8.ofNat c.toNat

def decimalValue (digits : List UInt8) : Nat := digits.foldl (fun n b => 10 * n + (b.toNat - 48)) 0

variable {c : Char}

theorem toNat_of_isDigit (h : c.isDigit = true) : 48 ≤ c.toNat ∧ c.toNat ≤ 57 := by
  rw [Char.isDigit, Bool.and_eq_true, decide_eq_true_iff, decide_eq_true_iff] at h
  exact h

theorem toNat_digitOctet (h : c.isDigit = true) : (UInt8.ofNat c.toNat).toNat = c.toNat := by
  have hrange := toNat_of_isDigit h
  rw [UInt8.toNat_ofNat']
  omega

theorem isDigit_of_mem_digits {n : Nat} (h : c ∈ Nat.toDigits 10 n) :
    c.isDigit = true := Nat.isDigit_of_mem_toDigits (by decide) (by decide) h

theorem utf8Bytes_toString (n : Nat) : utf8Bytes (toString n) = decimalOctets n := by
  rw [utf8Bytes_eq_encode, encode, Nat.toString_eq_repr, Nat.repr_eq_ofList_toDigits,
    String.toList_ofList, decimalOctets, map_eq_flatMap]
  refine flatMap_congr fun c hc => ?_
  have hrange := toNat_of_isDigit (isDigit_of_mem_digits hc)
  rw [String.utf8EncodeChar]
  exact if_pos (show c.toNat ≤ 127 by omega)

variable {b : UInt8}

theorem isDigitOctet_of_mem {n : Nat} (h : b ∈ decimalOctets n) : isDigitOctet b = true := by
  obtain ⟨c, hc, rfl⟩ := mem_map.mp h
  have hdigit := isDigit_of_mem_digits hc
  have hrange := toNat_of_isDigit hdigit
  have hvalue := toNat_digitOctet hdigit
  simp only [isDigitOctet, Bool.and_eq_true, decide_eq_true_eq, UInt8.le_iff_toNat_le, hvalue]
  exact hrange

theorem decimalOctets_ne_nil (n : Nat) : decimalOctets n ≠ [] := by
  have hpos := Nat.length_toDigits_pos (b := 10) (n := n)
  rw [decimalOctets, ne_eq, map_eq_nil_iff]
  exact ne_nil_of_length_pos hpos

@[simp] theorem decimalValue_decimalOctets (n : Nat) : decimalValue (decimalOctets n) = n := by
  have hfold : ∀ (cs : List Char) (k : Nat), (∀ c ∈ cs, c.isDigit = true) →
      (cs.map fun c => UInt8.ofNat c.toNat).foldl (fun n b => 10 * n + (b.toNat - 48)) k =
        Nat.ofDigitChars 10 cs k := by
    intro cs
    induction cs with
    | nil => exact fun k _ => rfl
    | cons c cs ih =>
      intro k h
      obtain ⟨hc, hcs⟩ := forall_mem_cons.mp h
      rw [map_cons, foldl_cons, ih _ hcs, toNat_digitOctet hc]
      rfl
  rw [decimalValue, decimalOctets, hfold _ 0 fun c hc => isDigit_of_mem_digits hc,
    Nat.ofDigitChars_toDigits (by decide) (by decide)]

/-! ## Headers -/

/-- The markers of a fence. The closing marker ends in `stop`, `last`; `stop`
stands nowhere else in a header. -/
structure Fence where
  opening : List UInt8
  middle : List UInt8
  stop : UInt8
  last : UInt8
  opens : opening ≠ []
  stop_opening : stop ∉ opening
  stop_middle : stop ∉ middle
  stop_digit : isDigitOctet stop = false
  stop_last : stop ≠ last
  ends : ∀ b ∈ (middle ++ [stop]).head?, isDigitOctet b = false

variable {bytes rest : List UInt8} {found : Nat × Nat}

namespace Fence

variable (f : Fence)

def closing : List UInt8 := f.middle ++ [f.stop, f.last]

/-- The header of a fence that declares `n` octets. -/
def header (n : Nat) : List UInt8 := f.opening ++ (decimalOctets n ++ f.closing)

/-- A fence of two texts with a colon in front of the second, closed by `]` and a line feed. -/
def bracketed (opening note : String)
    (hopening : utf8Bytes opening ≠ [] ∧ 0x5d ∉ utf8Bytes opening)
    (hnote : 0x5d ∉ utf8Bytes ": " ++ utf8Bytes note) : Fence where
  opening := utf8Bytes opening
  middle := utf8Bytes ": " ++ utf8Bytes note
  stop := 0x5d
  last := 0x0a
  opens := hopening.1
  stop_opening := hopening.2
  stop_middle := hnote
  stop_digit := rfl
  stop_last := by decide
  ends := by
    rw [show utf8Bytes ": " = [0x3a, 0x20] by decide +kernel]
    simp [isDigitOctet]

theorem utf8Bytes_bracketed {opening note : String}
    {hopening : utf8Bytes opening ≠ [] ∧ 0x5d ∉ utf8Bytes opening}
    {hnote : 0x5d ∉ utf8Bytes ": " ++ utf8Bytes note} (n : Nat) :
    utf8Bytes (opening ++ (toString n ++ (": " ++ note ++ "]\n"))) =
      (bracketed opening note hopening hnote).header n := by
  have hend : utf8Bytes "]\n" = [0x5d, 0x0a] := by decide +kernel
  rw [utf8Bytes_append, utf8Bytes_append, utf8Bytes_append, utf8Bytes_append,
    utf8Bytes_toString, hend]
  rfl

def headerAt (bytes : List UInt8) : Option (Nat × Nat) :=
  if f.opening.isPrefixOf bytes then
    let rest := bytes.drop f.opening.length
    let digits := rest.takeWhile isDigitOctet
    if digits ≠ [] ∧ f.closing.isPrefixOf (rest.drop digits.length) then
      some (f.opening.length + digits.length + f.closing.length, decimalValue digits)
    else none
  else none

def read : List UInt8 → Option (Nat × Nat)
  | [] => none
  | b :: rest =>
    match f.headerAt (b :: rest) with
    | some found => some found
    | none => (read rest).map fun found => (found.1 + 1, found.2)

variable {f}

structure StartsWith (f : Fence) (bytes digits rest : List UInt8) : Prop where
  split : bytes = f.opening ++ (digits ++ (f.closing ++ rest))
  some_digit : digits ≠ []
  all_digits : ∀ b ∈ digits, isDigitOctet b = true

theorem StartsWith.takeWhile {digits : List UInt8} (h : StartsWith f bytes digits rest) :
    (digits ++ (f.closing ++ rest)).takeWhile isDigitOctet = digits := by
  rw [takeWhile_append_of_pos h.all_digits]
  have hends := f.ends
  rw [closing]
  cases hmiddle : f.middle with
  | nil => simp [f.stop_digit]
  | cons b middle =>
    rw [hmiddle] at hends
    simp [hends b rfl]

theorem headerAt_eq_some_iff :
    f.headerAt bytes = some found ↔ ∃ digits rest, StartsWith f bytes digits rest ∧
      found = (f.opening.length + digits.length + f.closing.length, decimalValue digits) := by
  constructor
  · intro h
    unfold headerAt at h
    split at h
    next hopening =>
      obtain ⟨rest, rfl⟩ := isPrefixOf_iff_prefix.mp hopening
      rw [drop_left] at h
      dsimp only at h
      split at h
      next hfound =>
        obtain ⟨hdigits, hclosing⟩ := hfound
        obtain ⟨rest', hrest'⟩ := isPrefixOf_iff_prefix.mp hclosing
        refine ⟨_, rest', ⟨?_, hdigits, fun b hb => ?_⟩, (Option.some.inj h).symm⟩
        · rw [hrest']
          exact congrArg _ (prefix_iff_eq_append.mp ( takeWhile_prefix _)).symm
        · exact all_eq_true.mp all_takeWhile b hb
      next => cases h
    next => cases h
  · rintro ⟨digits, rest, hstarts, rfl⟩
    have hopening : f.opening.isPrefixOf bytes = true :=
      isPrefixOf_iff_prefix.mpr ⟨_, hstarts.split.symm⟩
    have hclosing : f.closing.isPrefixOf (f.closing ++ rest) = true :=
      isPrefixOf_iff_prefix.mpr ⟨_, rfl⟩
    rw [headerAt, if_pos hopening, hstarts.split]
    simp only [drop_left, hstarts.takeWhile]
    rw [if_pos ⟨hstarts.some_digit, hclosing⟩]

theorem headerAt_header (n : Nat) (rest : List UInt8) :
    f.headerAt (f.header n ++ rest) = some ((f.header n).length, n) := by
  rw [headerAt_eq_some_iff]
  refine ⟨decimalOctets n, rest, ⟨?_, decimalOctets_ne_nil n, fun b => isDigitOctet_of_mem⟩, ?_⟩
  · simp [header]
  · simp [header, Nat.add_assoc]

theorem headerAt_append {more : List UInt8}
    (h : f.headerAt bytes = some found) : f.headerAt (bytes ++ more) = some found := by
  obtain ⟨digits, rest, hstarts, rfl⟩ := headerAt_eq_some_iff.mp h
  refine headerAt_eq_some_iff.mpr ⟨digits, rest ++ more, ⟨?_, hstarts.some_digit,
    hstarts.all_digits⟩, rfl⟩
  rw [hstarts.split]
  simp

theorem headerAt_of_head (h : some b ≠ f.opening.head?) : f.headerAt (b :: rest) = none := by
  rw [headerAt, if_neg]
  intro hopening
  obtain ⟨more, hsplit⟩ := isPrefixOf_iff_prefix.mp hopening
  cases hmarker : f.opening with
  | nil => exact f.opens hmarker
  | cons c marker =>
    rw [hmarker] at hsplit h
    exact h (congrArg some (cons.inj hsplit).1.symm)

/-- The last octet but one of a header stops it: where another octet follows, the
header would have to go on. -/
theorem headerAt_stop {other : UInt8} (hother : other ≠ f.last) (bytes more : List UInt8) :
    f.headerAt (bytes ++ f.stop :: other :: more) = f.headerAt bytes := by
  cases hfound : f.headerAt bytes with
  | some found => exact headerAt_append hfound
  | none =>
    rw [Option.eq_none_iff_forall_ne_some]
    intro found hcross
    obtain ⟨digits, rest, hstarts, rfl⟩ := headerAt_eq_some_iff.mp hcross
    have hstop : f.stop ∉ f.opening ++ (digits ++ f.middle) := by
      simp only [mem_append, not_or]
      refine ⟨f.stop_opening, fun hmem => ?_, f.stop_middle⟩
      exact absurd (hstarts.all_digits _ hmem) (by simp [f.stop_digit])
    have hsplit : bytes ++ f.stop :: other :: more =
        (f.opening ++ (digits ++ f.middle)) ++ f.stop :: f.last :: rest := by
      rw [hstarts.split, closing]
      simp
    rcases append_eq_append_iff.mp hsplit with ⟨as, has, hmore⟩ | ⟨bs, hbs, hrest⟩
    · -- the text ends inside the header
      cases as with
      | nil => exact hother (cons.inj (cons.inj hmore).2).1
      | cons a as =>
        refine hstop (has ▸ mem_append_right _ ?_)
        exact (cons.inj hmore).1 ▸ mem_cons_self
    · -- the header ends inside the text, or one octet behind it
      match bs, hrest with
      | [], hrest => exact hother (cons.inj (cons.inj hrest).2).1.symm
      | [_], hrest => exact f.stop_last (cons.inj (cons.inj hrest).2).1.symm
      | _ :: _ :: bs, hrest =>
        have hin : StartsWith f bytes digits bs := by
          refine ⟨?_, hstarts.some_digit, hstarts.all_digits⟩
          rw [hbs, closing, ← (cons.inj hrest).1, ← (cons.inj (cons.inj hrest).2).1]
          simp
        have hsome := headerAt_eq_some_iff.mpr ⟨digits, bs, hin, rfl⟩
        rw [hfound] at hsome
        cases hsome

/-! ## Reading -/

def shift (k : Nat) (found : Nat × Nat) : Nat × Nat := (found.1 + k, found.2)

theorem read_cons_none (h : f.headerAt (b :: rest) = none) :
    f.read (b :: rest) = (f.read rest).map (shift 1) := by
  rw [read, h]
  rfl

theorem map_shift_shift (o : Option (Nat × Nat)) (j k : Nat) :
    (o.map (shift j)).map (shift k) = o.map (shift (j + k)) := by
  cases o <;> simp [shift, Nat.add_assoc]

theorem read_skip {front : List UInt8} (h : ∀ b ∈ front, some b ≠ f.opening.head?)
    (rest : List UInt8) : f.read (front ++ rest) = (f.read rest).map (shift front.length) := by
  induction front with
  | nil => cases hread : f.read rest <;> simp [hread, shift]
  | cons b front ih =>
    obtain ⟨hb, hfront⟩ := forall_mem_cons.mp h
    rw [cons_append, read_cons_none (headerAt_of_head hb), ih hfront, map_shift_shift]
    rfl

theorem read_stop {other : UInt8} (hother : other ≠ f.last) (front more : List UInt8) :
    f.read (front ++ f.stop :: other :: more) =
      (f.read front).or ((f.read (f.stop :: other :: more)).map (shift front.length)) := by
  induction front with
  | nil => cases hread : f.read (f.stop :: other :: more) <;> simp [hread, read, shift]
  | cons b front ih =>
    have hhead := headerAt_stop hother (b :: front) more
    rw [cons_append] at hhead
    cases hfound : f.headerAt (b :: front) with
    | some found => rw [cons_append, read, read, hhead, hfound, Option.some_or]
    | none =>
      rw [cons_append, read_cons_none (hhead.trans hfound), read_cons_none hfound, ih]
      cases f.read front with
      | some found => rfl
      | none => exact map_shift_shift _ front.length 1

theorem read_header (n : Nat) (rest : List UInt8) :
    f.read (f.header n ++ rest) = some ((f.header n).length, n) := by
  cases hsplit : f.header n ++ rest with
  | nil =>
    have hopening := (append_eq_nil_iff.mp (append_eq_nil_iff.mp hsplit).1).1
    exact absurd hopening f.opens
  | cons b more => rw [read, ← hsplit, headerAt_header]

theorem read_bounds (h : f.read bytes = some found) : 0 < found.1 ∧ found.1 ≤ bytes.length := by
  induction bytes generalizing found with
  | nil => cases h
  | cons b rest ih =>
    rw [read] at h
    split at h
    next hfound =>
      obtain ⟨digits, rest', hstarts, hpair⟩ := headerAt_eq_some_iff.mp hfound
      obtain rfl := Option.some.inj h
      have hopens := length_pos_iff.mpr f.opens
      have hlength := congrArg length hstarts.split
      simp only [length_append] at hlength
      rw [hpair]
      constructor <;> dsimp only <;> omega
    next =>
      obtain ⟨found', hread, rfl⟩ := Option.map_eq_some_iff.mp h
      have hbounds := ih hread
      simp only [length_cons]
      omega

end Fence

end BittyAi.Lib
