/-
BittyAi.Mcp.Json — the hand-rolled JSON helpers of `bitty-ai-mcp/src/json.rs`.

A `&str` is its list of characters. The source walks byte offsets; every offset
it slices at stands next to an ASCII byte, so a position is the list that is left
from there. The exception is the four-byte slice after `\u`, which can end inside
a character: there the source panics, and the model returns `Panic`.
-/
import Mathlib.Algebra.Order.Ring.Nat
import BittyAi.Lib.Text

namespace BittyAi.Mcp

open Lib

abbrev Text := List Char

/-- Ways in which the helpers can panic: a slice of a `&str`, or a depth below zero. -/
inductive Panic where
  | outOfRange
  | midCharacter
  | underflow
  deriving DecidableEq

abbrev Panicking (α : Type) := Except Panic α

/-! ## Escaping -/

/-- The digits of `{:04x}` for a control character. -/
def hexPair (n : Nat) : Text :=
  let digit (k : Nat) : Char := if k < 10 then Char.ofNat (48 + k) else Char.ofNat (87 + k)
  ['0', '0', digit (n / 16), digit (n % 16)]

/-- One character of Rust `escape_into`. -/
def escapeChar (c : Char) : Text :=
  if c = '"' then ['\\', '"']
  else if c = '\\' then ['\\', '\\']
  else if c = '\n' then ['\\', 'n']
  else if c = '\r' then ['\\', 'r']
  else if c = '\t' then ['\\', 't']
  else if c = '\x08' then ['\\', 'b']
  else if c = '\x0c' then ['\\', 'f']
  else if c.toNat < 0x20 then '\\' :: 'u' :: hexPair c.toNat
  else [c]

def escaped (value : Text) : Text := value.flatMap escapeChar

/-! ## Characters -/

def isAsciiWhitespace (c : Char) : Bool := c = ' ' || c = '\t' || c = '\n' || c = '\x0c' || c = '\r'

def byteLen (text : Text) : Nat := (text.map Char.utf8Size).sum

/-! ## Looking up a key -/

def keyPattern (key : Text) : Text := '"' :: key ++ ['"']

/-- The text from the value of the first `"key"` that is followed by a colon. -/
def valueOffset (key : Text) : Text → Option Text
  | [] => none
  | c :: rest =>
    if (keyPattern key).isPrefixOf (c :: rest) then
      match ((c :: rest).drop (keyPattern key).length).dropWhile isAsciiWhitespace with
      | ':' :: value => some (value.dropWhile isAsciiWhitespace)
      | _ => valueOffset key rest
    else valueOffset key rest

/-! ## String values -/

def simpleEscape (c : Char) : Option Char :=
  if c = '"' then some '"'
  else if c = '\\' then some '\\'
  else if c = '/' then some '/'
  else if c = 'b' then some '\x08'
  else if c = 'f' then some '\x0c'
  else if c = 'n' then some '\n'
  else if c = 'r' then some '\r'
  else if c = 't' then some '\t'
  else none

def hexDigit (c : Char) : Option Nat :=
  if '0' ≤ c ∧ c ≤ '9' then some (c.toNat - 48)
  else if 'a' ≤ c ∧ c ≤ 'f' then some (c.toNat - 87)
  else if 'A' ≤ c ∧ c ≤ 'F' then some (c.toNat - 55)
  else none

/-- Rust `u32::from_str_radix(_, 16)`: a plus sign is accepted in front. -/
def fromHex (digits : Text) : Option Nat :=
  let body := match digits with
    | '+' :: rest => rest
    | _ => digits
  if body.isEmpty then none
  else body.foldlM (fun n c => (hexDigit c).map (16 * n + ·)) 0

def charOfCode (code : Nat) : Option Char :=
  if h : code.isValidChar then some (Char.ofNatAux code h) else none

/-- Whether byte offset `n` is a character boundary. -/
def boundaryAt : Nat → Text → Bool
  | 0, _ => true
  | _ + 1, [] => false
  | n + 1, c :: rest => decide (c.utf8Size ≤ n + 1) && boundaryAt (n + 1 - c.utf8Size) rest

/-- The four-byte slice after `\u` where it is not four ASCII characters: too
short, no hexadecimal number, or cut inside a character. -/
def badSlice (rest : Text) : Panicking (Option Text) :=
  if byteLen rest < 4 then .ok none
  else if boundaryAt 4 rest then .ok none
  else .error .midCharacter

/-- The loop of `find_string_field`, from behind the opening quote. -/
def readString : Text → Text → Panicking (Option Text)
  | [], _ => .ok none
  | '"' :: _, out => .ok (some out.reverse)
  | ['\\'], _ => .ok none
  | '\\' :: 'u' :: a :: b :: c :: d :: rest, out =>
    if [a, b, c, d].all fun x => x.utf8Size = 1 then
      match (fromHex [a, b, c, d]).bind charOfCode with
      | some character => readString rest (character :: out)
      | none => .ok none
    else badSlice (a :: b :: c :: d :: rest)
  | '\\' :: 'u' :: rest, _ => badSlice rest
  | '\\' :: c :: rest, out =>
    match simpleEscape c with
    | some character => readString rest (character :: out)
    | none => .ok none
  | c :: rest, out => readString rest (c :: out)

variable {c : Char} {rest out : Text}

theorem readString_cons (hquote : c ≠ '"') (hescape : c ≠ '\\') :
    readString (c :: rest) out = readString rest (c :: out) := by
  rw [readString]
  all_goals simp_all

theorem readString_escape {letter : Char} (h : simpleEscape letter = some c) :
    readString ('\\' :: letter :: rest) out = readString rest (c :: out) := by
  have hu : letter ≠ 'u' := by
    rintro rfl
    cases h
  rw [readString]
  all_goals simp_all

def findStringField (line key : Text) : Panicking (Option Text) :=
  match valueOffset key line with
  | some ('"' :: rest) => readString rest []
  | _ => .ok none

/-! ## Raw values -/

def rawString : Text → Text → Option Text
  | [], _ => none
  | '"' :: _, out => some out.reverse
  | ['\\'], _ => none
  | '\\' :: c :: rest, out => rawString rest (c :: '\\' :: out)
  | c :: rest, out => rawString rest (c :: out)

/-- Rust `balanced_end`: the text up to the delimiter that closes the first
character, respecting strings and escapes. -/
def balanced (opening closing : Char) : Nat → Bool → Text → Text → Option Text
  | _, _, [], _ => none
  | _, true, ['\\'], _ => none
  | depth, true, '\\' :: c :: rest, out =>
    balanced opening closing depth true rest (c :: '\\' :: out)
  | depth, true, c :: rest, out => balanced opening closing depth (c != '"') rest (c :: out)
  | depth, false, c :: rest, out =>
    if c = '"' then balanced opening closing depth true rest (c :: out)
    else if c = opening then balanced opening closing (depth + 1) false rest (c :: out)
    else if c = closing then
      if depth - 1 = 0 then some (c :: out).reverse
      else balanced opening closing (depth - 1) false rest (c :: out)
    else balanced opening closing depth false rest (c :: out)

def endsToken (c : Char) : Bool := c = ',' || c = '}' || c = ']'

def findRawField (line key : Text) : Option Text :=
  match valueOffset key line with
  | none => none
  | some [] => none
  | some ('"' :: rest) => rawString rest []
  | some ('{' :: rest) => balanced '{' '}' 0 false ('{' :: rest) []
  | some ('[' :: rest) => balanced '[' ']' 0 false ('[' :: rest) []
  | some value =>
    let token := trimChars (value.takeWhile fun c => !endsToken c)
    if token.isEmpty then none else some token

def findObjectField (line key : Text) : Option Text :=
  match findRawField line key with
  | some ('{' :: rest) => some ('{' :: rest)
  | _ => none

def findBoolField (line key : Text) : Option Bool :=
  match findRawField line key with
  | some raw =>
    if raw = "true".toList then some true
    else if raw = "false".toList then some false
    else none
  | none => none

def hasMethod (line : Text) : Panicking Bool :=
  (findStringField line "method".toList).map (·.isSome)

end BittyAi.Mcp
