/-
BittyAi.Session.ContentHash — the content address of
`bitty-ai-session/src/content_hash.rs`: a SHA-256 digest and its strict
lower-case hex text.
-/
import Mathlib.Data.List.Lex
import Mathlib.Order.Lattice
import BittyAi.Lib.Bytes
import BittyAi.Lib.Sha256

namespace BittyAi.Session

open Lib

structure ContentHash where
  bytes : List UInt8
  size : bytes.length = 32
  deriving DecidableEq

theorem ContentHash.bytes_injective :
    Function.Injective fun hash : ContentHash => hash.bytes.map UInt8.toNat := by
  rintro ⟨a, _⟩ ⟨b, _⟩ h
  have hab : a = b := List.map_injective_iff.mpr (fun _ _ => UInt8.toNat_inj.mp) h
  simp [hab]

instance : LinearOrder ContentHash := LinearOrder.lift' _ ContentHash.bytes_injective

def tombstoneHash : ContentHash := ⟨List.replicate 32 0, rfl⟩

inductive ContentHashError where
  | invalidHash (text : String)

/-! ## Hex digits -/

def hexDigit (n : Nat) : Char := if n < 10 then Char.ofNat (48 + n) else Char.ofNat (87 + n)

def hexValue (c : Char) : Option Nat :=
  if 48 ≤ c.toNat ∧ c.toNat ≤ 57 then some (c.toNat - 48)
  else if 97 ≤ c.toNat ∧ c.toNat ≤ 102 then some (c.toNat - 87)
  else none

def hexByte (b : UInt8) : List Char := [hexDigit (b.toNat / 16), hexDigit (b.toNat % 16)]

def unhex : List Char → Option (List UInt8)
  | [] => some []
  | [_] => none
  | hi :: lo :: rest => do
    let high ← hexValue hi
    let low ← hexValue lo
    let bytes ← unhex rest
    return UInt8.ofNat (16 * high + low) :: bytes

theorem hexValue_hexDigit : ∀ n < 16, hexValue (hexDigit n) = some n := by decide

theorem hexDigit_hexValue {c : Char} {n : Nat} (h : hexValue c = some n) :
    n < 16 ∧ hexDigit n = c := by
  unfold hexValue at h
  split at h
  · cases h
    refine ⟨by omega, ?_⟩
    rw [hexDigit, if_pos (by omega), show 48 + (c.toNat - 48) = c.toNat by omega, Char.ofNat_toNat]
  · split at h
    · cases h
      refine ⟨by omega, ?_⟩
      rw [hexDigit, if_neg (by omega), show 87 + (c.toNat - 87) = c.toNat by omega,
        Char.ofNat_toNat]
    · cases h

theorem hexByte_ofNat {high low : Nat} (hhigh : high < 16) (hlow : low < 16) :
    hexByte (UInt8.ofNat (16 * high + low)) = [hexDigit high, hexDigit low] := by
  rw [hexByte, UInt8.toNat_ofNat_of_lt' (by rw [UInt8.size]; omega)]
  rw [show (16 * high + low) / 16 = high by omega, show (16 * high + low) % 16 = low by omega]

theorem unhex_hexBytes (bytes : List UInt8) : unhex (bytes.flatMap hexByte) = some bytes := by
  induction bytes with
  | nil => rfl
  | cons b bytes ih =>
    have hb : b.toNat < 256 := b.toNat_lt
    rw [List.flatMap_cons, hexByte, List.cons_append, List.cons_append, List.nil_append, unhex,
      hexValue_hexDigit _ (by omega), hexValue_hexDigit _ (by omega), ih]
    simp only [Option.bind_eq_bind, Option.bind_some, Nat.div_add_mod, UInt8.ofNat_toNat]
    rfl

theorem eq_hexBytes_of_unhex {cs : List Char} {bytes : List UInt8} (h : unhex cs = some bytes) :
    cs = bytes.flatMap hexByte := by
  induction cs using unhex.induct generalizing bytes with
  | case1 =>
    cases h
    rfl
  | case2 => cases h
  | case3 hi lo rest ih =>
    simp only [unhex, bind, Option.bind_eq_some_iff, pure, Option.some.injEq] at h
    obtain ⟨high, hhigh, low, hlow, tail, htail, rfl⟩ := h
    obtain ⟨hlthigh, hhi⟩ := hexDigit_hexValue hhigh
    obtain ⟨hltlow, hlo⟩ := hexDigit_hexValue hlow
    rw [List.flatMap_cons, hexByte_ofNat hlthigh hltlow, hhi, hlo, ← ih htail]
    rfl

namespace ContentHash

def compute (data : List UInt8) : ContentHash := ⟨Sha256.digest data, Sha256.length_digest data⟩

def toHex (hash : ContentHash) : String := String.ofList (hash.bytes.flatMap hexByte)

def fromHex (text : String) : Except ContentHashError ContentHash :=
  match unhex text.toList with
  | some bytes => if h : bytes.length = 32 then .ok ⟨bytes, h⟩ else .error (.invalidHash text)
  | none => .error (.invalidHash text)

theorem fromHex_eq_ok {text : String} {hash : ContentHash} :
    fromHex text = .ok hash ↔ text = hash.toHex := by
  constructor
  · intro h
    unfold fromHex at h
    cases hbytes : unhex text.toList with
    | none => simp [hbytes] at h
    | some bytes =>
      simp only [hbytes] at h
      split at h
      · cases h
        rw [toHex, ← eq_hexBytes_of_unhex hbytes, String.ofList_toList]
      · cases h
  · rintro rfl
    simp [fromHex, toHex, unhex_hexBytes, hash.size]

theorem mem_toHex {hash : ContentHash} {c : Char} (h : c ∈ hash.toHex.toList) :
    ∃ n < 16, c = hexDigit n := by
  rw [toHex, String.toList_ofList] at h
  obtain ⟨b, -, hb⟩ := List.mem_flatMap.mp h
  have hlow := b.toNat_lt
  simp only [hexByte, List.mem_cons, List.not_mem_nil, or_false] at hb
  rcases hb with rfl | rfl
  · exact ⟨_, by omega, rfl⟩
  · exact ⟨_, by omega, rfl⟩

theorem length_toHex (hash : ContentHash) : hash.toHex.toList.length = 64 := by
  rw [toHex, String.toList_ofList, List.length_flatMap]
  simp [hexByte, hash.size]

theorem toHex_inj {a b : ContentHash} : a.toHex = b.toHex ↔ a = b := by
  refine ⟨fun h => ?_, fun h => by rw [h]⟩
  have hb := fromHex_eq_ok.mpr h
  rw [fromHex_eq_ok.mpr rfl] at hb
  exact Except.ok.inj hb

end ContentHash

end BittyAi.Session
