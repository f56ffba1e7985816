/-
BittyAi.Lib.Bytes — the UTF-8 bytes of a text as a list, and numbers in big-endian
bytes.

Byte strings are lists of octets throughout; a text is measured by its encoded
length, so `utf8Bytes` and `String.utf8ByteSize` are tied together here once.
-/
import Mathlib.Data.List.Basic
import Mathlib.Data.List.Induction

namespace BittyAi.Lib

open List

def utf8Bytes (s : String) : List UInt8 := s.toByteArray.data.toList

@[simp] theorem length_utf8Bytes (s : String) : (utf8Bytes s).length = s.utf8ByteSize :=
  Array.length_toList

@[simp] theorem utf8Bytes_append (s t : String) :
    utf8Bytes (s ++ t) = utf8Bytes s ++ utf8Bytes t := by
  simp [utf8Bytes]

@[simp] theorem utf8Bytes_empty : utf8Bytes "" = [] := rfl

theorem utf8Bytes_inj {s t : String} : utf8Bytes s = utf8Bytes t ↔ s = t := by
  refine ⟨fun h => ?_, fun h => by rw [h]⟩
  rw [← String.toByteArray_inj]
  exact ByteArray.ext (Array.toList_inj.mp h)

/-- The `width` low bytes of a number, the most significant first. -/
def beBytes : Nat → Nat → List UInt8
  | 0, _ => []
  | width + 1, n => UInt8.ofNat (n >>> (8 * width)) :: beBytes width n

def ofBeBytes (bytes : List UInt8) : Nat := bytes.foldl (fun n b => 256 * n + b.toNat) 0

@[simp] theorem length_beBytes (width n : Nat) : (beBytes width n).length = width := by
  induction width with
  | zero => rfl
  | succ width ih => rw [beBytes, length_cons, ih]

theorem foldl_beBytes (width n : Nat) :
    (beBytes width n).foldl (fun n b => 256 * n + b.toNat) (n >>> (8 * width)) = n := by
  induction width with
  | zero => rfl
  | succ width ih =>
    have hstep : 256 * (n >>> (8 * (width + 1))) + (UInt8.ofNat (n >>> (8 * width))).toNat =
        n >>> (8 * width) := by
      rw [Nat.mul_succ, Nat.shiftRight_add, UInt8.toNat_ofNat']
      generalize n >>> (8 * width) = high
      rw [Nat.shiftRight_eq_div_pow]
      omega
    rw [beBytes, foldl_cons, hstep, ih]

theorem ofBeBytes_beBytes {width n : Nat} (h : n >>> (8 * width) = 0) :
    ofBeBytes (beBytes width n) = n := by
  have hread := foldl_beBytes width n
  rwa [h] at hread

theorem beBytes_inj {width m n : Nat} (hm : m >>> (8 * width) = 0) (hn : n >>> (8 * width) = 0) :
    beBytes width m = beBytes width n ↔ m = n := by
  refine ⟨fun h => ?_, fun h => by rw [h]⟩
  rw [← ofBeBytes_beBytes hm, ← ofBeBytes_beBytes hn, h]

theorem framed_inj {width : Nat} {fields fields' : List String}
    (hlength : fields.length = fields'.length)
    (hfits : ∀ field ∈ fields, field.utf8ByteSize >>> (8 * width) = 0)
    (hfits' : ∀ field ∈ fields', field.utf8ByteSize >>> (8 * width) = 0)
    (h : (fields.flatMap fun field => beBytes width field.utf8ByteSize ++ utf8Bytes field) =
      fields'.flatMap fun field => beBytes width field.utf8ByteSize ++ utf8Bytes field) :
    fields = fields' := by
  induction fields generalizing fields' with
  | nil => simpa [eq_comm] using hlength
  | cons field fields ih =>
    cases fields' with
    | nil => simp at hlength
    | cons field' fields' =>
      simp only [forall_mem_cons, length_cons, Nat.add_right_cancel_iff] at *
      simp only [flatMap_cons, append_assoc] at h
      obtain ⟨hsize, h⟩ := append_inj h (by simp)
      rw [beBytes_inj hfits.1 hfits'.1] at hsize
      obtain ⟨hfield, h⟩ := append_inj h (by simp [hsize])
      rw [utf8Bytes_inj.mp hfield, ih hlength hfits.2 hfits'.2 h]

theorem ofBeBytes_shiftRight (bytes : List UInt8) : ofBeBytes bytes >>> (8 * bytes.length) = 0 := by
  induction bytes using reverseRecOn with
  | nil => rfl
  | append_singleton bytes b ih =>
    have hlow : (256 * ofBeBytes bytes + b.toNat) >>> 8 = ofBeBytes bytes := by
      have hb := b.toNat_lt
      rw [Nat.shiftRight_eq_div_pow]
      omega
    have hsnoc : ofBeBytes (bytes ++ [b]) = 256 * ofBeBytes bytes + b.toNat := by simp [ofBeBytes]
    have hwidth : 8 * (bytes ++ [b]).length = 8 + 8 * bytes.length := by
      rw [length_append, length_singleton]
      omega
    rw [hsnoc, hwidth, Nat.shiftRight_add, hlow, ih]

theorem ofBeBytes_fits {bytes : List UInt8} {width : Nat} (h : bytes.length ≤ width) :
    ofBeBytes bytes >>> (8 * width) = 0 := by
  have hsplit : 8 * width = 8 * bytes.length + 8 * (width - bytes.length) := by omega
  rw [hsplit, Nat.shiftRight_add, ofBeBytes_shiftRight, Nat.zero_shiftRight]

theorem fromUTF8?_utf8Bytes (s : String) : String.fromUTF8? ⟨(utf8Bytes s).toArray⟩ = some s :=
  dif_pos s.isValidUTF8

example : beBytes 8 258 = [0, 0, 0, 0, 0, 0, 1, 2] ∧ ofBeBytes [0, 0, 1, 2] = 258 := by decide

/-- Rust `str::from_utf8`, without the text of the error. -/
def fromUtf8? (bytes : List UInt8) : Option String := String.fromUTF8? ⟨bytes.toArray⟩

theorem eq_utf8Bytes_of_fromUtf8? {bytes : List UInt8} {s : String} (h : fromUtf8? bytes = some s) :
    bytes = utf8Bytes s := by
  unfold fromUtf8? String.fromUTF8? at h
  split at h
  · cases h
    rfl
  · cases h

end BittyAi.Lib
