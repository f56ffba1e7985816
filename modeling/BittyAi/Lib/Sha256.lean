/-
BittyAi.Lib.Sha256 — the SHA-256 digest of FIPS 180-4, as a function on octets.

Words are natural numbers below `2 ^ 32`; additions are taken modulo `2 ^ 32`.
-/
import Mathlib.Data.List.Basic

namespace BittyAi.Lib.Sha256

/-! ## Words -/

def add32 (a b : Nat) : Nat := (a + b) % 0x100000000

def rotr (x n : Nat) : Nat := (x >>> n) ||| ((x <<< (32 - n)) % 0x100000000)

def ch (x y z : Nat) : Nat := (x &&& y) ^^^ ((0xffffffff - x) &&& z)

def maj (x y z : Nat) : Nat := (x &&& y) ^^^ (x &&& z) ^^^ (y &&& z)

def bigSigma0 (x : Nat) : Nat := rotr x 2 ^^^ rotr x 13 ^^^ rotr x 22

def bigSigma1 (x : Nat) : Nat := rotr x 6 ^^^ rotr x 11 ^^^ rotr x 25

def smallSigma0 (x : Nat) : Nat := rotr x 7 ^^^ rotr x 18 ^^^ (x >>> 3)

def smallSigma1 (x : Nat) : Nat := rotr x 17 ^^^ rotr x 19 ^^^ (x >>> 10)

def roundConstants : List Nat :=
  [0x428a2f98, 0x71374491, 0xb5c0fbcf, 0xe9b5dba5, 0x3956c25b, 0x59f111f1, 0x923f82a4, 0xab1c5ed5,
   0xd807aa98, 0x12835b01, 0x243185be, 0x550c7dc3, 0x72be5d74, 0x80deb1fe, 0x9bdc06a7, 0xc19bf174,
   0xe49b69c1, 0xefbe4786, 0x0fc19dc6, 0x240ca1cc, 0x2de92c6f, 0x4a7484aa, 0x5cb0a9dc, 0x76f988da,
   0x983e5152, 0xa831c66d, 0xb00327c8, 0xbf597fc7, 0xc6e00bf3, 0xd5a79147, 0x06ca6351, 0x14292967,
   0x27b70a85, 0x2e1b2138, 0x4d2c6dfc, 0x53380d13, 0x650a7354, 0x766a0abb, 0x81c2c92e, 0x92722c85,
   0xa2bfe8a1, 0xa81a664b, 0xc24b8b70, 0xc76c51a3, 0xd192e819, 0xd6990624, 0xf40e3585, 0x106aa070,
   0x19a4c116, 0x1e376c08, 0x2748774c, 0x34b0bcb5, 0x391c0cb3, 0x4ed8aa4a, 0x5b9cca4f, 0x682e6ff3,
   0x748f82ee, 0x78a5636f, 0x84c87814, 0x8cc70208, 0x90befffa, 0xa4506ceb, 0xbef9a3f7, 0xc67178f2]

/-! ## Compression -/

structure Words where
  a : Nat
  b : Nat
  c : Nat
  d : Nat
  e : Nat
  f : Nat
  g : Nat
  h : Nat

def initial : Words :=
  ⟨0x6a09e667, 0xbb67ae85, 0x3c6ef372, 0xa54ff53a, 0x510e527f, 0x9b05688c, 0x1f83d9ab, 0x5be0cd19⟩

/-- One round with the constant `k` and the schedule word `w`. -/
def round (s : Words) (k w : Nat) : Words :=
  let t1 := add32 (add32 (add32 (add32 s.h (bigSigma1 s.e)) (ch s.e s.f s.g)) k) w
  let t2 := add32 (bigSigma0 s.a) (maj s.a s.b s.c)
  ⟨add32 t1 t2, s.a, s.b, s.c, add32 s.d t1, s.e, s.f, s.g⟩

/-- The schedule, latest word first, extended by `n` words. -/
def schedule : Nat → List Nat → List Nat
  | 0, ws => ws
  | n + 1, ws =>
    let w := add32 (add32 (add32 (smallSigma1 (ws.getD 1 0)) (ws.getD 6 0))
      (smallSigma0 (ws.getD 14 0))) (ws.getD 15 0)
    schedule n (w :: ws)

def blockWords : List UInt8 → List Nat
  | a :: b :: c :: d :: rest =>
    (a.toNat <<< 24 ||| b.toNat <<< 16 ||| c.toNat <<< 8 ||| d.toNat) :: blockWords rest
  | _ => []

def compress (s : Words) (block : List UInt8) : Words :=
  let ws := (schedule 48 (blockWords block).reverse).reverse
  let s' := (roundConstants.zip ws).foldl (fun s kw => round s kw.1 kw.2) s
  ⟨add32 s.a s'.a, add32 s.b s'.b, add32 s.c s'.c, add32 s.d s'.d,
    add32 s.e s'.e, add32 s.f s'.f, add32 s.g s'.g, add32 s.h s'.h⟩

/-! ## The digest -/

/-- The `n` low bytes of a number, big-endian. -/
def bigEndian : Nat → Nat → List UInt8
  | 0, _ => []
  | n + 1, x => bigEndian n (x / 256) ++ [UInt8.ofNat (x % 256)]

/-- The message with the bit `1`, zeros and its length in bits, to whole blocks. -/
def padded (message : List UInt8) : List UInt8 :=
  message ++ 0x80 :: List.replicate ((119 - message.length % 64) % 64) 0 ++
    bigEndian 8 (8 * message.length)

def compressAll : Nat → Words → List UInt8 → Words
  | 0, s, _ => s
  | _ + 1, s, [] => s
  | n + 1, s, bytes => compressAll n (compress s (bytes.take 64)) (bytes.drop 64)

def digest (message : List UInt8) : List UInt8 :=
  let bytes := padded message
  let s := compressAll (bytes.length / 64) initial bytes
  [s.a, s.b, s.c, s.d, s.e, s.f, s.g, s.h].flatMap (bigEndian 4)

theorem length_bigEndian (n x : Nat) : (bigEndian n x).length = n := by
  induction n generalizing x with
  | zero => rfl
  | succ n ih => simp [bigEndian, ih]

theorem length_digest (message : List UInt8) : (digest message).length = 32 := by
  simp [digest, length_bigEndian]

-- the standard's own example, the message "abc"
example : digest [0x61, 0x62, 0x63] =
    [0xba, 0x78, 0x16, 0xbf, 0x8f, 0x01, 0xcf, 0xea, 0x41, 0x41, 0x40, 0xde, 0x5d, 0xae, 0x22, 0x23,
     0xb0, 0x03, 0x61, 0xa3, 0x96, 0x17, 0x7a, 0x9c, 0xb4, 0x10, 0xff, 0x61, 0xf2, 0x00, 0x15,
     0xad] := by
  decide +kernel

end BittyAi.Lib.Sha256
