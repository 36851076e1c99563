/-
  PlcnextIot.Python.Sha256

  `hashlib.sha256(data).hexdigest()`, as FIPS 180-4 defines it.  Words are
  natural numbers below 2^32.  No proof looks inside: the model only needs that
  equal bytes have equal digests, and where a theorem needs more (that two given
  payloads do not collide) it says so.
-/

import Mathlib.Data.List.Basic
import PlcnextIot.Python.Text

namespace PlcnextIot.Python

namespace Sha256

/-- The round constants. -/
def roundConstants : List Nat :=
  [0x428a2f98, 0x71374491, 0xb5c0fbcf, 0xe9b5dba5, 0x3956c25b, 0x59f111f1, 0x923f82a4, 0xab1c5ed5,
   0xd807aa98, 0x12835b01, 0x243185be, 0x550c7dc3, 0x72be5d74, 0x80deb1fe, 0x9bdc06a7, 0xc19bf174,
   0xe49b69c1, 0xefbe4786, 0x0fc19dc6, 0x240ca1cc, 0x2de92c6f, 0x4a7484aa, 0x5cb0a9dc, 0x76f988da,
   0x983e5152, 0xa831c66d, 0xb00327c8, 0xbf597fc7, 0xc6e00bf3, 0xd5a79147, 0x06ca6351, 0x14292967,
   0x27b70a85, 0x2e1b2138, 0x4d2c6dfc, 0x53380d13, 0x650a7354, 0x766a0abb, 0x81c2c92e, 0x92722c85,
   0xa2bfe8a1, 0xa81a664b, 0xc24b8b70, 0xc76c51a3, 0xd192e819, 0xd6990624, 0xf40e3585, 0x106aa070,
   0x19a4c116, 0x1e376c08, 0x2748774c, 0x34b0bcb5, 0x391c0cb3, 0x4ed8aa4a, 0x5b9cca4f, 0x682e6ff3,
   0x748f82ee, 0x78a5636f, 0x84c87814, 0x8cc70208, 0x90befffa, 0xa4506ceb, 0xbef9a3f7, 0xc67178f2]

/-- The eight working variables, which are also the chaining value. -/
structure Chain where
  a : Nat
  b : Nat
  c : Nat
  d : Nat
  e : Nat
  f : Nat
  g : Nat
  h : Nat

def initial : Chain :=
  ⟨0x6a09e667, 0xbb67ae85, 0x3c6ef372, 0xa54ff53a, 0x510e527f, 0x9b05688c, 0x1f83d9ab, 0x5be0cd19⟩

def word (n : Nat) : Nat := n % 4294967296

def rotr (n x : Nat) : Nat := word ((x >>> n) ||| (x <<< (32 - n)))

/-- One more word of the message schedule, which is kept newest first. -/
def extend (ws : List Nat) : List Nat :=
  let w2 := ws.getD 1 0
  let w15 := ws.getD 14 0
  let s0 := rotr 7 w15 ^^^ rotr 18 w15 ^^^ (w15 >>> 3)
  let s1 := rotr 17 w2 ^^^ rotr 19 w2 ^^^ (w2 >>> 10)
  word (s1 + ws.getD 6 0 + s0 + ws.getD 15 0) :: ws

def schedule (block : List Nat) : List Nat :=
  ((List.range 48).foldl (fun ws _ => extend ws) block.reverse).reverse

def round (v : Chain) (kw : Nat × Nat) : Chain :=
  let s1 := rotr 6 v.e ^^^ rotr 11 v.e ^^^ rotr 25 v.e
  let ch := (v.e &&& v.f) ^^^ ((4294967295 - v.e) &&& v.g)
  let t1 := word (v.h + s1 + ch + kw.1 + kw.2)
  let s0 := rotr 2 v.a ^^^ rotr 13 v.a ^^^ rotr 22 v.a
  let maj := (v.a &&& v.b) ^^^ (v.a &&& v.c) ^^^ (v.b &&& v.c)
  ⟨word (t1 + s0 + maj), v.a, v.b, v.c, word (v.d + t1), v.e, v.f, v.g⟩

def compress (v : Chain) (block : List Nat) : Chain :=
  let u := (roundConstants.zip (schedule block)).foldl round v
  ⟨word (v.a + u.a), word (v.b + u.b), word (v.c + u.c), word (v.d + u.d), word (v.e + u.e),
    word (v.f + u.f), word (v.g + u.g), word (v.h + u.h)⟩

/-- `n` as `k` big-endian bytes. -/
def bigEndian : Nat → Nat → List Nat
  | 0, _ => []
  | k + 1, n => n / 256 ^ k % 256 :: bigEndian k n

def padded (data : Bytes) : List Nat :=
  let n := data.length
  data.map UInt8.toNat ++ [0x80] ++ List.replicate ((119 - n % 64) % 64) 0 ++ bigEndian 8 (8 * n)

/-- Big-endian 32-bit words of a multiple of four bytes. -/
def words : List Nat → List Nat
  | a :: b :: c :: d :: rest => (((a * 256 + b) * 256 + c) * 256 + d) :: words rest
  | _ => []

/-- Fold the compression over `n` blocks of sixteen words. -/
def blocks : Nat → Chain → List Nat → Chain
  | 0, v, _ => v
  | n + 1, v, ws => blocks n (compress v (ws.take 16)) (ws.drop 16)

def hexDigit (n : Nat) : Nat := if n < 10 then 0x30 + n else 0x57 + n

/-- Eight lower-case hexadecimal digits. -/
def hexWord (w : Nat) : PyStr := (bigEndian 4 w).flatMap fun b => [hexDigit (b / 16), hexDigit (b % 16)]

end Sha256

open Sha256 in
/-- `hashlib.sha256(data).hexdigest()` -/
def sha256 (data : Bytes) : PyStr :=
  let ws := words (padded data)
  let v := blocks (ws.length / 16) initial ws
  [v.a, v.b, v.c, v.d, v.e, v.f, v.g, v.h].flatMap hexWord

example : sha256 [0x61, 0x62, 0x63]
    = py "ba7816bf8f01cfea414140de5dae2223b00361a396177a9cb410ff61f20015ad" := by
  decide +kernel

end PlcnextIot.Python
