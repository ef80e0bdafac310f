/-
SHA-256 of a text, as lower-case hexadecimal digits.

The functions compute by reduction: a word is forced to a numeral before it enters the state.
-/
import GeneGIS.Data.Text

namespace GeneGIS
namespace Sha256

def word (n : Nat) : Nat := n % 4294967296

def rotateRight (k x : Nat) : Nat := (x >>> k) ||| word (x <<< (32 - k))

/-- Continue with the value of `n` rather than with its expression. -/
def force {α : Type} (n : Nat) (k : Nat → α) : α :=
  match n with
  | 0 => k 0
  | m + 1 => k (m + 1)

def roundConstants : List Nat :=
  [0x428a2f98, 0x71374491, 0xb5c0fbcf, 0xe9b5dba5, 0x3956c25b, 0x59f111f1, 0x923f82a4, 0xab1c5ed5,
   0xd807aa98, 0x12835b01, 0x243185be, 0x550c7dc3, 0x72be5d74, 0x80deb1fe, 0x9bdc06a7, 0xc19bf174,
   0xe49b69c1, 0xefbe4786, 0x0fc19dc6, 0x240ca1cc, 0x2de92c6f, 0x4a7484aa, 0x5cb0a9dc, 0x76f988da,
   0x983e5152, 0xa831c66d, 0xb00327c8, 0xbf597fc7, 0xc6e00bf3, 0xd5a79147, 0x06ca6351, 0x14292967,
   0x27b70a85, 0x2e1b2138, 0x4d2c6dfc, 0x53380d13, 0x650a7354, 0x766a0abb, 0x81c2c92e, 0x92722c85,
   0xa2bfe8a1, 0xa81a664b, 0xc24b8b70, 0xc76c51a3, 0xd192e819, 0xd6990624, 0xf40e3585, 0x106aa070,
   0x19a4c116, 0x1e376c08, 0x2748774c, 0x34b0bcb5, 0x391c0cb3, 0x4ed8aa4a, 0x5b9cca4f, 0x682e6ff3,
   0x748f82ee, 0x78a5636f, 0x84c87814, 0x8cc70208, 0x90befffa, 0xa4506ceb, 0xbef9a3f7, 0xc67178f2]

structure State where
  a : Nat
  b : Nat
  c : Nat
  d : Nat
  e : Nat
  f : Nat
  g : Nat
  h : Nat

def State.words (s : State) : List Nat := [s.a, s.b, s.c, s.d, s.e, s.f, s.g, s.h]

def initial : State :=
  ⟨0x6a09e667, 0xbb67ae85, 0x3c6ef372, 0xa54ff53a, 0x510e527f, 0x9b05688c, 0x1f83d9ab, 0x5be0cd19⟩

def round (s : State) (k w : Nat) : State :=
  let s1 := rotateRight 6 s.e ^^^ rotateRight 11 s.e ^^^ rotateRight 25 s.e
  let ch := (s.e &&& s.f) ^^^ ((4294967295 - s.e) &&& s.g)
  let t1 := s.h + s1 + ch + k + w
  let s0 := rotateRight 2 s.a ^^^ rotateRight 13 s.a ^^^ rotateRight 22 s.a
  let maj := (s.a &&& s.b) ^^^ (s.a &&& s.c) ^^^ (s.b &&& s.c)
  force (word (t1 + s0 + maj)) fun a =>
    force (word (s.d + t1)) fun e => ⟨a, s.a, s.b, s.c, e, s.e, s.f, s.g⟩

def schedule (w16 w15 w7 w2 : Nat) : Nat :=
  let s0 := rotateRight 7 w15 ^^^ rotateRight 18 w15 ^^^ (w15 >>> 3)
  let s1 := rotateRight 17 w2 ^^^ rotateRight 19 w2 ^^^ (w2 >>> 10)
  word (w16 + s0 + w7 + s1)

/-- One round per constant, over a window of the sixteen next words. -/
def rounds : List Nat → List Nat → State → State
  | [], _, s => s
  | k :: ks, w0 :: w1 :: w2 :: w3 :: w4 :: w5 :: w6 :: w7 :: w8 :: w9 :: w10 :: w11 :: w12 ::
      w13 :: w14 :: w15 :: _, s =>
    force (schedule w0 w1 w9 w14) fun w16 =>
      rounds ks [w1, w2, w3, w4, w5, w6, w7, w8, w9, w10, w11, w12, w13, w14, w15, w16]
        (round s k w0)
  | _ :: _, _, s => s

def compress (s : State) (block : List Nat) : State :=
  let r := rounds roundConstants block s
  force (word (s.a + r.a)) fun a => force (word (s.b + r.b)) fun b =>
  force (word (s.c + r.c)) fun c => force (word (s.d + r.d)) fun d =>
  force (word (s.e + r.e)) fun e => force (word (s.f + r.f)) fun f =>
  force (word (s.g + r.g)) fun g => force (word (s.h + r.h)) fun h => ⟨a, b, c, d, e, f, g, h⟩

def words : List Nat → List Nat
  | a :: b :: c :: d :: rest => (((a * 256 + b) * 256 + c) * 256 + d) :: words rest
  | _ => []

def blocks : Nat → List Nat → State → State
  | 0, _, s => s
  | n + 1, ws, s =>
    match compress s (ws.take 16) with
    | ⟨a, b, c, d, e, f, g, h⟩ => blocks n (ws.drop 16) ⟨a, b, c, d, e, f, g, h⟩

variable (bytes : List Nat)

/-- The message, a one bit, zeros, and the bit length in eight bytes. -/
def pad : List Nat :=
  let n := bytes.length
  bytes ++ 128 :: List.replicate ((119 - n % 64) % 64) 0 ++
    (List.range 8).map fun i => (8 * n) >>> (8 * (7 - i)) % 256

def utf8 (c : Char) : List Nat :=
  let n := c.toNat
  if n < 128 then [n]
  else if n < 2048 then [192 + n / 64, 128 + n % 64]
  else if n < 65536 then [224 + n / 4096, 128 + n / 64 % 64, 128 + n % 64]
  else [240 + n / 262144, 128 + n / 4096 % 64, 128 + n / 64 % 64, 128 + n % 64]

def hex (text : List Char) : String :=
  let ws := words (pad (text.flatMap utf8))
  String.ofList ((blocks (ws.length / 16) ws initial).words.flatMap (Text.hexDigits 8))

/-- The digest of a message that is not a text. -/
def hexBytes : String :=
  let ws := words (pad bytes)
  String.ofList ((blocks (ws.length / 16) ws initial).words.flatMap (Text.hexDigits 8))

theorem isSha256_hexBytes : Text.isSha256 ("sha256:" ++ hexBytes bytes) = true := by
  have hdigit : ∀ n, n < 16 → Text.isHexDigit (Text.hexDigit n) = true := by decide
  have hdigits : ∀ w n, ∀ c ∈ Text.hexDigits w n, Text.isHexDigit c = true := by
    intro w
    induction w with
    | zero =>
      intro n c hc
      cases hc
    | succ w ih =>
      intro n c hc
      rw [Text.hexDigits, List.mem_append, List.mem_singleton] at hc
      rcases hc with hc | rfl
      · exact ih _ c hc
      · exact hdigit _ (Nat.mod_lt _ (by decide))
  rw [hexBytes]
  refine Text.isSha256_ofList ?_ (List.all_eq_true.mpr ?_)
  · simp [State.words, Text.hexDigits_length]
  · intro c hc
    obtain ⟨word, -, hc⟩ := List.mem_flatMap.mp hc
    exact hdigits 8 word c hc

end Sha256

example : Sha256.hex ['a', 'b', 'c'] =
    "ba7816bf8f01cfea414140de5dae2223b00361a396177a9cb410ff61f20015ad" := by
  decide +kernel

end GeneGIS
