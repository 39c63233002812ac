import Matchmaker.Text.Hex

/-!
The SHA-256 digest of a byte string (FIPS 180-4), written as 64 hexadecimal digits. A block is
compressed with a sliding window of sixteen schedule words.
-/
namespace Matchmaker.Digest

abbrev Word := UInt32

def rotateRight (x : Word) (n : Word) : Word := (x >>> n) ||| (x <<< (32 - n))

structure Working where
  a : Word
  b : Word
  c : Word
  d : Word
  e : Word
  f : Word
  g : Word
  h : Word
  deriving DecidableEq, Repr

namespace Working

def initial : Working :=
  ⟨0x6a09e667, 0xbb67ae85, 0x3c6ef372, 0xa54ff53a, 0x510e527f, 0x9b05688c, 0x1f83d9ab, 0x5be0cd19⟩

def add (x y : Working) : Working :=
  ⟨x.a + y.a, x.b + y.b, x.c + y.c, x.d + y.d, x.e + y.e, x.f + y.f, x.g + y.g, x.h + y.h⟩

def toList (w : Working) : List Word := [w.a, w.b, w.c, w.d, w.e, w.f, w.g, w.h]

def step (w : Working) (constant word : Word) : Working :=
  let s1 := rotateRight w.e 6 ^^^ rotateRight w.e 11 ^^^ rotateRight w.e 25
  let choice := (w.e &&& w.f) ^^^ (~~~w.e &&& w.g)
  let t1 := w.h + s1 + choice + constant + word
  let s0 := rotateRight w.a 2 ^^^ rotateRight w.a 13 ^^^ rotateRight w.a 22
  let majority := (w.a &&& w.b) ^^^ (w.a &&& w.c) ^^^ (w.b &&& w.c)
  ⟨t1 + (s0 + majority), w.a, w.b, w.c, w.d + t1, w.e, w.f, w.g⟩

end Working

def roundConstants : List Word :=
  [0x428a2f98, 0x71374491, 0xb5c0fbcf, 0xe9b5dba5, 0x3956c25b, 0x59f111f1, 0x923f82a4, 0xab1c5ed5,
    0xd807aa98, 0x12835b01, 0x243185be, 0x550c7dc3, 0x72be5d74, 0x80deb1fe, 0x9bdc06a7, 0xc19bf174,
    0xe49b69c1, 0xefbe4786, 0x0fc19dc6, 0x240ca1cc, 0x2de92c6f, 0x4a7484aa, 0x5cb0a9dc, 0x76f988da,
    0x983e5152, 0xa831c66d, 0xb00327c8, 0xbf597fc7, 0xc6e00bf3, 0xd5a79147, 0x06ca6351, 0x14292967,
    0x27b70a85, 0x2e1b2138, 0x4d2c6dfc, 0x53380d13, 0x650a7354, 0x766a0abb, 0x81c2c92e, 0x92722c85,
    0xa2bfe8a1, 0xa81a664b, 0xc24b8b70, 0xc76c51a3, 0xd192e819, 0xd6990624, 0xf40e3585, 0x106aa070,
    0x19a4c116, 0x1e376c08, 0x2748774c, 0x34b0bcb5, 0x391c0cb3, 0x4ed8aa4a, 0x5b9cca4f, 0x682e6ff3,
    0x748f82ee, 0x78a5636f, 0x84c87814, 0x8cc70208, 0x90befffa, 0xa4506ceb, 0xbef9a3f7, 0xc67178f2]

def nextWord (window : List Word) : Word :=
  let w1 := window.getD 1 0
  let w14 := window.getD 14 0
  let s0 := rotateRight w1 7 ^^^ rotateRight w1 18 ^^^ (w1 >>> 3)
  let s1 := rotateRight w14 17 ^^^ rotateRight w14 19 ^^^ (w14 >>> 10)
  window.getD 0 0 + s0 + window.getD 9 0 + s1

/-- One step for each constant; the window moves on by one word. -/
def rounds : List Word → List Word → Working → Working
  | [], _, w => w
  | constant :: constants, window, w =>
    rounds constants (window.drop 1 ++ [nextWord window]) (w.step constant (window.getD 0 0))

def compress (w : Working) (block : List Word) : Working := w.add (rounds roundConstants block w)

def wordsOf : List UInt8 → List Word
  | a :: b :: c :: d :: rest =>
    ((a.toUInt32 <<< 24) ||| (b.toUInt32 <<< 16) ||| (c.toUInt32 <<< 8) ||| d.toUInt32) :: wordsOf rest
  | _ => []

def wordBytes (n : Nat) : List UInt8 :=
  (List.range 8).map fun k => (n / Nat.pow 256 (7 - k)).toUInt8

/-- A one bit, zeros up to 56 bytes past a block, and the length in bits. -/
def padded (bytes : List UInt8) : List UInt8 :=
  bytes ++ 0x80 :: List.replicate ((119 - bytes.length % 64) % 64) 0 ++ wordBytes (8 * bytes.length)

def absorb (w : Working) (words : List Word) : Working :=
  if _h : words.length < 16 then w else absorb (compress w (words.take 16)) (words.drop 16)
termination_by words.length
decreasing_by rw [List.length_drop]; omega

def sha256 (bytes : List UInt8) : Working := absorb .initial (wordsOf (padded bytes))

def sha256Text (s : String) : String :=
  String.ofList ((sha256 s.toUTF8.toList).toList.flatMap fun word => Text.hexPlaces 8 word.toNat)

end Matchmaker.Digest
