import Matchmaker.Random.ChaCha

/-!
Sources of random words: a seeded stream, or a list of words given in advance.
-/
namespace Matchmaker.Random

def seedStep (s : UInt64) : UInt64 := s * 0x5851F42D4C957F2D + 0xA17654E46FBE17F3

/-- The key word of a seed state: its high bits, rotated by the topmost ones. -/
def seedWord (s : UInt64) : UInt32 :=
  let x := (((s >>> 18) ^^^ s) >>> 27).toUInt32
  let turn := (s >>> 59).toUInt32
  (x >>> turn) ||| (x <<< (32 - turn))

def seedStates : Nat → UInt64 → List UInt64
  | 0, _ => []
  | n + 1, s => seedStep s :: seedStates n (seedStep s)

def keyOfSeed (seed : UInt64) : Vector UInt32 8 :=
  Vector.ofFn fun i => seedWord ((seedStates 8 seed).getD i 0)

inductive Generator where
  /-- The words left of the current block, and the number of the next one. -/
  | stream (key : Vector UInt32 8) (block : UInt64) (rest : List UInt32)
  /-- Words of 64 bits, starting over at their end. -/
  | cycle (words rest : List UInt64)

namespace Generator

def ofSeed (seed : Nat) : Generator := stream (keyOfSeed seed.toUInt64) 0 []

def ofWords (words : List Nat) : Generator :=
  cycle (words.map Nat.toUInt64) []

def streamWord (key : Vector UInt32 8) (block : UInt64) : List UInt32 → UInt32 × Generator
  | word :: rest => (word, stream key block rest)
  | [] =>
    let words := keyStreamBlock key block
    (words[0], stream key (block + 1) (words.toList.drop 1))

def cycleWord (words : List UInt64) : List UInt64 → UInt64 × Generator
  | word :: rest => (word, cycle words rest)
  | [] => (words.headD 0, cycle words words.tail)

/-- The next word of 32 bits; of a given word, the low half. -/
def next32 : Generator → UInt32 × Generator
  | stream key block rest => streamWord key block rest
  | cycle words rest =>
    let (word, g) := cycleWord words rest
    (word.toUInt32, g)

/-- The next word of 64 bits; of a stream, two words, the low half first. -/
def next64 : Generator → UInt64 × Generator
  | cycle words rest => cycleWord words rest
  | g =>
    let (low, g) := g.next32
    let (high, g) := g.next32
    (low.toUInt64 ||| (high.toUInt64 <<< 32), g)

end Generator

end Matchmaker.Random
