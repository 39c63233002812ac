import Matchmaker.Random.Generator
import Matchmaker.Scalar
import Matchmaker.Script

/-!
Random choices as scripts over random words, so that which words a choice takes is part of what it
is.
-/
namespace Matchmaker.Random

inductive WordRequest where
  | word32
  | word64
  deriving DecidableEq, Repr

def WordRequest.Answer : WordRequest → Type
  | word32 => UInt32
  | word64 => UInt64

abbrev Draw := Script WordRequest WordRequest.Answer

namespace Draw

def word32 : Draw UInt32 := Script.question WordRequest.word32

def word64 : Draw UInt64 := Script.question WordRequest.word64

def answer : (q : WordRequest) → Generator → q.Answer × Generator
  | .word32, g => g.next32
  | .word64, g => g.next64

def run {β : Type} (d : Draw β) (g : Generator) : Option β × Generator := Script.run answer d g

variable {α : Type} [Scalar α]

/-- A number from zero to below one, with 53 binary places. -/
def unit : Draw α := do
  let word ← word64
  pure (Scalar.ofInt (word >>> 11).toNat / Scalar.ofInt (Nat.pow 2 53))

def below (bound : α) : Draw α :=
  if Scalar.isWeight bound then do
    let word ← word64
    pure (Scalar.ofInt (word >>> 12).toNat / Scalar.ofInt (Nat.pow 2 52) * bound)
  else .abort

def carries (count : Nat) (low : Nat) (second : UInt32) : Bool :=
  Nat.pow 2 32 ≤ low + second.toNat * count / Nat.pow 2 32

/-- A number below a positive count: the high half of the product of a word and the count. Where
the low half is close to its limit, a second word decides about a carry. -/
def index (count : Nat) : Draw Nat :=
  if count = 0 then .abort
  else do
    let first ← word32
    let high := first.toNat * count / Nat.pow 2 32
    let low := first.toNat * count % Nat.pow 2 32
    if Nat.pow 2 32 - count < low then
      let second ← word32
      pure (if carries count low second then high + 1 else high)
    else pure high

/-- The same choice several times, after those found so far, the latest first. -/
def repeatedAfter {β : Type} (d : Draw β) : Nat → List β → Draw (List β)
  | 0, found => pure found.reverse
  | n + 1, found => do
    let next ← d
    d.repeatedAfter n (next :: found)

def repeated {β : Type} (d : Draw β) (n : Nat) : Draw (List β) := d.repeatedAfter n []

end Draw

end Matchmaker.Random
