import Matchmaker.Queue.Candidate
import Matchmaker.Random.Draw

/-!
Weighted choice. `pickWeighted` takes an index with probability proportional to its weight; `rank`
orders candidates by CPU time and, among equals, so that each comes first with probability
proportional to its priority: `u ^ (1 / w)` is compared for `u` uniform, as `ln u / w`.
-/
namespace Matchmaker.Random

class Logarithm (α : Type) where
  ln : α → α

instance : Logarithm Float := ⟨Float.log⟩

variable {α : Type} [Scalar α]

/-- The sort key of a weight. What is no weight has none, and so has a key that is out of range;
both come last. -/
def reservoirKey [Logarithm α] (weight : α) : Draw (Option α) :=
  if Scalar.isWeight weight then do
    let u ← Draw.unit
    let key := Logarithm.ln (Scalar.one - u) / weight
    pure (if Scalar.isFinite key then some key else none)
  else pure none

def keyBelow : Option α → Option α → Bool
  | none, none => false
  | none, some _ => true
  | some _, none => false
  | some x, some y => x < y

/-- Whether a candidate may stand before another one: more CPU time, or as much and no smaller
key. -/
def mayPrecede (x y : Option α × Candidate α) : Bool :=
  y.2.cpuTime < x.2.cpuTime || (x.2.cpuTime == y.2.cpuTime && !keyBelow x.1 y.1)

def keyed [Logarithm α] :
    List (Candidate α) → Draw (List (Option α × Candidate α))
  | [] => pure []
  | candidate :: rest => do
    let key ← reservoirKey candidate.priority
    let others ← keyed rest
    pure ((key, candidate) :: others)

def rank [Logarithm α] (candidates : List (Candidate α)) (limit : Nat) :
    Draw (List (Candidate α)) := do
  let found ← keyed candidates
  pure (((found.mergeSort mayPrecede).take limit).map Prod.snd)

/-- The index whose slice of the positive weights holds the roll; past the end the last positive
one. -/
def pickAt (roll : α) : List α → Nat → α → Option Nat → Option Nat
  | [], _, _, last => last
  | weight :: rest, i, before, last =>
    if Scalar.isWeight weight then
      if roll < before + weight then some i else pickAt roll rest (i + 1) (before + weight) (some i)
    else pickAt roll rest (i + 1) before last

/-- An index, by weight; none if no weight is positive and finite. -/
def pickWeighted (weights : List α) : Draw (Option Nat) :=
  let total := Scalar.total (weights.filter Scalar.isWeight)
  if total ≤ Scalar.zero then pure none
  else do
    let roll ← Draw.below total
    pure (pickAt roll weights 0 Scalar.zero none)

end Matchmaker.Random
