import Matchmaker.Scalar

/-!
Job priorities. The priority given on submission is clamped between two bounds; what lands on a
bound gets an extreme weight instead.
-/
namespace Matchmaker

structure PriorityBounds (α : Type) where
  min : α
  max : α
  deriving Repr

namespace PriorityBounds

variable {α : Type} [Scalar α]

def lowest : α := Scalar.ofInt 1 / Scalar.ofInt 100000

def highest : α := Scalar.ofInt 1000000

def isValid (b : PriorityBounds α) : Bool :=
  Scalar.isFinite b.min && Scalar.isFinite b.max && decide (Scalar.zero < b.min)
    && decide (b.min < b.max)

/-- The weight of a job; undefined when the bounds are not in order. -/
def effective? (b : PriorityBounds α) (submitted : Int) : Option α :=
  (Scalar.clamp? (Scalar.ofInt submitted) b.min b.max).map fun clamped =>
    if clamped ≤ b.min then lowest
    else if b.max ≤ clamped then highest
    else clamped

end PriorityBounds

end Matchmaker
