/-!
The numbers that priorities, shares and usage are made of. Every rule of the library that adds,
divides or clamps is stated over `Scalar`, so that it runs on binary floating point and can be
reasoned about over the exact rationals.
-/
namespace Matchmaker

class Scalar (α : Type) extends Add α, Sub α, Mul α, Div α, LT α, LE α, BEq α where
  decLt : DecidableLT α
  decLe : DecidableLE α
  ofInt : Int → α
  /-- What a sum starts from, so the sum of no terms. -/
  emptySum : α
  isFinite : α → Bool
  /-- The order in which priority classes are listed; numbers of one class compare as equal. -/
  compareClass : α → α → Ordering

attribute [reducible, instance] Scalar.decLt Scalar.decLe

namespace Scalar

variable {α : Type} [Scalar α]

def zero : α := ofInt 0

def one : α := ofInt 1

def total (terms : List α) : α := terms.foldl (· + ·) emptySum

def compensate (sum error term : α) : α × α :=
  let size (x : α) := if x < zero then zero - x else x
  let next := sum + term
  let lost := if size term < size sum then (sum - next) + term else (term - next) + sum
  (next, error + lost)

/-- The sum with the rounding errors of its additions added at the end, if they are a number. -/
def compensatedTotal (terms : List α) : α :=
  let (sum, error) := terms.foldl (fun (sum, error) term => compensate sum error term) (zero, zero)
  if isFinite error then sum + error else sum

/-- The larger of two numbers; one that differs from itself is passed over. -/
def larger (x y : α) : α :=
  if x == x then (if x < y then y else x) else y

/-- The number nearest to `x` between the bounds; undefined unless the bounds are in order. -/
def clamp? (x lo hi : α) : Option α :=
  if lo ≤ hi then
    let raised := if x < lo then lo else x
    some (if hi < raised then hi else raised)
  else none

def isWeight (x : α) : Bool := isFinite x && decide (zero < x)

end Scalar

def nearestFloat (n : Int) : Float :=
  if n < 0 then -(n.natAbs.toUInt64.toFloat) else n.natAbs.toUInt64.toFloat

instance : Scalar Float where
  decLt := inferInstance
  decLe := inferInstance
  ofInt := nearestFloat
  emptySum := -0.0
  isFinite := Float.isFinite
  compareClass x y := compare x.toBits.toNat y.toBits.toNat

end Matchmaker
