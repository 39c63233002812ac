import Matchmaker.Decimal.Digits

/-!
The shortest decimal that reads back as a given double. Of the grids of 1, 2, … 17 significant
digits the first one with a point that rounds to the double is taken, and on it the nearest such
point.
-/
namespace Matchmaker.Decimal

inductive Tie where
  | up
  | even
  deriving DecidableEq, Repr

structure Point where
  coefficient : Nat
  exponent : Int
  deriving DecidableEq, Repr

namespace Point

def stripped (p : Point) : Point :=
  if h : p.coefficient % 10 = 0 ∧ p.coefficient ≠ 0 then
    stripped ⟨p.coefficient / 10, p.exponent + 1⟩
  else p
termination_by p.coefficient
decreasing_by omega

end Point

/-- A positive number `mantissa · 2^exponent`, with the reals that round to it: from `below` to
two quarters of the last place around it, in units of a quarter of the last place. -/
structure Neighbourhood where
  centre : Nat
  below : Nat
  above : Nat
  closed : Bool
  exponent : Int
  deriving Repr

namespace Neighbourhood

/-- The step below a power of two is half as wide as the step above. -/
def ofMantissa (mantissa : Nat) (exponent : Int) (minExponent : Int) : Neighbourhood where
  centre := 4 * mantissa
  below :=
    if mantissa = Nat.pow 2 52 ∧ minExponent < exponent then 4 * mantissa - 1 else 4 * mantissa - 2
  above := 4 * mantissa + 2
  closed := mantissa % 2 = 0
  exponent := exponent - 2

/-- Both sides of a comparison of `coefficient · 10^e` with `quarters` of the last place, as whole
numbers. -/
def scaled (n : Neighbourhood) (coefficient : Nat) (e : Int) (quarters : Nat) : Nat × Nat :=
  (coefficient * Nat.pow 10 e.toNat * Nat.pow 2 (-n.exponent).toNat,
    quarters * Nat.pow 2 n.exponent.toNat * Nat.pow 10 (-e).toNat)

def holds (n : Neighbourhood) (p : Point) : Bool :=
  let (least, point) := (n.scaled p.coefficient p.exponent n.below).swap
  let (point', most) := n.scaled p.coefficient p.exponent n.above
  if n.closed then least ≤ point && point' ≤ most else least < point && point' < most

def floorOn (n : Neighbourhood) (e : Int) : Point :=
  let (unit, value) := n.scaled 1 e n.centre
  ⟨value / unit, e⟩

/-- The number of digits before the decimal point; for a number below one, less the zeros that
follow the point. -/
def magnitude (n : Neighbourhood) : Int :=
  (digits (n.floorOn (-400)).coefficient).length - 400

def nearer (n : Neighbourhood) (tie : Tie) (lower upper : Point) : Point :=
  let (sum, twice) := n.scaled (lower.coefficient + upper.coefficient) lower.exponent (2 * n.centre)
  if twice < sum then lower
  else if sum < twice then upper
  else match tie with
    | .up => upper
    | .even => if lower.coefficient % 2 = 0 then lower else upper

def onGrid (n : Neighbourhood) (tie : Tie) (e : Int) : Option Point :=
  let lower := n.floorOn e
  let upper : Point := ⟨lower.coefficient + 1, e⟩
  match n.holds lower, n.holds upper with
  | true, true => some (n.nearer tie lower upper)
  | true, false => some lower
  | false, true => some upper
  | false, false => none

/-- The shortest decimal that rounds to the number. Seventeen digits always do. -/
def shortest (n : Neighbourhood) (tie : Tie) : Point :=
  let point := (List.range 17).findSome? fun k => n.onGrid tie (n.magnitude - (k + 1 : Nat))
  (point.getD (n.floorOn (n.magnitude - 17))).stripped

end Neighbourhood

end Matchmaker.Decimal
