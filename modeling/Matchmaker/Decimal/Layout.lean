import Matchmaker.Decimal.Binary64
import Matchmaker.Decimal.Shortest

/-!
How doubles are written: the layout of messages and tables (`plainText`), always positional, and
the parts of a number in a document (`Parts`), scientific when very small or large.
-/
namespace Matchmaker.Decimal

def Point.placed (p : Point) : List Nat × Int :=
  let ds := digits p.coefficient
  (ds, ds.length + p.exponent)

/-- Whole part and fraction digits, written without exponent. -/
def Point.positional (p : Point) : List Nat × List Nat :=
  let (ds, before) := p.placed
  if before ≤ 0 then ([0], List.replicate (-before).toNat 0 ++ ds)
  else (ds.take before.toNat ++ List.replicate (before.toNat - ds.length) 0, ds.drop before.toNat)

def shortestOf (tie : Tie) (mantissa : Nat) (exponent : Int) : Point :=
  if mantissa = 0 then ⟨0, 0⟩
  else (Neighbourhood.ofMantissa mantissa exponent Binary64.minExponent).shortest tie

/-- The fewest digits that read back, positional at any magnitude, with a point only before
fraction digits. -/
def plainText (x : Float) : String :=
  match Binary64.ofFloat x with
  | .nan => "NaN"
  | .infinite negative => if negative then "-inf" else "inf"
  | .finite negative mantissa exponent =>
    let (whole, fraction) := (shortestOf .up mantissa exponent).positional
    let point := if fraction.isEmpty then [] else '.' :: fraction.map digitChar
    String.ofList ((if negative then ['-'] else []) ++ whole.map digitChar ++ point)

structure Parts where
  negative : Bool
  whole : List Nat
  fraction : List Nat
  exponent : Option Int
  deriving DecidableEq, Repr

namespace Parts

def ofNat (n : Nat) : Parts := ⟨false, digits n, [], none⟩

def ofInt (n : Int) : Parts := ⟨decide (n < 0), digits n.natAbs, [], none⟩

/-- The fewest digits that read back: positional with at least one fraction digit from `1e-5` to
below `1e16`, otherwise one digit before the point and an exponent. -/
def ofFloat? (x : Float) : Option Parts :=
  match Binary64.ofFloat x with
  | .nan => none
  | .infinite _ => none
  | .finite negative mantissa exponent =>
    let p := shortestOf .even mantissa exponent
    let (ds, before) := p.placed
    if mantissa = 0 then some ⟨negative, [0], [0], none⟩
    else if -5 < before ∧ before ≤ 16 then
      let (whole, fraction) := p.positional
      some ⟨negative, whole, if fraction.isEmpty then [0] else fraction, none⟩
    else some ⟨negative, ds.take 1, ds.drop 1, some (before - 1)⟩

def exponentChars (e : Int) : List Char :=
  'e' :: (if e < 0 then '-' else '+') :: natChars e.natAbs

def chars (p : Parts) : List Char :=
  (if p.negative then ['-'] else []) ++ p.whole.map digitChar
    ++ (if p.fraction.isEmpty then [] else '.' :: p.fraction.map digitChar)
    ++ (p.exponent.map exponentChars).getD []

end Parts

end Matchmaker.Decimal
