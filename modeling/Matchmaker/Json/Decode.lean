import Matchmaker.Json.Reader
import Matchmaker.Scalar

/-!
Typed views of a document: each gives `none` when the value has another type or is out of range.
-/
namespace Matchmaker.Json

def asText? : Json → Option String
  | text s => some s
  | _ => none

def asBool? : Json → Option Bool
  | bool b => some b
  | _ => none

/-- The value of a number without fraction and exponent; `-0` is not such a number. -/
def asInt? : Json → Option Int
  | number ⟨negative, whole, [], none⟩ =>
    let n := Decimal.ofDigits whole
    if negative then (if n = 0 then none else some (-n)) else some n
  | _ => none

def asWord? (j : Json) : Option Nat :=
  (asInt? j).bind fun n => if 0 ≤ n && n < (Nat.pow 2 64 : Int) then some n.toNat else none

def asSigned? (j : Json) : Option Int :=
  (asInt? j).bind fun n =>
    if -(Nat.pow 2 63 : Int) ≤ n && n < (Nat.pow 2 63 : Int) then some n else none

def asArray? : Json → Option (List Json)
  | array items => some items
  | _ => none

def asTexts? (j : Json) : Option (List String) := (asArray? j).bind (·.mapM asText?)

def asMembers? : Json → Option (List (String × Json))
  | object members => members.mapM fun (key, value) => key.map (·, value)
  | _ => none

def optional? {α : Type} (read : Json → Option α) : Option Json → Option (Option α)
  | none => some none
  | some null => some none
  | some j => (read j).map some

def required? {α : Type} (read : Json → Option α) (found : Option Json) : Option α :=
  found.bind read

/-- The value of the only member with this key; two of them are refused. -/
def unique? (members : List (String × Json)) (key : String) : Option (Option Json) :=
  match members.filter fun member => member.1 = key with
  | [] => some none
  | [(_, value)] => some (some value)
  | _ :: _ :: _ => none

/-- The fields of a record, by name from an object or by position from an array of just as many
items. Other members of an object are passed over. -/
def fields? (names : List String) : Json → Option (List (Option Json))
  | object members => (asMembers? (object members)).bind fun found => names.mapM (unique? found)
  | array items => if items.length = names.length then some (items.map some) else none
  | _ => none

/-! ### Floating point

Digits are collected in a 64-bit word. A digit before the point that no longer fits, and those that
follow it there, only scale the result; after the point the first one that does not fit ends the
collection. The word is then scaled by powers of ten in double arithmetic. -/

/-- Collects digits before the point: the word and the number of digits left out. -/
def collectWhole : Nat → List Nat → Nat × Nat
  | word, [] => (word, 0)
  | word, d :: ds =>
    if 10 * word + d < Nat.pow 2 64 then collectWhole (10 * word + d) ds else (word, ds.length + 1)

def collectFraction : Nat → List Nat → Nat × Nat
  | word, [] => (word, 0)
  | word, d :: ds =>
    if 10 * word + d < Nat.pow 2 64 then
      let (collected, taken) := collectFraction (10 * word + d) ds
      (collected, taken + 1)
    else (word, 0)

def powerOfTen (e : Nat) : Float := Float.ofScientific 1 false e

/-- `x · 10^e`; too large a result is refused. -/
def scaleByTen (x : Float) (e : Int) : Option Float :=
  if e.natAbs ≤ 308 then
    if 0 ≤ e then
      let scaled := x * powerOfTen e.natAbs
      if scaled.isInf then none else some scaled
    else some (x / powerOfTen e.natAbs)
  else if x == 0 then some x
  else if 0 ≤ e then none
  else scaleByTen (x / powerOfTen 308) (e + 308)
termination_by (-e).toNat
decreasing_by omega

def floatOfParts (parts : Decimal.Parts) : Option Float :=
  let (word, skipped) := collectWhole 0 parts.whole
  let (word, taken) := collectFraction word parts.fraction
  let exponent : Int := (skipped : Int) - taken + parts.exponent.getD 0
  (scaleByTen (nearestFloat word) exponent).map fun x => if parts.negative then -x else x

def asFloat? : Json → Option Float
  | number parts => floatOfParts parts
  | _ => none

end Matchmaker.Json
