import Matchmaker.Decimal.Digits

/-!
Reading numbers: whole numbers of a given range, with the cause of a refusal, and decimals, rounded
to the nearest double.
-/
namespace Matchmaker.Decimal

inductive WholeError where
  | empty
  | invalidDigit
  | tooLarge
  | tooSmall
  deriving DecidableEq, Repr

def WholeError.message : WholeError → String
  | .empty => "cannot parse integer from empty string"
  | .invalidDigit => "invalid digit found in string"
  | .tooLarge => "number too large to fit in target type"
  | .tooSmall => "number too small to fit in target type"

/-- Reads digits from the left up to the first one that is no digit or exceeds the limit. -/
def boundedDigits (limit : Nat) (excess : WholeError) : Nat → List Char → Except WholeError Nat
  | n, [] => .ok n
  | n, c :: cs =>
    match digitValue? c with
    | none => .error .invalidDigit
    | some d =>
      if 10 * n + d ≤ limit then boundedDigits limit excess (10 * n + d) cs else .error excess

def readNat (limit : Nat) (s : String) : Except WholeError Nat :=
  match s.toList with
  | [] => .error .empty
  | '+' :: [] => .error .invalidDigit
  | '+' :: cs => boundedDigits limit .tooLarge 0 cs
  | cs => boundedDigits limit .tooLarge 0 cs

def readInt (s : String) : Except WholeError Int :=
  match s.toList with
  | '-' :: [] => .error .invalidDigit
  | '-' :: cs => (boundedDigits (Nat.pow 2 63) .tooSmall 0 cs).map fun n => -(n : Int)
  | _ => (readNat (Nat.pow 2 63 - 1) s).map Int.ofNat

def maxWord64 : Nat := Nat.pow 2 64 - 1

def maxWord32 : Nat := Nat.pow 2 32 - 1

def toFloat (negative : Bool) (digits : List Nat) (exponent : Int) : Float :=
  let magnitude := Float.ofScientific (ofDigits digits) (decide (exponent < 0)) exponent.natAbs
  if negative then -magnitude else magnitude

def splitSign : List Char → Bool × List Char
  | '-' :: cs => (true, cs)
  | '+' :: cs => (false, cs)
  | cs => (false, cs)

def exponentOf? : List Char → Option Int
  | [] => some 0
  | c :: cs =>
    if c == 'e' || c == 'E' then
      let (negative, rest) := splitSign cs
      match takeDigits rest with
      | ([], _) => none
      | (ds, []) => some (if negative then -(ofDigits ds : Int) else ofDigits ds)
      | (_, _ :: _) => none
    else none

/-- An unsigned decimal: digits with at most one point, at least one digit, optional exponent. -/
def magnitude? (negative : Bool) (cs : List Char) : Option Float := do
  let (whole, rest) := takeDigits cs
  let (fraction, rest) := match rest with
    | '.' :: rest => takeDigits rest
    | rest => ([], rest)
  if whole.isEmpty && fraction.isEmpty then none
  let exponent ← exponentOf? rest
  some (toFloat negative (whole ++ fraction) (exponent - fraction.length))

inductive FloatError where
  | empty
  | invalid
  deriving DecidableEq, Repr

def FloatError.message : FloatError → String
  | .empty => "cannot parse float from empty string"
  | .invalid => "invalid float literal"

def lowerAscii (cs : List Char) : List Char := cs.map Char.toLower

/-- A decimal, or one of the words `inf`, `infinity` and `nan` in any case, after an optional
sign. -/
def readFloat (s : String) : Except FloatError Float :=
  if s.isEmpty then .error .empty
  else
    let (negative, cs) := splitSign s.toList
    let word := String.ofList (lowerAscii cs)
    if word = "nan" then .ok (if negative then -(0.0 / 0.0) else 0.0 / 0.0)
    else if word = "inf" ∨ word = "infinity" then .ok (if negative then -(1.0 / 0.0) else 1.0 / 0.0)
    else match magnitude? negative cs with
      | some x => .ok x
      | none => .error .invalid

end Matchmaker.Decimal
