/-!
Numbers as lists of decimal digits, most significant first.
-/
namespace Matchmaker.Decimal

def digitValue? (c : Char) : Option Nat :=
  if '0' ≤ c && c ≤ '9' then some (c.toNat - '0'.toNat) else none

def isDigit (c : Char) : Bool := (digitValue? c).isSome

def digitChar (d : Nat) : Char := Nat.digitChar d

def ofDigits (digits : List Nat) : Nat := digits.foldl (fun n d => 10 * n + d) 0

/-- The digits of a number; those of zero are `[0]`. -/
def digits (n : Nat) : List Nat :=
  if _h : n < 10 then [n] else digits (n / 10) ++ [n % 10]
termination_by n
decreasing_by omega

def natChars (n : Nat) : List Char := (digits n).map digitChar

def natText (n : Nat) : String := String.ofList (natChars n)

def intText (n : Int) : String := if n < 0 then "-" ++ natText n.natAbs else natText n.natAbs

/-- Splits off the digits a text starts with. -/
def takeDigits (cs : List Char) : List Nat × List Char :=
  ((cs.takeWhile isDigit).filterMap digitValue?, cs.dropWhile isDigit)

end Matchmaker.Decimal
