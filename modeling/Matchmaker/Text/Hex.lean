/-!
Hexadecimal digits, lower case when written and of either case when read.
-/
namespace Matchmaker.Text

def hexDigit (n : Nat) : Char := Nat.digitChar (n % 16)

/-- The last `places` hexadecimal digits of a number. -/
def hexPlaces : Nat → Nat → List Char
  | 0, _ => []
  | places + 1, n => hexPlaces places (n / 16) ++ [hexDigit n]

def hexValue? (c : Char) : Option Nat :=
  if '0' ≤ c && c ≤ '9' then some (c.toNat - '0'.toNat)
  else if 'a' ≤ c && c ≤ 'f' then some (c.toNat - 'a'.toNat + 10)
  else if 'A' ≤ c && c ≤ 'F' then some (c.toNat - 'A'.toNat + 10)
  else none

end Matchmaker.Text
