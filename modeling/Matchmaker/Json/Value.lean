import Matchmaker.Decimal.Layout

/-!
Documents: values, and the parts of a number as it was written.
-/
namespace Matchmaker

inductive Json where
  | null
  | bool (value : Bool)
  | number (parts : Decimal.Parts)
  | text (value : String)
  /-- A text with an unpaired surrogate escape: well formed, but no string. -/
  | unpaired
  | array (items : List Json)
  /-- Members in the order in which they were written; a key with an unpaired surrogate escape is
  `none`. -/
  | object (members : List (Option String × Json))
  deriving Repr, Inhabited

namespace Json

def ofNat (n : Nat) : Json := number (.ofNat n)

def ofInt (n : Int) : Json := number (.ofInt n)

/-- A number that is not finite is written as null. -/
def ofFloat (x : Float) : Json :=
  match Decimal.Parts.ofFloat? x with
  | some parts => number parts
  | none => null

def ofOption {α : Type} (f : α → Json) : Option α → Json
  | some a => f a
  | none => null

def ofList {α : Type} (f : α → Json) (xs : List α) : Json := array (xs.map f)

def record (members : List (String × Json)) : Json :=
  object (members.map fun (key, value) => (some key, value))

end Json

end Matchmaker
