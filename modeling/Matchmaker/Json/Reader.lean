import Matchmaker.Decimal.Literal
import Matchmaker.Json.Value
import Matchmaker.Text.Hex

/-!
Reading documents. The grammar is strict: no comments, no trailing commas, no text after the value,
no raw control characters in strings. Values may nest to any depth.
-/
namespace Matchmaker.Json

def isSpace (c : Char) : Bool := c = ' ' || c = '\t' || c = '\n' || c = '\r'

def skipSpace (cs : List Char) : List Char := cs.dropWhile isSpace

def codeUnit? : List Char → Option (Nat × List Char)
  | a :: b :: c :: d :: rest => do
    let a ← Text.hexValue? a
    let b ← Text.hexValue? b
    let c ← Text.hexValue? c
    let d ← Text.hexValue? d
    some (((a * 16 + b) * 16 + c) * 16 + d, rest)
  | _ => none

def isHighSurrogate (unit : Nat) : Bool := 0xD800 ≤ unit && unit ≤ 0xDBFF

def isLowSurrogate (unit : Nat) : Bool := 0xDC00 ≤ unit && unit ≤ 0xDFFF

def escaped? (c : Char) : Option Char :=
  if c = '"' then some '"'
  else if c = '\\' then some '\\'
  else if c = '/' then some '/'
  else if c = 'b' then some '\x08'
  else if c = 'f' then some '\x0c'
  else if c = 'n' then some '\n'
  else if c = 'r' then some '\r'
  else if c = 't' then some '\t'
  else none

/-- A piece of a string: a character, or half of a surrogate pair. -/
inductive Piece where
  | char (c : Char)
  | half (unit : Nat)
  deriving Repr

/-- The pieces up to the closing quote, and what follows it. Fuel is the number of characters. -/
def pieces : Nat → List Char → Option (List Piece × List Char)
  | 0, _ => none
  | _ + 1, [] => none
  | _ + 1, '"' :: rest => some ([], rest)
  | fuel + 1, '\\' :: 'u' :: rest => do
    let (unit, rest) ← codeUnit? rest
    let (tail, rest) ← pieces fuel rest
    some ((if isHighSurrogate unit || isLowSurrogate unit then .half unit
      else .char (Char.ofNat unit)) :: tail, rest)
  | fuel + 1, '\\' :: c :: rest => do
    let c ← escaped? c
    let (tail, rest) ← pieces fuel rest
    some (.char c :: tail, rest)
  | fuel + 1, c :: rest =>
    if c.toNat < 0x20 || c = '\\' then none
    else do
      let (tail, rest) ← pieces fuel rest
      some (.char c :: tail, rest)

/-- The characters of the pieces; a half without its other half has none. -/
def joinPieces : List Piece → Option (List Char)
  | [] => some []
  | .char c :: rest => (joinPieces rest).map (c :: ·)
  | .half high :: .half low :: rest =>
    if isHighSurrogate high && isLowSurrogate low then
      (joinPieces rest).map (Char.ofNat (0x10000 + (high - 0xD800) * 0x400 + (low - 0xDC00)) :: ·)
    else none
  | .half _ :: _ => none

def stringBody (cs : List Char) : Option (Option String × List Char) := do
  let (found, rest) ← pieces (cs.length + 1) cs
  some ((joinPieces found).map String.ofList, rest)

def exponentPart : List Char → Option (Option Int × List Char)
  | [] => some (none, [])
  | c :: cs =>
    if c = 'e' || c = 'E' then
      let (negative, rest) := Decimal.splitSign cs
      match Decimal.takeDigits rest with
      | ([], _) => none
      | (ds, rest) =>
        some (some (if negative then -(Decimal.ofDigits ds : Int) else Decimal.ofDigits ds), rest)
    else some (none, c :: cs)

/-- The fraction digits, if there is a point; a point needs at least one. -/
def fractionPart : List Char → Option (List Nat × List Char)
  | '.' :: cs =>
    match Decimal.takeDigits cs with
    | ([], _) => none
    | (ds, rest) => some (ds, rest)
  | cs => some ([], cs)

def unsignedPart (negative : Bool) (cs : List Char) : Option (Decimal.Parts × List Char) := do
  let (whole, rest) := Decimal.takeDigits cs
  match whole with
  | [] => none
  | 0 :: _ :: _ => none
  | _ =>
    let (fraction, rest) ← fractionPart rest
    let (exponent, rest) ← exponentPart rest
    some (⟨negative, whole, fraction, exponent⟩, rest)

def numberPart : List Char → Option (Decimal.Parts × List Char)
  | '-' :: cs => unsignedPart true cs
  | cs => unsignedPart false cs

def afterWord? (word : String) (cs : List Char) : Option (List Char) :=
  if word.toList.isPrefixOf cs then some (cs.drop word.toList.length) else none

mutual

/-- A value without blanks before it, and what follows. Fuel bounds the depth of the calls. -/
def value : Nat → List Char → Option (Json × List Char)
  | 0, _ => none
  | fuel + 1, cs =>
    match cs with
    | [] => none
    | '"' :: rest => do
      let (found, rest) ← stringBody rest
      some (match found with | some s => text s | none => unpaired, rest)
    | '[' :: rest =>
      match skipSpace rest with
      | ']' :: rest => some (array [], rest)
      | rest => (items fuel rest).map fun (found, rest) => (array found, rest)
    | '\x7b' :: rest =>
      match skipSpace rest with
      | '\x7d' :: rest => some (object [], rest)
      | rest => (members fuel rest).map fun (found, rest) => (object found, rest)
    | 'n' :: _ => (afterWord? "null" cs).map fun rest => (null, rest)
    | 't' :: _ => (afterWord? "true" cs).map fun rest => (bool true, rest)
    | 'f' :: _ => (afterWord? "false" cs).map fun rest => (bool false, rest)
    | _ => (numberPart cs).map fun (parts, rest) => (number parts, rest)

def items : Nat → List Char → Option (List Json × List Char)
  | 0, _ => none
  | fuel + 1, cs => do
    let (first, rest) ← value fuel cs
    match skipSpace rest with
    | ']' :: rest => some ([first], rest)
    | ',' :: rest =>
      let (others, rest) ← items fuel (skipSpace rest)
      some (first :: others, rest)
    | _ => none

def members : Nat → List Char → Option (List (Option String × Json) × List Char)
  | 0, _ => none
  | fuel + 1, cs =>
    match cs with
    | '"' :: rest => do
      let (key, rest) ← stringBody rest
      match skipSpace rest with
      | ':' :: rest =>
        let (first, rest) ← value fuel (skipSpace rest)
        match skipSpace rest with
        | '\x7d' :: rest => some ([(key, first)], rest)
        | ',' :: rest =>
          let (others, rest) ← members fuel (skipSpace rest)
          some ((key, first) :: others, rest)
        | _ => none
      | _ => none
    | _ => none

end

def parse? (s : String) : Option Json := do
  let cs := s.toList
  let (found, rest) ← value (cs.length + 1) (skipSpace cs)
  if (skipSpace rest).isEmpty then some found else none

end Matchmaker.Json
