import Matchmaker.Json.Value
import Matchmaker.Text.Hex

/-!
Writing documents: compact, and indented by two spaces a level. A quote, a backslash and the control
characters below U+0020 are escaped, all else is written as it is.
-/
namespace Matchmaker.Json

def escapeLetter? (c : Char) : Option Char :=
  if c = '"' then some '"'
  else if c = '\\' then some '\\'
  else if c = '\n' then some 'n'
  else if c = '\r' then some 'r'
  else if c = '\t' then some 't'
  else if c = '\x08' then some 'b'
  else if c = '\x0c' then some 'f'
  else none

def escapeChar (c : Char) : List Char :=
  match escapeLetter? c with
  | some letter => ['\\', letter]
  | none => if c.toNat < 0x20 then '\\' :: 'u' :: Text.hexPlaces 4 c.toNat else [c]

def quote (s : String) : List Char := '"' :: s.toList.flatMap escapeChar ++ ['"']

/-- A key or text with an unpaired surrogate has no characters of its own. -/
def quoteKey (key : Option String) : List Char := quote (key.getD "")

mutual

def compact : Json → List Char
  | null => "null".toList
  | bool value => (if value then "true" else "false").toList
  | number parts => parts.chars
  | text value => quote value
  | unpaired => quoteKey none
  | array items => '[' :: compactItems items ++ [']']
  | object members => '\x7b' :: compactMembers members ++ ['\x7d']

def compactItems : List Json → List Char
  | [] => []
  | [item] => compact item
  | item :: items => compact item ++ ',' :: compactItems items

def compactMembers : List (Option String × Json) → List Char
  | [] => []
  | [(key, value)] => quoteKey key ++ ':' :: compact value
  | (key, value) :: members => quoteKey key ++ ':' :: compact value ++ ',' :: compactMembers members

end

def newline (depth : Nat) : List Char := '\n' :: List.replicate (2 * depth) ' '

mutual

/-- The indented form of a value that stands at the given depth; an empty array or object stays on
one line. -/
def indented (depth : Nat) : Json → List Char
  | array [] => ['[', ']']
  | array items => '[' :: indentedItems (depth + 1) items ++ newline depth ++ [']']
  | object [] => ['\x7b', '\x7d']
  | object members => '\x7b' :: indentedMembers (depth + 1) members ++ newline depth ++ ['\x7d']
  | null => compact null
  | bool value => compact (bool value)
  | number parts => compact (number parts)
  | text value => compact (text value)
  | unpaired => compact unpaired

def indentedItems (depth : Nat) : List Json → List Char
  | [] => []
  | [item] => newline depth ++ indented depth item
  | item :: items => newline depth ++ indented depth item ++ ',' :: indentedItems depth items

def indentedMembers (depth : Nat) : List (Option String × Json) → List Char
  | [] => []
  | [(key, value)] => newline depth ++ quoteKey key ++ ':' :: ' ' :: indented depth value
  | (key, value) :: members =>
    newline depth ++ quoteKey key ++ ':' :: ' ' :: indented depth value
      ++ ',' :: indentedMembers depth members

end

def compactText (j : Json) : String := String.ofList (compact j)

def prettyText (j : Json) : String := String.ofList (indented 0 j)

end Matchmaker.Json
