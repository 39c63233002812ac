import Matchmaker.Decimal.Digits
import Matchmaker.Yaml.Text

/-!
The tokens of a document, and those that are read without regard to layout: names of anchors, tags
and directives.
-/
namespace Matchmaker.Yaml

inductive Token where
  | version (major minor : Nat)
  /-- A handle for tags and what it stands for. -/
  | shorthand (handle expansion : String)
  | documentStart
  | documentEnd
  | blockSequence
  | blockMapping
  | blockEnd
  | flowSequence
  | flowSequenceEnd
  | flowMapping
  | flowMappingEnd
  | entry
  | separator
  | key
  | value
  | anchor (name : String)
  | alias (name : String)
  | tag (handle suffix : String)
  | scalar (style : Style) (text : String)
  deriving DecidableEq, Repr

def anchorName? (s : Source) : Option (String × Source) :=
  let (name, rest) := s.span isWord
  if name.isEmpty || !(rest.atGap || rest.nextIn ['?', ':', ',', ']', '\x7d', '%', '@', '\x60']) then none
  else some (String.ofList name.text, rest)

def escapedBytes : Nat → Source → Option (List UInt8 × Source)
  | 0, rest => some ([], rest)
  | count + 1, percent :: high :: low :: rest => do
    if percent.char ≠ '%' then none
    let byte ← hexNumber? [high.char, low.char]
    let (bytes, rest) ← escapedBytes count rest
    some (UInt8.ofNat byte :: bytes, rest)
  | _ + 1, _ => none

/-- The length of a character in bytes, by the first of them. -/
def encodedLength? (first : Nat) : Option Nat :=
  if first < 0x80 then some 1
  else if first &&& 0xE0 = 0xC0 then some 2
  else if first &&& 0xF0 = 0xE0 then some 3
  else if first &&& 0xF8 = 0xF0 then some 4
  else none

/-- A character of a tag that is written by its bytes. -/
def tagEscape? (s : Source) : Option (List Char × Source) := do
  let (first, _) ← escapedBytes 1 s
  let length ← encodedLength? (first.headD 0).toNat
  let (bytes, rest) ← escapedBytes length s
  let text ← String.fromUTF8? (ByteArray.mk bytes.toArray)
  some (text.toList, rest)

def isTagCharacter (full : Bool) (c : Char) : Bool :=
  isWord c || ";/?:@&=+$.%!~*'()".toList.contains c || (full && [',', '[', ']'].contains c)

def tagCharacters (full : Bool) : Nat → Source → Option (List Char × Source)
  | 0, _ => none
  | _ + 1, [] => some ([], [])
  | fuel + 1, g :: rest =>
    if !isTagCharacter full g.char then some ([], g :: rest)
    else do
      let (cs, rest) ← if g.char = '%' then tagEscape? (g :: rest) else some ([g.char], rest)
      let (more, rest) ← tagCharacters full fuel rest
      some (cs ++ more, rest)

/-- The handle of a tag: exclamation marks around a word, or the first of them alone. -/
def tagHandle? (s : Source) : Option (List Char × Source) :=
  if s.next '!' then
    let (word, rest) := Source.span (s.drop 1) isWord
    if rest.next '!' then some ('!' :: word.text ++ ['!'], rest.drop 1)
    else some ('!' :: word.text, rest)
  else none

def tagParts? (s : Source) : Option (List Char × List Char × Source) :=
  let fuel := s.length + 1
  if Source.next (s.drop 1) '<' then do
    let (suffix, rest) ← tagCharacters true fuel (s.drop 2)
    if suffix.isEmpty || !rest.next '>' then none
    some ([], suffix, rest.drop 1)
  else do
    let (handle, rest) ← tagHandle? s
    if 1 < handle.length && handle.getLast? = some '!' then
      let (suffix, rest) ← tagCharacters false fuel rest
      if suffix.isEmpty then none
      some (handle, suffix, rest)
    else
      let (more, rest) ← tagCharacters false fuel rest
      match handle.drop 1 ++ more with
      | [] => some ([], ['!'], rest)
      | suffix => some (['!'], suffix, rest)

def tagToken? (flow : Bool) (s : Source) : Option (Token × Source) := do
  let (handle, suffix, rest) ← tagParts? s
  if rest.atGap || (flow && rest.next ',') then
    some (.tag (String.ofList handle) (String.ofList suffix), rest)
  else none

def versionNumber? (s : Source) : Option (Nat × Source) :=
  let (digits, rest) := s.span isDigit
  if digits.isEmpty || 9 < digits.length then none
  else some (Decimal.ofDigits (digits.text.filterMap Decimal.digitValue?), rest)

def directiveToken? (name : String) (s : Source) : Option (Token × Source) :=
  if name = "YAML" then do
    let (major, rest) ← versionNumber? (s.span isBlank).2
    if !rest.next '.' then none
    let (minor, rest) ← versionNumber? (rest.drop 1)
    some (.version major minor, rest)
  else if name = "TAG" then do
    let (handle, rest) ← tagHandle? (s.span isBlank).2
    if (handle ≠ ['!'] && handle.getLast? ≠ some '!') || !rest.head?.any (fun g => isBlank g.char) then none
    let rest := (rest.span isBlank).2
    let (expansion, rest) ← tagCharacters true (rest.length + 1) rest
    if expansion.isEmpty || !rest.atGap then none
    some (.shorthand (String.ofList handle) (String.ofList expansion), rest)
  else none

def directive? (s : Source) : Option (Token × Source) := do
  let (name, rest) := s.span isWord
  if name.isEmpty || !rest.atGap then none
  let (token, rest) ← directiveToken? (String.ofList name.text) rest
  let rest := (rest.span isBlank).2
  let rest := if rest.next '#' then (rest.span fun c => !isBreak c).2 else rest
  if rest.atLineEnd then some (token, rest.drop 1) else none

end Matchmaker.Yaml
