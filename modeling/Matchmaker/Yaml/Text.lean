import Matchmaker.Text.Hex
import Matchmaker.Yaml.Source

/-!
The text of scalars: plain, between quotes, or in an indented block. Line breaks inside the first
two are folded.
-/
namespace Matchmaker.Yaml

inductive Style where
  | plain
  | quoted
  | literal
  | folded
  deriving DecidableEq, Repr

/-! ### Folding -/

/-- Breaks after folding: one line feed becomes a space, further ones stay. -/
def foldBreaks : List Char → List Char
  | ['\n'] => [' ']
  | '\n' :: more => more
  | breaks => breaks

/-- What a gap inside a scalar stands for: its blanks, or without them its folded breaks. -/
def gapText (gap : Source) : List Char :=
  match gap.text.filter isBreak with
  | [] => gap.text
  | breaks => foldBreaks breaks

/-! ### Plain scalars -/

def flowIndicators : List Char := [',', '[', ']', '\x7b', '\x7d']

/-- A piece of a plain scalar without gaps. A colon ends it before a gap; inside brackets one before
another indicator is refused. -/
def plainPiece (flow : Bool) : Source → Option (List Char × Source)
  | [] => some ([], [])
  | g :: rest =>
    if isGap g.char then some ([], g :: rest)
    else if flow && g.char = ':' && Source.nextIn rest ('?' :: flowIndicators) then none
    else if (g.char = ':' && Source.atGap rest) || (flow && flowIndicators.contains g.char) then
      some ([], g :: rest)
    else do
      let (piece, rest) ← plainPiece flow rest
      some (g.char :: piece, rest)

def hasIndentingTab (indent : Nat) (gap : Source) : Bool :=
  (gap.dropWhile fun g => !isBreak g.char).any fun g => g.char = '\t' && g.column < indent

/-- The pieces of a plain scalar, whether its last gap has a break, and what follows. The lines
after the first have to reach the indentation, unless within brackets. -/
def plainPieces (flow : Bool) (indent : Nat) : Nat → Source → Option (List Char × Bool × Source)
  | 0, _ => none
  | fuel + 1, s =>
    if s.atDocumentMark || s.next '#' then some ([], false, s)
    else do
      let (piece, rest) ← plainPiece flow s
      let (gap, after) := rest.span isGap
      if gap.isEmpty then some (piece, false, rest)
      else if hasIndentingTab indent gap then none
      else
        let broken := gap.any fun g => isBreak g.char
        if !flow && after.head?.any (·.column < indent) then some (piece, broken, after)
        else
          let (more, brokenLater, rest) ← plainPieces flow indent fuel after
          if more.isEmpty then some (piece, broken, rest)
          else some (piece ++ gapText gap ++ more, brokenLater, rest)

def plainText (flow : Bool) (indent : Nat) (s : Source) : Option (String × Bool × Source) := do
  let (text, broken, rest) ← plainPieces flow indent (s.length + 1) s
  some (String.ofList text, broken, rest)

/-! ### Quoted scalars -/

def namedEscape? (c : Char) : Option Char :=
  [('0', '\x00'), ('a', '\x07'), ('b', '\x08'), ('t', '\t'), ('\t', '\t'), ('n', '\n'), ('v', '\x0b'),
    ('f', '\x0c'), ('r', '\r'), ('e', '\x1b'), (' ', ' '), ('"', '"'), ('/', '/'), ('\\', '\\'),
    ('N', '\u0085'), ('_', '\u00a0'), ('L', '\u2028'), ('P', '\u2029')].lookup c

def escapeWidth? (c : Char) : Option Nat := [('x', 2), ('u', 4), ('U', 8)].lookup c

def character? (n : Nat) : Option Char := if n.isValidChar then some (Char.ofNat n) else none

def hexNumber? (digits : List Char) : Option Nat :=
  digits.foldlM (fun n c => (Text.hexValue? c).map (16 * n + ·)) 0

def escape? : Source → Option (Char × Source)
  | [] => none
  | g :: rest =>
    match namedEscape? g.char with
    | some c => some (c, rest)
    | none => do
      let width ← escapeWidth? g.char
      if rest.length < width then none
      let c ← (hexNumber? (Source.text (rest.take width))).bind character?
      some (c, rest.drop width)

/-- The text up to the closing double quote. A break after a backslash is left out together with the
blanks around it. -/
def doubleQuoted : Nat → Source → Option (List Char × Source)
  | 0, _ => none
  | _ + 1, [] => none
  | fuel + 1, g :: rest =>
    if Source.atDocumentMark (g :: rest) then none
    else if g.char = '"' then some ([], rest)
    else do
      let (text, rest) ←
        if g.char = '\\' then
          if rest.head?.any fun g => isBreak g.char then
            let (gap, rest) := Source.span (rest.drop 1) isGap
            some (gap.text.filter isBreak, rest)
          else (escape? rest).map fun (c, rest) => ([c], rest)
        else if isGap g.char then
          let (gap, rest) := Source.span (g :: rest) isGap
          some (gapText gap, rest)
        else some ([g.char], rest)
      let (more, rest) ← doubleQuoted fuel rest
      some (text ++ more, rest)

def singleQuoted : Nat → Source → Option (List Char × Source)
  | 0, _ => none
  | _ + 1, [] => none
  | fuel + 1, g :: rest =>
    if Source.atDocumentMark (g :: rest) then none
    else if g.char = '\'' && !Source.next rest '\'' then some ([], rest)
    else do
      let (text, rest) :=
        if g.char = '\'' then (['\''], rest.drop 1)
        else if isGap g.char then
          let (gap, rest) := Source.span (g :: rest) isGap
          (gapText gap, rest)
        else ([g.char], rest)
      let (more, rest) ← singleQuoted fuel rest
      some (text ++ more, rest)

def quotedText (quote : Char) (s : Source) : Option (String × Source) := do
  let fuel := s.length + 1
  let (text, rest) ← if quote = '"' then doubleQuoted fuel s else singleQuoted fuel s
  some (String.ofList text, rest)

/-! ### Blocks -/

inductive Chomping where
  | strip
  | clip
  | keep
  deriving DecidableEq, Repr

def chomping? (s : Source) : Option Chomping :=
  s.head?.bind fun g => [('-', Chomping.strip), ('+', .keep)].lookup g.char

def indentation? (s : Source) : Option (Nat × Source) :=
  match s with
  | g :: rest =>
    if g.char = '0' then none
    else if isDigit g.char then some (g.char.toNat - '0'.toNat, rest)
    else some (0, s)
  | [] => some (0, s)

/-- The header of a block: its chomping and its indentation, zero if that is not given, in either
order; then nothing more on the line but a comment. -/
def blockHeader (s : Source) : Option (Chomping × Nat × Source) := do
  let (chomping, increment, rest) ← match chomping? s with
    | some chomping => (indentation? (s.drop 1)).map fun (n, rest) => (chomping, n, rest)
    | none => (indentation? s).map fun (n, rest) =>
      match if n = 0 then none else chomping? rest with
      | some chomping => (chomping, n, rest.drop 1)
      | none => (.clip, n, rest)
  let rest := (rest.span isBlank).2
  let rest := if rest.next '#' then (rest.span fun c => !isBreak c).2 else rest
  if rest.atLineEnd then some (chomping, increment, rest.drop 1) else none

/-- The breaks of blank lines, and the farthest column reached between them. Indentation zero stands
for one that is still unknown. -/
def blankLines (indent : Nat) : Nat → Source → Option (List Char × Nat × Source)
  | farthest, [] => some ([], farthest, [])
  | farthest, g :: rest =>
    let farthest := Nat.max farthest g.column
    let outside : Bool := indent = 0 || g.column < indent
    if outside && g.char = ' ' then blankLines indent farthest rest
    else if outside && g.char = '\t' then none
    else if isBreak g.char then do
      let (breaks, farthest, rest) ← blankLines indent farthest rest
      some (g.char :: breaks, farthest, rest)
    else some ([], farthest, g :: rest)

/-- The breaks between two lines of a block: the one that ends the first, and those of blank lines. In
a folded block a single break between lines that start with no blank becomes a space. -/
def joinLines (folds : Bool) (ending blank : List Char) : List Char :=
  if folds && ending = ['\n'] then (if blank.isEmpty then [' '] else blank) else ending ++ blank

def blockLines (folded : Bool) (indent : Nat) :
    Nat → List Char → List Char → Bool → Source → Option (List Char × List Char × List Char × Source)
  | 0, _, _, _, _ => none
  | fuel + 1, ending, blank, startsBlank, s =>
    if s.head?.any (·.column = indent) then do
      let startsBlankNow := s.head?.any fun g => isBlank g.char
      let between := joinLines (folded && !startsBlank && !startsBlankNow) ending blank
      let (line, rest) := s.span fun c => !isBreak c
      let (blankNow, _, after) ← blankLines indent 0 (rest.drop 1)
      let (more, last, trailing, rest) ←
        blockLines folded indent fuel (Source.text (rest.take 1)) blankNow startsBlankNow after
      some (between ++ line.text ++ more, last, trailing, rest)
    else some ([], ending, blank, s)

def blockText (folded : Bool) (parent : Int) (s : Source) : Option (String × Source) := do
  let (chomping, increment, rest) ← blockHeader s
  let given := if increment = 0 then 0 else (if 0 ≤ parent then parent.toNat else 0) + increment
  let (blank, farthest, rest) ← blankLines given 0 rest
  let indent := if given = 0 then Nat.max farthest (Nat.max (parent + 1).toNat 1) else given
  let (text, last, trailing, rest) ← blockLines folded indent (rest.length + 1) [] blank false rest
  let ending := match chomping with
    | .strip => []
    | .clip => last
    | .keep => last ++ trailing
  some (String.ofList (text ++ ending), rest)

end Matchmaker.Yaml
