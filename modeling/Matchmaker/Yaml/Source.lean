/-!
Text laid out on lines. Structure in this format comes from columns, so each character carries its
place; line breaks are made uniform first.
-/
namespace Matchmaker.Yaml

structure Glyph where
  char : Char
  line : Nat
  column : Nat
  deriving Repr

abbrev Source := List Glyph

def isBreak (c : Char) : Bool :=
  c = '\n' || c = '\r' || c = '\u0085' || c = '\u2028' || c = '\u2029'

def isBlank (c : Char) : Bool := c = ' ' || c = '\t'

def isGap (c : Char) : Bool := isBlank c || isBreak c

def isDigit (c : Char) : Bool := '0' ≤ c && c ≤ '9'

def isWord (c : Char) : Bool :=
  isDigit c || ('a' ≤ c && c ≤ 'z') || ('A' ≤ c && c ≤ 'Z') || c = '_' || c = '-'

def byteOrderMark : Char := '\ufeff'

/-- Whether a text may hold this character: no control characters but tab and the line breaks. -/
def isAllowed (c : Char) : Bool :=
  c = '\t' || c = '\n' || c = '\r' || (' ' ≤ c && c ≤ '~') || c = '\u0085'
    || ('\u00a0' ≤ c && c ≤ '\ufffd') || 0x10000 ≤ c.toNat

/-- The break as it is read: all but the two separators of Unicode become a line feed. -/
def uniformBreak (c : Char) : Char := if c = '\r' || c = '\u0085' then '\n' else c

def layOut (line column : Nat) : List Char → Source
  | [] => []
  | '\r' :: '\n' :: cs => ⟨'\n', line, column⟩ :: layOut (line + 1) 0 cs
  | c :: cs =>
    if isBreak c then ⟨uniformBreak c, line, column⟩ :: layOut (line + 1) 0 cs
    else ⟨c, line, column⟩ :: layOut line (column + 1) cs

namespace Source

/-- The source of a text, less a byte order mark in front. -/
def ofText? (text : String) : Option Source :=
  let cs := match text.toList with
    | [] => []
    | c :: cs => if c = byteOrderMark then cs else c :: cs
  if cs.all isAllowed then some (layOut 0 0 cs) else none

def text (s : Source) : List Char := s.map Glyph.char

def next (s : Source) (c : Char) : Bool := s.head?.any fun g => g.char = c

def nextIn (s : Source) (cs : List Char) : Bool := s.head?.any fun g => cs.contains g.char

/-- Whether a word ends here: at a blank, at a break or at the end. -/
def atGap (s : Source) : Bool := s.head?.all fun g => isGap g.char

def atLineEnd (s : Source) : Bool := s.head?.all fun g => isBreak g.char

def span (s : Source) (p : Char → Bool) : Source × Source :=
  (s.takeWhile fun g => p g.char, s.dropWhile fun g => p g.char)

/-- The three characters that delimit documents when they start a line and stand alone. -/
def atMark (s : Source) (c : Char) : Bool :=
  s.head?.any (·.column = 0) && text (s.take 3) == [c, c, c] && atGap (s.drop 3)

def atDocumentMark (s : Source) : Bool := s.atMark '-' || s.atMark '.'

end Source

end Matchmaker.Yaml
