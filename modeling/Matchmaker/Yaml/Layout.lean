import Matchmaker.Yaml.Token

/-!
Tokens in their layout. Indentation opens and closes blocks, and a colon turns what stands before it
on its line into a key: the token for that goes where the key began.
-/
namespace Matchmaker.Yaml

/-- A place where a key may have begun. -/
structure KeyPlace where
  /-- The number of tokens before it. -/
  tokens : Nat
  line : Nat
  column : Nat
  /-- Whether nothing but a key can stand there. -/
  required : Bool

structure Layout where
  rest : Source
  /-- The latest token first. -/
  tokens : List Token := []
  /-- The column of the innermost block. -/
  indent : Int := -1
  outer : List Int := []
  /-- The key that may have begun at each depth of brackets, the innermost first. -/
  keys : List (Option KeyPlace) := [none]
  /-- Whether a key may begin here. -/
  keyAllowed : Bool := true

def maxKeyLength : Nat := 1024

/-- Skips blanks, comments and breaks. A tab counts as a blank only where no key may begin; outside
of brackets a break allows one. -/
def skipGap (flow : Bool) : Bool → Bool → Source → Bool × Source
  | _, allowed, [] => (allowed, [])
  | comment, allowed, g :: rest =>
    if isBreak g.char then skipGap flow false (allowed || !flow) rest
    else if comment || g.char = '#' then skipGap flow true allowed rest
    else if g.char = ' ' || (g.char = '\t' && (flow || !allowed))
        || (g.char = byteOrderMark && g.column = 0) then skipGap flow false allowed rest
    else (allowed, g :: rest)

def closeBlocks (column : Int) : Int → List Int → List Token → Int × List Int × List Token
  | indent, [], tokens => (indent, [], tokens)
  | indent, enclosing :: outer, tokens =>
    if column < indent then closeBlocks column enclosing outer (.blockEnd :: tokens)
    else (indent, enclosing :: outer, tokens)

namespace Layout

variable (l : Layout)

def flow : Bool := 1 < l.keys.length

def column : Nat := (l.rest.head?.map Glyph.column).getD 0

def line : Nat := (l.rest.head?.map Glyph.line).getD 0

def emit (token : Token) : Layout := { l with tokens := token :: l.tokens }

def insert (count : Nat) (token : Token) : Layout :=
  let (later, earlier) := l.tokens.splitAt (l.tokens.length - count)
  { l with tokens := later ++ token :: earlier }

def drop (n : Nat) : Layout := { l with rest := l.rest.drop n }

def allowKey (allowed : Bool) : Layout := { l with keyAllowed := allowed }

/-- Outside of brackets, closes the blocks that are indented further than a column. -/
def closeTo (column : Int) : Layout :=
  if l.flow then l
  else
    let (indent, outer, tokens) := closeBlocks column l.indent l.outer l.tokens
    { l with indent := indent, outer := outer, tokens := tokens }

/-- Outside of brackets, opens a block at a column that is indented further than the innermost one. -/
def openAt (column : Nat) (count : Nat) (token : Token) : Layout :=
  if !l.flow && l.indent < column then
    { l.insert count token with indent := column, outer := l.indent :: l.outer }
  else l

/-- Gives up the key that may have begun at this depth; a required one is missed. -/
def forgetKey : Option Layout :=
  match l.keys with
  | some k :: keys => if k.required then none else some { l with keys := none :: keys }
  | _ => some l

/-- Notes that a key may begin here. -/
def noteKey : Option Layout :=
  if l.keyAllowed then do
    let l ← l.forgetKey
    let required := !l.flow && l.indent = l.column
    some { l with keys := some ⟨l.tokens.length, l.line, l.column, required⟩ :: l.keys.drop 1 }
  else some l

def forgetStale : Option Layout := do
  let stale (k : KeyPlace) : Bool := k.line < l.line || k.column + maxKeyLength < l.column
  if l.keys.any fun k => k.any fun k => stale k && k.required then none
  some { l with keys := l.keys.map fun k => k.filter fun k => !stale k }

/-- The end of a document's content: closes all blocks. -/
def endContent : Option Layout := do
  let l ← (l.closeTo (-1)).forgetKey
  some (l.allowKey false)

def documentMark (token : Token) : Option Layout := do
  let l ← l.endContent
  some ((l.emit token).drop 3)

def directive : Option Layout := do
  let l ← l.endContent
  let (token, rest) ← directive? (l.rest.drop 1)
  some { l.emit token with rest := rest }

def openBracket (token : Token) : Option Layout := do
  let l ← l.noteKey
  some { (l.emit token).drop 1 with keys := none :: l.keys, keyAllowed := true }

def closeBracket (token : Token) : Option Layout := do
  let l ← l.forgetKey
  let keys := if l.flow then l.keys.drop 1 else l.keys
  some { (l.emit token).drop 1 with keys := keys, keyAllowed := false }

def separator : Option Layout := do
  let l ← l.forgetKey
  some (((l.emit .separator).drop 1).allowKey true)

/-- An indicator that may open a block; outside of brackets it stands where a key may begin. -/
def openBlock (token : Token) : Option Layout :=
  if l.flow then some l
  else if l.keyAllowed then some (l.openAt l.column l.tokens.length token)
  else none

def entry : Option Layout := do
  let l ← l.openBlock .blockSequence
  let l ← l.forgetKey
  some (((l.emit .entry).drop 1).allowKey true)

def key : Option Layout := do
  let l ← l.openBlock .blockMapping
  let l ← l.forgetKey
  some (((l.emit .key).drop 1).allowKey !l.flow)

/-- A colon: what began as a key becomes one; without that the key is empty or was marked. -/
def value : Option Layout :=
  match l.keys with
  | some k :: keys =>
    let l := { l with keys := none :: keys }
    let l := (l.insert k.tokens .key).openAt k.column k.tokens .blockMapping
    some (((l.emit .value).drop 1).allowKey false)
  | _ => do
    let l ← l.openBlock .blockMapping
    some (((l.emit .value).drop 1).allowKey !l.flow)

def keyed (read : Source → Option (Token × Source)) : Option Layout := do
  let l ← l.noteKey
  let (token, rest) ← read l.rest
  some { l.emit token with rest := rest, keyAllowed := false }

def anchor (token : String → Token) : Option Layout :=
  l.keyed fun s => (anchorName? (s.drop 1)).map fun (name, rest) => (token name, rest)

def quoted (quote : Char) : Option Layout :=
  l.keyed fun s => (quotedText quote (s.drop 1)).map fun (text, rest) => (.scalar .quoted text, rest)

def block (style : Style) : Option Layout := do
  let l ← l.forgetKey
  let (text, rest) ← blockText (style = .folded) l.indent (l.rest.drop 1)
  some { l.emit (.scalar style text) with rest := rest, keyAllowed := true }

/-- A plain scalar; after one that ends with a break a key may begin. -/
def plain : Option Layout := do
  let l ← l.noteKey
  let (text, broken, rest) ← plainText l.flow (l.indent + 1).toNat l.rest
  some { l.emit (.scalar .plain text) with rest := rest, keyAllowed := broken }

def indicators : List Char := "-?:,[]\x7b\x7d#&*!|>'\"%@\x60".toList

def startsPlain (c : Char) (rest : Source) : Bool :=
  !(isGap c || indicators.contains c)
    || (c = '-' && !rest.head?.any fun g => isBlank g.char)
    || (!l.flow && (c = '?' || c = ':') && !rest.atGap)

def token (c : Char) (rest : Source) : Option Layout :=
  if c = '%' && l.column = 0 then l.directive
  else if l.rest.atMark '-' then l.documentMark .documentStart
  else if l.rest.atMark '.' then l.documentMark .documentEnd
  else if c = '[' then l.openBracket .flowSequence
  else if c = '\x7b' then l.openBracket .flowMapping
  else if c = ']' then l.closeBracket .flowSequenceEnd
  else if c = '\x7d' then l.closeBracket .flowMappingEnd
  else if c = ',' then l.separator
  else if c = '-' && rest.atGap then l.entry
  else if c = '?' && (l.flow || rest.atGap) then l.key
  else if c = ':' && (l.flow || rest.atGap) then l.value
  else if c = '*' then l.anchor .alias
  else if c = '&' then l.anchor .anchor
  else if c = '!' then l.keyed (tagToken? l.flow)
  else if c = '|' && !l.flow then l.block .literal
  else if c = '>' && !l.flow then l.block .folded
  else if c = '\'' || c = '"' then l.quoted c
  else if l.startsPlain c rest then l.plain
  else none

/-- All tokens; each takes at least one character. -/
def tokensWithin : Nat → Layout → Option (List Token)
  | 0, _ => none
  | fuel + 1, l => do
    let (allowed, rest) := skipGap l.flow false l.keyAllowed l.rest
    let l := { l with rest := rest, keyAllowed := allowed }
    match rest with
    | [] => l.endContent.map fun l => l.tokens.reverse
    | g :: after =>
      let l ← l.forgetStale
      let l ← (l.closeTo l.column).token g.char after
      tokensWithin fuel l

end Layout

def Token.ofText? (text : String) : Option (List Token) := do
  let source ← Source.ofText? text
  Layout.tokensWithin (source.length + 1) { rest := source }

end Matchmaker.Yaml
