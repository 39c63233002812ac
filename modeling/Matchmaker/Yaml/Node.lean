import Matchmaker.Yaml.Layout

/-!
The nodes of a document, from its tokens. An alias stays one: what it stands for is looked up when it
is read.
-/
namespace Matchmaker.Yaml

inductive Node where
  | scalar (style : Style) (tag : Option String) (text : String)
  | sequence (items : List Node)
  | mapping (entries : List (Node × Node))
  /-- The node that was given this number. -/
  | alias (id : Nat)
  deriving Repr

def Node.absent : Node := .scalar .plain none ""

structure Document where
  /-- Nothing for a text without a document. -/
  root : Option Node
  /-- The nodes with anchors, in the order in which they end. -/
  anchored : List (Nat × Node) := []
  /-- The node that each number was given to, the latest first. -/
  numbered : List (Nat × Nat) := []

structure Reading where
  tokens : List Token
  shorthands : List (String × String) := []
  /-- The numbers of anchor names, the latest first. -/
  names : List (String × Nat) := []
  numbered : List (Nat × Nat) := []
  anchored : List (Nat × Node) := []

abbrev Reader := StateT Reading Option

namespace Reader

def next? : Reader (Option Token) := return (← get).tokens.head?

def skip : Reader Unit := modify fun r => { r with tokens := r.tokens.drop 1 }

def skipped (token : Token) : Reader Bool := do
  if (← next?) = some token then skip; return true
  return false

def expect (token : Token) : Reader Unit := do
  if !(← skipped token) then failure

def atAny (tokens : List Token) : Reader Bool :=
  return (← next?).all fun token => tokens.contains token

/-- The number of the node that an alias with this name stands for. -/
def aliased (name : String) : Reader Nat := do
  match (← get).names.lookup name with
  | some id => return id
  | none => failure

/-- Gives a node its place among those with anchors. The number of an anchor is the count of
different names before it; of two nodes with one number the later one has it. -/
def anchorPlace (name : String) : Reader Nat := do
  let r ← get
  let id := r.names.length
  let place := r.numbered.length
  set { r with
    names := (name, id) :: r.names.filter fun (known, _) => known ≠ name
    numbered := (id, place) :: r.numbered }
  return place

def fullTag (handle suffix : String) : Reader String := do
  if handle = "" then return suffix
  match (← get).shorthands.lookup handle with
  | some expansion => return expansion ++ suffix
  | none => failure

/-- The anchor and the tag before a node, in either order. -/
def properties : Reader (Option String × Option String) := do
  match ← next? with
  | some (.anchor name) =>
    skip
    match ← next? with
    | some (.tag handle suffix) => skip; return (some name, some (← fullTag handle suffix))
    | _ => return (some name, none)
  | some (.tag handle suffix) =>
    skip
    match ← next? with
    | some (.anchor name) => skip; return (some name, some (← fullTag handle suffix))
    | _ => return (none, some (← fullTag handle suffix))
  | _ => return (none, none)

mutual

/-- A node: in a block or within brackets, and, in a block, perhaps a sequence that is indented no
further than the mapping around it. -/
def node (inBlock unindented : Bool) : Nat → Reader Node
  | 0 => failure
  | fuel + 1 => do
    if let some (.alias name) ← next? then
      skip
      return .alias (← aliased name)
    let (anchor, tag) ← properties
    let place ← anchor.mapM anchorPlace
    let found ← content inBlock unindented tag (anchor.isSome || tag.isSome) fuel
    if let some place := place then
      modify fun r => { r with anchored := (place, found) :: r.anchored }
    return found

def content (inBlock unindented : Bool) (tag : Option String) (mayBeAbsent : Bool) :
    Nat → Reader Node
  | 0 => failure
  | fuel + 1 => do
    match ← next? with
    | some (.scalar style text) => skip; return .scalar style tag text
    | some .flowSequence => skip; return .sequence (← flowItems true fuel)
    | some .flowMapping => skip; return .mapping (← flowEntries true fuel)
    | some .entry =>
      if unindented then return .sequence (← unindentedItems fuel)
      else if mayBeAbsent then return .scalar .plain tag ""
      else failure
    | some .blockSequence =>
      if inBlock then skip; return .sequence (← blockItems fuel)
      else if mayBeAbsent then return .scalar .plain tag ""
      else failure
    | some .blockMapping =>
      if inBlock then skip; return .mapping (← blockEntries fuel)
      else if mayBeAbsent then return .scalar .plain tag ""
      else failure
    | _ => if mayBeAbsent then return .scalar .plain tag "" else failure

/-- The node after an indicator, absent where one of these tokens comes next. -/
def nodeUnless (stops : List Token) (inBlock unindented : Bool) : Nat → Reader Node
  | 0 => failure
  | fuel + 1 => do
    if (← next?).any fun token => stops.contains token then return .absent
    node inBlock unindented fuel

def blockItems : Nat → Reader (List Node)
  | 0 => failure
  | fuel + 1 => do
    if ← skipped .entry then
      let item ← nodeUnless [.entry, .blockEnd] true false fuel
      return item :: (← blockItems fuel)
    expect .blockEnd
    return []

def unindentedItems : Nat → Reader (List Node)
  | 0 => failure
  | fuel + 1 => do
    if ← skipped .entry then
      let item ← nodeUnless [.entry, .key, .value, .blockEnd] true false fuel
      return item :: (← unindentedItems fuel)
    return []

def blockEntries : Nat → Reader (List (Node × Node))
  | 0 => failure
  | fuel + 1 => do
    if ← skipped .key then
      let stops := [.key, .value, .blockEnd]
      let key ← nodeUnless stops true true fuel
      let value ← if ← skipped .value then nodeUnless stops true true fuel else pure .absent
      return (key, value) :: (← blockEntries fuel)
    expect .blockEnd
    return []

/-- An item of a sequence in brackets, which may be a pair. -/
def flowItem : Nat → Reader Node
  | 0 => failure
  | fuel + 1 => do
    if ← skipped .key then
      let key ←
        if ← atAny [.value, .separator, .flowSequenceEnd] then skip; pure .absent
        else node false false fuel
      let value ←
        if ← skipped .value then nodeUnless [.separator, .flowSequenceEnd] false false fuel
        else pure .absent
      return .mapping [(key, value)]
    node false false fuel

def flowItems (first : Bool) : Nat → Reader (List Node)
  | 0 => failure
  | fuel + 1 => do
    if ← skipped .flowSequenceEnd then return []
    if !first then expect .separator
    if ← skipped .flowSequenceEnd then return []
    let item ← flowItem fuel
    return item :: (← flowItems false fuel)

def flowEntries (first : Bool) : Nat → Reader (List (Node × Node))
  | 0 => failure
  | fuel + 1 => do
    if ← skipped .flowMappingEnd then return []
    if !first then expect .separator
    if ← skipped .flowMappingEnd then return []
    if ← skipped .key then
      let key ← nodeUnless [.value, .separator, .flowMappingEnd] false false fuel
      let value ←
        if ← skipped .value then nodeUnless [.separator, .flowMappingEnd] false false fuel
        else pure .absent
      return (key, value) :: (← flowEntries false fuel)
    let key ← node false false fuel
    return (key, .absent) :: (← flowEntries false fuel)

end

def standardShorthands : List (String × String) := [("!", "!"), ("!!", "tag:yaml.org,2002:")]

/-- The directives before a document: at most one version, which has to be known, and each
shorthand once. -/
def directives (versions : Nat) (shorthands : List (String × String)) :
    List Token → Option (List (String × String) × List Token)
  | .version major minor :: rest =>
    if versions = 0 && major = 1 && (minor = 1 || minor = 2) then directives 1 shorthands rest
    else none
  | .shorthand handle expansion :: rest =>
    if (shorthands.lookup handle).isSome then none
    else directives versions ((handle, expansion) :: shorthands) rest
  | rest => some (shorthands ++ standardShorthands, rest)

def document (fuel : Nat) : Reader (Option Node) := do
  let r ← get
  match r.tokens with
  | [] => return none
  | .version _ _ :: _ | .shorthand _ _ :: _ | .documentStart :: _ =>
    match directives 0 [] r.tokens with
    | none => failure
    | some (shorthands, rest) =>
      set { r with tokens := rest, shorthands := shorthands }
      expect .documentStart
      match ← next? with
      | none | some (.version _ _) | some (.shorthand _ _) | some .documentStart
      | some .documentEnd => return some .absent
      | some _ => some <$> node true false fuel
  | _ =>
    set { r with shorthands := standardShorthands }
    some <$> node true false fuel

end Reader

def Document.ofText? (text : String) : Option Document := do
  let tokens ← Token.ofText? text
  let (root, left) ← (Reader.document (8 * tokens.length + 8)).run { tokens := tokens }
  if left.tokens.any fun token => token ≠ .documentEnd then none
  some ⟨root, left.anchored, left.numbered⟩

end Matchmaker.Yaml
