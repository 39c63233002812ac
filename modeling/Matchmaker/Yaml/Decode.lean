import Matchmaker.Decimal.Literal
import Matchmaker.Yaml.Node

/-!
Typed views of the nodes of a document: each gives `none` when the node has another type or is out of
range. What a plain scalar is depends only on the type that is asked for.
-/
namespace Matchmaker.Yaml

/-- Whether the text of a scalar may be a value other than a string: it is plain, or a literal block
with the tag of the type. -/
def isValue (style : Style) (tag : Option String) (type : String) : Bool :=
  style = .plain || (style = .literal && tag = some ("tag:yaml.org,2002:" ++ type))

def isNull (text : String) : Bool := ["null", "Null", "NULL", "~"].contains text

def readBool? (text : String) : Option Bool :=
  if ["true", "True", "TRUE"].contains text then some true
  else if ["false", "False", "FALSE"].contains text then some false
  else none

def readDigits? (base : Nat) (cs : List Char) : Option Nat :=
  if cs.isEmpty then none
  else cs.foldlM (fun n c => (Text.hexValue? c).bind fun d =>
    if d < base then some (base * n + d) else none) 0

/-- A whole number from 0 to `2^64 - 1`, after an optional plus sign: with a letter for its base, or
decimal without leading zeros. -/
def readWord? (text : String) : Option Nat :=
  let cs := match text.toList with
    | '+' :: cs => cs
    | cs => cs
  let found := match cs with
    | '0' :: 'x' :: cs => readDigits? 16 cs
    | '0' :: 'o' :: cs => readDigits? 8 cs
    | '0' :: 'b' :: cs => readDigits? 2 cs
    | '0' :: _ :: _ => none
    | cs => readDigits? 10 cs
  found.filter (· ≤ Decimal.maxWord64)

def readFloat? (text : String) : Option Float :=
  let unsigned := match text.toList with
    | '+' :: cs => String.ofList cs
    | _ => text
  if text.startsWith "+" && (unsigned.startsWith "+" || unsigned.startsWith "-") then none
  else if [".inf", ".Inf", ".INF"].contains unsigned then some (1.0 / 0.0)
  else if ["-.inf", "-.Inf", "-.INF"].contains text then some (-1.0 / 0.0)
  else if [".nan", ".NaN", ".NAN"].contains text then some (0.0 / 0.0)
  else (Decimal.readFloat unsigned).toOption.filter Float.isFinite

namespace Document

variable (d : Document)

def follow : Node → Option Node
  | .alias id => (d.numbered.lookup id).bind fun place => d.anchored.lookup place
  | node => some node

def asText? (node : Node) : Option String :=
  match d.follow node with
  | some (.scalar _ _ text) => some text
  | _ => none

def asValue? {β : Type} (type : String) (read : String → Option β) (node : Node) : Option β :=
  match d.follow node with
  | some (.scalar style tag text) => if isValue style tag type then read text else none
  | _ => none

def asBool? : Node → Option Bool := d.asValue? "bool" readBool?

def asWord? : Node → Option Nat := d.asValue? "int" readWord?

def asFloat? : Node → Option Float := d.asValue? "float" readFloat?

def asItems? (node : Node) : Option (List Node) :=
  match d.follow node with
  | some (.sequence items) => some items
  | some (.scalar .plain _ "") => some []
  | _ => none

def asEntries? (node : Node) : Option (List (Node × Node)) :=
  match d.follow node with
  | some (.mapping entries) => some entries
  | some (.scalar .plain _ "") => some []
  | _ => none

def asMap? {κ β : Type} (key : Node → Option κ) (value : Node → Option β) (node : Node) :
    Option (List (κ × β)) := do
  (← d.asEntries? node).mapM fun (k, v) => return (← key k, ← value v)

def asOptional? {β : Type} (read : Node → Option β) (node : Node) : Option (Option β) :=
  match d.follow node with
  | some (.scalar .plain (some "tag:yaml.org,2002:null") text) =>
    if isNull text then some none else none
  | some (.scalar .plain tag text) =>
    if tag.isNone && (text = "" || isNull text) then some none else (read node).map some
  | _ => (read node).map some

def asRecord? (node : Node) : Option (List (String × Node)) := do
  (← d.asEntries? node).mapM fun (key, value) => return (← d.asText? key, value)

/-- The root as a record; a text without a document has an empty one. -/
def rootRecord? : Option (List (String × Node)) :=
  match d.root with
  | none => some []
  | some node => d.asRecord? node

end Document

/-- The field of a record with this name; two of them are refused. -/
def field? {β : Type} (record : List (String × Node)) (name : String) (read : Node → Option β) :
    Option (Option β) :=
  match record.filter fun (key, _) => key = name with
  | [] => some none
  | [(_, node)] => (read node).map some
  | _ :: _ :: _ => none

end Matchmaker.Yaml
