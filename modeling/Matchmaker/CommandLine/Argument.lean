import Matchmaker.CommandLine.Change

/-!
Arguments of a program with commands. Options are read where they stand; what was read for an option
counts only once the next one begins or the line ends, and so do its faults.
-/
namespace Matchmaker.CommandLine

inductive Value where
  | text (s : String)
  | int (n : Int)
  | nat (n : Nat)
  | change (c : PriorityChange)
  deriving Repr

inductive ArgumentError where
  | help
  /-- Nothing was given at all. -/
  | helpOnMissing
  | version
  | unknownArgument
  | invalidSubcommand
  | missingSubcommand
  | missingRequired
  | conflict
  | tooManyValues
  | invalidValue
  | valueValidation (reason : String)
  deriving DecidableEq, Repr

namespace ArgumentError

def message : ArgumentError → String
  | help => "usage: gridmatch [OPTIONS] COMMAND"
  | helpOnMissing => "usage: gridmatch [OPTIONS] COMMAND"
  | version => "gridmatch 0.1.0"
  | unknownArgument => "unexpected argument"
  | invalidSubcommand => "unknown command"
  | missingSubcommand => "a command is required"
  | missingRequired => "required arguments were not given"
  | conflict => "arguments cannot be used together"
  | tooManyValues => "an option takes no value"
  | invalidValue => "an option needs a value"
  | valueValidation reason => reason

/-- Whether the user asked for just this text. -/
def isAnswer (e : ArgumentError) : Bool := e = help || e = version

end ArgumentError

inductive ParameterKind where
  | flag
  | option
  /-- All arguments that are no options. -/
  | operands
  | help
  | version
  deriving DecidableEq, Repr

structure Parameter where
  name : String
  kind : ParameterKind := .option
  long : Option String := none
  short : Option Char := none
  read : String → Except ArgumentError Value := fun s => .ok (.text s)
  /-- Whether its value may begin with a hyphen. -/
  takesHyphens : Bool := false
  required : Bool := false
  excludes : List String := []
  /-- The variable that gives the value where the line does not. -/
  variableName : Option String := none
  standard : Option Value := none

/-- Where a value comes from, weakest first. -/
inductive Origin where
  | standard
  | environment
  | line
  deriving DecidableEq, Repr

def Origin.rank : Origin → Nat
  | standard => 0
  | environment => 1
  | line => 2

structure Given where
  origin : Origin
  values : List Value

abbrev Arguments := List (String × Given)

namespace Arguments

def values (given : Arguments) (name : String) : List Value :=
  ((given.lookup name).map Given.values).getD []

def has (given : Arguments) (name : String) : Bool := (given.lookup name).isSome

def texts (given : Arguments) (name : String) : List String :=
  (values given name).filterMap fun
    | .text s => some s
    | _ => none

def text? (given : Arguments) (name : String) : Option String := (texts given name).head?

def text (given : Arguments) (name : String) : String := (text? given name).getD ""

def int? (given : Arguments) (name : String) : Option Int :=
  (values given name).findSome? fun
    | .int n => some n
    | _ => none

def nat? (given : Arguments) (name : String) : Option Nat :=
  (values given name).findSome? fun
    | .nat n => some n
    | _ => none

def changes (given : Arguments) (name : String) : List PriorityChange :=
  (values given name).filterMap fun
    | .change c => some c
    | _ => none

end Arguments

structure Pattern where
  options : List Parameter
  operands : Option Parameter := none

def Pattern.all (p : Pattern) : List Parameter := p.options ++ p.operands.toList

structure Reading where
  given : Arguments := []
  /-- A parameter whose values are still being read. -/
  pending : Option (Parameter × List String) := none
  /-- Whether the pending parameter still needs its value. -/
  awaiting : Bool := false
  /-- Whether all that follows are operands. -/
  operandsOnly : Bool := false

namespace Reading

def accept (r : Reading) (p : Parameter) (values : List String) (origin : Origin) :
    Except ArgumentError Reading :=
  match p.kind with
  | .help => .error .help
  | .version => .error .version
  | kind => do
    if kind ≠ .flag && values.isEmpty then throw .invalidValue
    let earlier := r.given.lookup p.name
    if kind ≠ .operands && earlier.isSome then throw .conflict
    let found ← values.mapM p.read
    let before := (earlier.map Given.values).getD []
    return { r with given := (p.name, ⟨origin, before ++ found⟩) :: r.given.filter (·.1 ≠ p.name) }

/-- Adds the values of the pending parameter. -/
def settle (r : Reading) : Except ArgumentError Reading :=
  match r.pending with
  | none => .ok r
  | some (p, values) => { r with pending := none, awaiting := false }.accept p values .line

def beginOption (r : Reading) (p : Parameter) (attached : Option String) :
    Except ArgumentError Reading := do
  let r ← r.settle
  if p.kind = .option && attached.isNone then
    return { r with pending := some (p, []), awaiting := true }
  r.accept p attached.toList .line

def addValue (r : Reading) (value : String) : Reading :=
  { r with pending := r.pending.map fun (p, values) => (p, values ++ [value]), awaiting := false }

def addOperand (r : Reading) (p : Parameter) (value : String) : Except ArgumentError Reading :=
  if r.pending.any fun (q, _) => q.name = p.name then .ok (r.addValue value)
  else do
    let r ← r.settle
    return { r with pending := some (p, [value]), awaiting := false }

/-- Whether the next argument is a value, whatever it looks like. -/
def takesAnything (r : Reading) : Bool := r.awaiting && r.pending.any fun (p, _) => p.takesHyphens

end Reading

namespace Pattern

def long? (p : Pattern) (name : String) : Option Parameter :=
  p.options.find? fun o => o.long = some name

def short? (p : Pattern) (c : Char) : Option Parameter :=
  p.options.find? fun o => o.short = some c

def longOption (p : Pattern) (text : List Char) (r : Reading) : Except ArgumentError Reading :=
  let name := text.takeWhile (· ≠ '=')
  let attached := match text.dropWhile (· ≠ '=') with
    | [] => none
    | _ :: value => some (String.ofList value)
  match p.long? (String.ofList name) with
  | none => .error .unknownArgument
  | some o =>
    if o.kind ≠ .option && attached.isSome then .error .tooManyValues
    else r.beginOption o attached

/-- Options by their letters. The first that takes a value takes the rest, less an equals sign. -/
def shortOptions (p : Pattern) : List Char → Reading → Except ArgumentError Reading
  | [], r => .ok r
  | c :: rest, r =>
    match p.short? c with
    | none => .error .unknownArgument
    | some o =>
      if o.kind = .option then
        r.beginOption o (match rest with
          | [] => none
          | '=' :: value => some (String.ofList value)
          | value => some (String.ofList value))
      else do
        let r ← r.beginOption o none
        p.shortOptions rest r

/-- An argument that stands alone: an operand, or nothing that is known. -/
def operand (p : Pattern) (commands : List String) (arg : String) (r : Reading) :
    Except ArgumentError Reading :=
  match p.operands with
  | some o => r.addOperand o arg
  | none =>
    if commands.isEmpty || (r.operandsOnly && commands.contains arg) then .error .unknownArgument
    else .error .invalidSubcommand

def argument (p : Pattern) (commands : List String) (arg : String) (r : Reading) :
    Except ArgumentError Reading :=
  if r.operandsOnly then p.operand commands arg r
  else if r.takesAnything then .ok (r.addValue arg)
  else match arg.toList with
    | ['-', '-'] => .ok { r with operandsOnly := true }
    | '-' :: '-' :: text => p.longOption text r
    | '-' :: c :: rest => p.shortOptions (c :: rest) r
    | _ => if r.awaiting then .ok (r.addValue arg) else p.operand commands arg r

def scan (p : Pattern) (commands : List String) :
    List String → Reading → Except ArgumentError (Reading × Option (String × List String))
  | [], r => .ok (r, none)
  | arg :: rest, r =>
    if !r.operandsOnly && !r.awaiting && commands.contains arg then .ok (r, some (arg, rest))
    else do
      let r ← p.argument commands arg r
      p.scan commands rest r

/-- Values from variables, for what the line does not give. -/
def takeVariables (p : Pattern) (environment : String → Option String) (r : Reading) :
    Except ArgumentError Reading :=
  p.all.foldlM (fun r o =>
    match (r.given.lookup o.name).isNone, o.variableName.bind environment with
    | true, some value => r.accept o [value] .environment
    | _, _ => .ok r) r

def takeStandards (p : Pattern) (given : Arguments) : Arguments :=
  given ++ p.all.filterMap fun o =>
    match given.lookup o.name, o.standard with
    | none, some value => some (o.name, ⟨.standard, [value]⟩)
    | _, _ => none

/-- The names of parameters that do not merely have their standard value. -/
def chosen (given : Arguments) : List String :=
  (given.filter fun (_, g) => g.origin ≠ .standard).map Prod.fst

def check (p : Pattern) (given : Arguments) : Except ArgumentError Unit := do
  let names := chosen given
  if p.all.any fun o => names.contains o.name && o.excludes.any names.contains then throw .conflict
  if p.all.any fun o => o.required && !names.contains o.name then throw .missingRequired

def finish (p : Pattern) (environment : String → Option String) (r : Reading) :
    Except ArgumentError Arguments := do
  let r ← r.settle
  let r ← p.takeVariables environment r
  return p.takeStandards r.given

end Pattern

structure CommandForm (κ : Type) where
  names : List String
  pattern : Pattern
  build : Arguments → κ

structure Program (κ : Type) where
  shared : Pattern
  commands : List (CommandForm κ)

namespace Program

variable {κ : Type} (p : Program κ)

def form? (name : String) : Option (CommandForm κ) :=
  p.commands.find? fun form => form.names.contains name

def names : List String := p.commands.flatMap CommandForm.names

def helpOn : List String → ArgumentError
  | [] => .help
  | [name] => if name = "help" || p.names.contains name then .help else .invalidSubcommand
  | _ :: _ :: _ => .invalidSubcommand

/-- What was given before and after the name of the command; of an option given twice, the one after
it unless its origin is weaker. -/
def share (before after : Arguments) : Arguments :=
  before.filter (fun (name, b) => (after.lookup name).all fun a => a.origin.rank < b.origin.rank)
    ++ after

def read (environment : String → Option String) (args : List String) :
    Except ArgumentError (κ × Arguments) := do
  match ← p.shared.scan ("help" :: p.names) args {} with
  | (r, none) =>
    let given ← p.shared.finish environment r
    throw (if (Pattern.chosen given).isEmpty then .helpOnMissing else .missingSubcommand)
  | (r, some (name, rest)) =>
    match p.form? name with
    | none => throw (p.helpOn rest)
    | some form =>
      let (inner, _) ← form.pattern.scan [] rest {}
      let own ← form.pattern.finish environment inner
      form.pattern.check own
      let given ← p.shared.finish environment r
      p.shared.check given
      return (form.build own, share given own)

end Program

end Matchmaker.CommandLine
