import Matchmaker.CommandLine.Argument

/-!
The commands, and the options that all of them share.
-/
namespace Matchmaker.CommandLine

structure QueueQuery where
  group : Option String
  owner : Option String
  setup : Option String
  /-- Capabilities whose candidates are listed instead. -/
  matching : Option String
  clean : Bool
  groups : Bool
  deriving DecidableEq, Repr

inductive Command where
  | migrate (list reset : Bool)
  | insert (job requirements : String) (priority : Int)
  | takeJob (capabilities : String)
  | delete (jobs : List String)
  | reprioritize (changes : List PriorityChange)
  | recalculate
  | queues (query : QueueQuery)
  | sweep (once : Bool) (interval : Option Nat)
  | metrics
  deriving DecidableEq, Repr

structure Invocation where
  command : Command
  logLevel : String
  databaseUrl : Option String
  shares : Option String
  history : Option String
  usage : Option String
  deriving DecidableEq, Repr

/-! ### Parameters -/

def ofWhole {β : Type} (value : β → Value) : Except Decimal.WholeError β → Except ArgumentError Value
  | .ok n => .ok (value n)
  | .error cause => .error (.valueValidation cause.message)

def readPriority (text : String) : Except ArgumentError Value :=
  ofWhole .int (Decimal.readInt text)

def readSeconds (text : String) : Except ArgumentError Value :=
  ofWhole .nat (Decimal.readNat Decimal.maxWord64 text)

def readChange (text : String) : Except ArgumentError Value :=
  match PriorityChange.read text with
  | .ok c => .ok (.change c)
  | .error cause => .error (.valueValidation (cause.message text))

def readPath (text : String) : Except ArgumentError Value :=
  if text.isEmpty then .error .invalidValue else .ok (.text text)

def helpFlag : Parameter :=
  { name := "help", kind := .help, long := some "help", short := some 'h' }

def versionFlag : Parameter :=
  { name := "version", kind := .version, long := some "version", short := some 'V' }

def path (name variableName : String) : Parameter :=
  { name, long := some name, variableName := some variableName, read := readPath }

def sharedOptions : List Parameter :=
  [{ name := "log-level", long := some "log-level", short := some 'l', standard := some (.text "info") },
    { name := "database-url", long := some "database-url", variableName := some "DATABASE_URL" },
    path "shares" "GRIDMATCH_SHARES_FILE", path "history" "GRIDMATCH_HISTORY_FILE",
    path "usage" "GRIDMATCH_USAGE_FILE"]

def flag (name : String) (excludes : List String := []) : Parameter :=
  { name, kind := .flag, long := some name, excludes }

def pattern (options : List Parameter) (operands : Option Parameter := none) : Pattern :=
  ⟨options ++ sharedOptions ++ [helpFlag], operands⟩

open Arguments in
def insertForm : CommandForm Command where
  names := ["insert"]
  pattern := pattern
    [{ name := "job-id", long := some "job-id", required := true },
      { name := "requirements", long := some "requirements", short := some 'r', required := true },
      { name := "priority", long := some "priority", short := some 'p', takesHyphens := true,
        read := readPriority, standard := some (.int 1) }]
  build given :=
    .insert (text given "job-id") (text given "requirements") ((int? given "priority").getD 1)

open Arguments in
def queuesForm : CommandForm Command where
  names := ["queues", "tq"]
  pattern := pattern
    [{ name := "group", long := some "group", short := some 'g' },
      { name := "owner", long := some "owner" },
      { name := "setup", long := some "setup", short := some 's' },
      { name := "matching", long := some "matching", short := some 'm' },
      flag "clean", flag "groups" ["matching", "clean"]]
  build given :=
    .queues ⟨text? given "group", text? given "owner", text? given "setup", text? given "matching",
      has given "clean", has given "groups"⟩

open Arguments in
def sweepForm : CommandForm Command where
  names := ["sweep"]
  pattern := pattern
    [flag "once",
      { name := "interval-secs", long := some "interval-secs", read := readSeconds,
        excludes := ["once"] }]
  build given := .sweep (has given "once") (nat? given "interval-secs")

open Arguments in
def matchForm : CommandForm Command where
  names := ["match"]
  pattern := pattern
    [{ name := "capabilities", long := some "capabilities", short := some 'c',
       standard := some (.text "\x7b\x7d") }]
  build given := .takeJob (text given "capabilities")

open Arguments in
def program : Program Command where
  shared := ⟨sharedOptions ++ [helpFlag, versionFlag], none⟩
  commands :=
    [⟨["migrate"], pattern [flag "list", flag "reset"],
        fun given => .migrate (has given "list") (has given "reset")⟩,
      insertForm,
      matchForm,
      ⟨["delete", "rm"], pattern [] (some { name := "jobs", kind := .operands, required := true }),
        fun given => .delete (texts given "jobs")⟩,
      ⟨["reprioritize"], pattern []
          (some { name := "changes", kind := .operands, required := true, read := readChange }),
        fun given => .reprioritize (changes given "changes")⟩,
      ⟨["recalculate"], pattern [], fun _ => .recalculate⟩,
      queuesForm, sweepForm,
      ⟨["metrics"], pattern [], fun _ => .metrics⟩]

def Invocation.read (environment : String → Option String) (args : List String) :
    Except ArgumentError Invocation := do
  let (command, shared) ← program.read environment args
  return ⟨command, Arguments.text shared "log-level", Arguments.text? shared "database-url",
    Arguments.text? shared "shares", Arguments.text? shared "history",
    Arguments.text? shared "usage"⟩

def variableNames : List String :=
  sharedOptions.filterMap Parameter.variableName

end Matchmaker.CommandLine
