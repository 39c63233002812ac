import Matchmaker.Broker.Bulk
import Matchmaker.Broker.Insert
import Matchmaker.Broker.Report
import Matchmaker.Broker.Sweep
import Matchmaker.Broker.Sweeper
import Matchmaker.Broker.World
import Matchmaker.CommandLine.Command
import Matchmaker.CommandLine.DatabaseUrl
import Matchmaker.Database.Migration
import Matchmaker.Database.Store
import Matchmaker.Settings.Environment
import Matchmaker.Share.File
import Matchmaker.Usage.File

/-!
Running commands. Each command gets a broker of its own; what stays from one to the next are the
tables and the counters.
-/
namespace Matchmaker.CommandLine

/-- What a command finds around it. -/
structure Surroundings where
  environment : String → Option String
  /-- The text of a file that can be read. -/
  file : String → Option String
  /-- The seed where the settings give none. -/
  entropy : Nat := 0

/-- What commands leave behind. -/
structure Desk where
  tables : Database Float
  metrics : Metrics := {}

inductive RunError where
  | noDatabase
  | database (cause : UrlError)
  | document (path : String)
  | shares (path : String)
  | history (path : String)
  | noUsage
  | settings (cause : SettingsError)
  | validation (cause : ValidationError)
  | broker (cause : BrokerError)
  | migration (cause : MigrationError)
  /-- The command could not go on. -/
  | aborted
  deriving DecidableEq, Repr

def RunError.message : RunError → String
  | .noDatabase => "--database-url or DATABASE_URL is required"
  | .database cause =>
    StoreError.message (.connectionFailed ("error with configuration: " ++ cause.message))
  | .document path => "failed to read " ++ path
  | .shares path => "failed to load shares from " ++ path
  | .history path => "failed to load history from " ++ path
  | .noUsage => "--history needs --usage (or GRIDMATCH_USAGE_FILE)"
  | .settings cause => cause.message
  | .validation cause => cause.message
  | .broker cause => cause.message
  | .migration cause => cause.message
  | .aborted => "aborted"

structure Outcome where
  output : String := ""
  failure : Option RunError := none
  deriving DecidableEq, Repr

namespace Outcome

def printed (j : Json) : Outcome := { output := j.prettyText ++ "\n" }

def failed (e : RunError) : Outcome := { failure := some e }

end Outcome

/-! ### Preparation -/

def connect (i : Invocation) : Except RunError Unit :=
  match i.databaseUrl with
  | none => .error .noDatabase
  | some url => (DatabaseUrl.check url).mapError .database

def sharesOf (i : Invocation) (s : Surroundings) : Except RunError (ShareSource Float) :=
  match i.shares with
  | none => .ok { table := { defaultShare := 1 } }
  | some path =>
    let content := ShareTable.read (s.file path)
    match content with
    | .ok table => .ok ⟨table, some content⟩
    | .error _ => .error (.shares path)

def historyOf (i : Invocation) (s : Surroundings) :
    Except RunError (Option (HistorySettings Float) × UsageSource Float) :=
  match i.history, i.usage with
  | none, _ => .ok (none, .empty)
  | some _, none => .error .noUsage
  | some path, some usage =>
    match HistorySettings.read (s.file path) with
    | .error _ => .error (.history path)
    | .ok settings => .ok (some settings, .file usage (UsageExport.read (s.file usage)))

structure Bench where
  broker : Broker Float
  world : World Float (Database Float)
  sweepInterval : Nat

def prepare (i : Invocation) (s : Surroundings) (d : Desk) : Except RunError Bench := do
  connect i
  let shares ← sharesOf i s
  let settings ← (Settings.ofEnvironment s.environment).mapError .settings
  let policy ← settings.checked.mapError .settings
  let (history, usage) ← historyOf i s
  return {
    broker := ⟨policy, history⟩
    world := {
      store := d.tables
      shares := shares
      usage := usage
      generator := .ofSeed (settings.seed.getD s.entropy)
      metrics := d.metrics }
    sweepInterval := settings.sweepInterval }

/-- A document given as such, or as the name of a file after an at sign. -/
def documentOf (s : Surroundings) (text : String) : Except RunError String :=
  match text.toList with
  | '@' :: path =>
    match s.file (String.ofList path) with
    | some text => .ok text
    | none => .error (.document (String.ofList path))
  | _ => .ok text

def capabilitiesOf (s : Surroundings) (text : String) : Except RunError Capabilities := do
  match Capabilities.parse? (← documentOf s text) with
  | some c => return c
  | none => throw (.validation .malformed)

def requirementsOf (s : Surroundings) (text : String) : Except RunError Requirements := do
  match Requirements.parse? (← documentOf s text) with
  | some r => return r
  | none => throw (.validation .malformed)

/-! ### Commands -/

def perform (call : StoreCall Float) (d : Database Float) :
    Except StoreError call.Answer × Database Float :=
  d.perform call

def Bench.desk (w : World Float (Database Float)) : Desk := ⟨w.store, w.metrics⟩

def Bench.run {β : Type} (b : Bench) (operation : Operation Float β) (out : β → Json) :
    Outcome × Desk :=
  let (result, w) := b.world.run perform operation
  let outcome : Outcome := match result with
    | none => .failed .aborted
    | some (.error e) => .failed (.broker e)
    | some (.ok found) => .printed (out found)
  (outcome, Bench.desk w)

def cleanedFirst {β : Type} (b : Broker Float) (clean : Bool) (answer : Operation Float β) :
    Operation Float β := do
  if clean then let _ ← b.clean
  answer

/-- Fails after an operation, unless that failed itself. -/
def Bench.runThenFail (b : Bench) (operation : Operation Float Unit) (e : RunError) :
    Outcome × Desk :=
  let (outcome, desk) := b.run operation fun _ => .null
  (.failed (outcome.failure.getD e), desk)

def queues (b : Bench) (s : Surroundings) (q : QueueQuery) : Outcome × Desk :=
  if q.groups then
    b.run (Operation.store .groups) fun (found : TextSet) => .ofList .text found.toList
  else match q.matching.map (capabilitiesOf s) with
    | some (.error e) => b.runThenFail (cleanedFirst b.broker q.clean (pure ())) e
    | some (.ok c) =>
      b.run (cleanedFirst b.broker q.clean (b.broker.candidates c)) (.ofList Candidate.toJson)
    | none =>
      let selection : QueueSelection := ⟨q.group, q.owner, q.setup, none⟩
      b.run (cleanedFirst b.broker q.clean (Operation.store (.list selection)))
        fun (found : List (QueueSummary Float)) => .ofList QueueSummary.toJson found

/-- Sweeps until interrupted. The first sweep is made at once; its failure goes unseen. -/
def sweepOn (b : Bench) (interval : Option Nat) : Outcome × Desk :=
  let sweeper : Sweeper := { interval := match interval with
    | some seconds => Nat.max seconds 1
    | none => b.sweepInterval }
  let sweep (w : World Float (Database Float)) := (false, (w.run perform b.broker.sweep).2)
  let (_, _, w) := sweeper.start sweep b.world
  ({}, Bench.desk w)

def runOn (b : Bench) (s : Surroundings) : Command → Outcome × Desk
  | .insert job requirements priority =>
    match requirementsOf s requirements with
    | .error e => (.failed e, Bench.desk b.world)
    | .ok r => b.run (b.broker.insert job r priority) fun id =>
        .record [("jobId", .text job), ("taskQueueId", .ofInt id)]
  | .takeJob capabilities =>
    match capabilitiesOf s capabilities with
    | .error e => (.failed e, Bench.desk b.world)
    | .ok c => b.run (b.broker.takeJob c) matchJson
  | .delete jobs => b.run (b.broker.delete jobs) DeleteReport.toJson
  | .reprioritize changes =>
    b.run (b.broker.reprioritize (changes.map fun c => (c.job, c.priority))) PriorityReport.toJson
  | .recalculate => b.run b.broker.recalculateAll fun n => .record [("groups", .ofNat n)]
  | .queues query => queues b s query
  | .sweep true _ => b.run b.broker.sweep fun done => .record [("recomputed", .bool done)]
  | .sweep false interval => sweepOn b interval
  | .migrate _ _ | .metrics => ({}, Bench.desk b.world)

def migrationLine (version name state : String) : String :=
  version ++ "\t" ++ name ++ "\t" ++ state ++ "\n"

def listMigrations (tables : Database Float) : Outcome × Database Float :=
  match tables.appliedMigrations with
  | (.error e, tables) => (.failed (.migration e), tables)
  | (.ok rows, tables) =>
    let applied := String.join (rows.map fun (version, row) =>
      migrationLine (Decimal.intText version) row.name row.time)
    match tables.pendingMigrations with
    | (.error e, tables) => (⟨applied, some (.migration e)⟩, tables)
    | (.ok pending, tables) =>
      ({ output := applied ++ String.join (pending.map fun m =>
          migrationLine (Decimal.natText m.version) m.name "pending") }, tables)

def migrate (list reset : Bool) (tables : Database Float) : Outcome × Database Float :=
  if list then listMigrations tables
  else match (if reset then tables.reset else tables).migrate with
    | (.error e, tables) => (.failed (.migration e), tables)
    | (.ok _, tables) => ({}, tables)

def Invocation.run (i : Invocation) (s : Surroundings) (d : Desk) : Outcome × Desk :=
  match i.command with
  | .metrics => ({ output := String.join (d.metrics.lines.map (· ++ "\n")) }, d)
  | .migrate list reset =>
    match connect i with
    | .error e => (.failed e, d)
    | .ok () =>
      let (outcome, tables) := migrate list reset d.tables
      (outcome, { d with tables := tables })
  | command =>
    match prepare i s d with
    | .error e => (.failed e, d)
    | .ok b => runOn b s command

def Invocation.files (i : Invocation) : List String :=
  let documents := match i.command with
    | .insert _ requirements _ => [requirements]
    | .takeJob capabilities => [capabilities]
    | .queues query => query.matching.toList
    | _ => []
  let named := documents.filterMap fun text => match text.toList with
    | '@' :: path => some (String.ofList path)
    | _ => none
  named ++ i.shares.toList ++ i.history.toList ++ i.usage.toList

end Matchmaker.CommandLine
