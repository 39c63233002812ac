import Matchmaker.Database.Tables

/-!
Migrations bring the tables to the state of the schema. Each is applied in a transaction of its own
together with the record of it.
-/
namespace Matchmaker.Database

variable {α : Type} (d : Database α)

def ensureApplied : Except MigrationError (Std.ExtTreeMap Int AppliedRow × Database α) :=
  match d.applied with
  | none => .ok (∅, { d with applied := some (.own ∅) })
  | some (.own rows) => .ok (rows, d)
  | some .foreign => .error (.database failure)

/-- The migrations that are not recorded. A record of one that is not known is refused. -/
def pending (applied : List Int) : Except MigrationError (List Migration) :=
  match applied.find? fun version => !Schema.migrations.any fun m => (m.version : Int) = version with
  | some version => .error (.unknownVersion version)
  | none => .ok (Schema.migrations.filter fun m => !applied.contains m.version)

/-- Creates a table that is not there. One of another origin has no columns to index. -/
def ensureTable {β : Type} (empty : β) : Option (Table β) → Option (Table β)
  | none => some (.own empty)
  | some (.own rows) => some (.own rows)
  | some .foreign => none

def create? (d : Database α) (version : Nat) : Option (Database α) :=
  if version = 1 then
    (ensureTable ∅ d.queues).map fun table =>
      { d with queues := some table, lastId := if d.queues.isNone then 0 else d.lastId }
  else if version = 2 then (ensureTable [] d.values).map fun table => { d with values := some table }
  else if version = 3 then (ensureTable ∅ d.jobs).map fun table => { d with jobs := some table }
  else some d

/-- Applies migrations one after another. Those before one that fails stay applied. -/
def applyAll (d : Database α) (applied : Std.ExtTreeMap Int AppliedRow) :
    List Migration → Except MigrationError Unit × Database α
  | [] => (.ok (), d)
  | m :: rest =>
    match create? d m.version with
    | none => (.error (.failed m.version m.name failure), d)
    | some d =>
      let applied := applied.insert m.version ⟨m.name, d.clock⟩
      applyAll { d with applied := some (.own applied) } applied rest

def migrate : Except MigrationError Nat × Database α :=
  match d.ensureApplied with
  | .error e => (.error e, d)
  | .ok (applied, d) =>
    match pending applied.keys with
    | .error e => (.error e, d)
    | .ok remaining =>
      let (result, d) := applyAll d applied remaining
      (result.map fun _ => remaining.length, d)

def pendingMigrations : Except MigrationError (List Migration) × Database α :=
  match d.ensureApplied with
  | .error e => (.error e, d)
  | .ok (applied, d) => (pending applied.keys, d)

def appliedMigrations : Except MigrationError (List (Int × AppliedRow)) × Database α :=
  match d.ensureApplied with
  | .error e => (.error e, d)
  | .ok (applied, d) => (.ok applied.toList, d)

def reset : Database α := { d with queues := none, values := none, jobs := none, applied := none }

end Matchmaker.Database
