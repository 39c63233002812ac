import Matchmaker.Database.Tables

/-!
Rehearsing damage: changes to a database that do not come from the store, such as rows that others
wrote and tables of another origin.
-/
namespace Matchmaker

inductive Damage where
  /-- Removes the records of migrations. -/
  | forget (versions : List Int)
  /-- Adds records of migrations. -/
  | record (versions : List (Int × String))
  | rename (version : Int) (name : String)
  | foreignTable (name : String)
  | dropTable (name : String)
  | clearTable (name : String)
  /-- Changes the field of all values. -/
  | field (name : String)
  /-- Replaces a value by none. -/
  | nullValue (value : String)
  /-- Keeps a value out. -/
  | refuseValue (value : String)
  /-- Keeps the priority of a queue as it is. -/
  | refuseQueue (id : Int)
  | disableQueues
  deriving DecidableEq, Repr

namespace Table

variable {β : Type}

def mapRows (f : β → β) : Table β → Table β
  | own rows => own (f rows)
  | foreign => foreign

end Table

namespace Database

variable {α : Type}

def setTable (d : Database α) (name : String)
    (change : {β : Type} → β → Option (Table β) → Option (Table β)) : Database α :=
  if name = Schema.queueTable then { d with queues := change ∅ d.queues }
  else if name = Schema.valueTable then { d with values := change [] d.values }
  else if name = Schema.jobTable then { d with jobs := change ∅ d.jobs }
  else if name = Schema.migrationTable then { d with applied := change ∅ d.applied }
  else d

def mapApplied (d : Database α)
    (f : Std.ExtTreeMap Int AppliedRow → Std.ExtTreeMap Int AppliedRow) : Database α :=
  { d with applied := d.applied.map (·.mapRows f) }

def mapValues (d : Database α) (f : ValueRow → ValueRow) : Database α :=
  { d with values := d.values.map (·.mapRows (List.map f)) }

def damage (d : Database α) : Damage → Database α
  | .forget versions => d.mapApplied fun rows => versions.foldl (·.erase ·) rows
  | .record versions =>
    d.mapApplied fun rows => versions.foldl (fun rows (v, name) => rows.insert v ⟨name, d.clock⟩) rows
  | .rename version name => d.mapApplied fun rows => rows.modify version ({ · with name := name })
  | .foreignTable name => d.setTable name fun _ _ => some .foreign
  | .dropTable name => d.setTable name fun _ _ => none
  | .clearTable name => d.setTable name fun empty table => table.map fun _ => .own empty
  | .field name => d.mapValues ({ · with field := name })
  | .nullValue value =>
    d.mapValues fun row => if row.value = some value then { row with value := none } else row
  | .refuseValue value => { d with refusedValues := value :: d.refusedValues }
  | .refuseQueue id => { d with refusedQueues := id :: d.refusedQueues }
  | .disableQueues =>
    { d with queues := d.queues.map (·.mapRows (·.map fun _ q => { q with enabled := false })) }

end Database

end Matchmaker
