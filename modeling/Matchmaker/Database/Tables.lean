import Matchmaker.Schema
import Matchmaker.Store.State

/-!
The tables of a database that keeps the store. A statement fails unless every table that it names is
there and was created by the schema.
-/
namespace Matchmaker

structure QueueRow (α : Type) where
  fingerprint : String
  ownerIdentity : String
  ownerGroup : String
  setup : String
  cpuTime : Nat
  priority : α
  enabled : Bool

/-- One value of a set. A row without a value marks a set that is empty. -/
structure ValueRow where
  queue : Int
  field : String
  value : Option String
  deriving DecidableEq, Repr

structure AppliedRow where
  name : String
  time : String
  deriving DecidableEq, Repr

inductive Table (β : Type) where
  | own (rows : β)
  /-- Of another origin, with other columns. -/
  | foreign

structure Database (α : Type) where
  queues : Option (Table (Std.ExtTreeMap Int (QueueRow α))) := none
  /-- The last number that was taken for a queue. -/
  lastId : Int := 0
  /-- In the order in which they were inserted. -/
  values : Option (Table (List ValueRow)) := none
  jobs : Option (Table (Std.ExtTreeMap String (Job α))) := none
  applied : Option (Table (Std.ExtTreeMap Int AppliedRow)) := none
  /-- The time, as it is recorded. -/
  clock : String := ""
  /-- Values that a constraint keeps out. -/
  refusedValues : List String := []
  /-- Queues whose priority a constraint keeps as it is. -/
  refusedQueues : List Int := []

namespace Database

variable {α : Type}

def failure : String := "error returned from database: statement failed"

def rows {β : Type} : Option (Table β) → Except StoreError β
  | some (.own rows) => .ok rows
  | _ => .error (.queryFailed failure)

/-- The number of rows; a foreign table has none that count. -/
def size? {β : Type} (count : β → Nat) : Option (Table β) → Option Nat
  | none => none
  | some (.own rows) => some (count rows)
  | some .foreign => some 0

end Database

end Matchmaker
