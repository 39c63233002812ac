import Matchmaker.Queue.Document

/-!
Queues as operators see them, and the selection of those to list.
-/
namespace Matchmaker

structure QueueSummary (α : Type) where
  id : Int
  definition : Definition
  priority : α
  enabled : Bool
  jobs : Nat

namespace QueueSummary

def toJson (q : QueueSummary Float) : Json :=
  .record [("id", .ofInt q.id), ("definition", q.definition.toJson),
    ("priority", .ofFloat q.priority), ("enabled", .bool q.enabled), ("jobs", .ofNat q.jobs)]

def ofJson? (j : Json) : Option (QueueSummary Float) := do
  match ← j.fields? ["id", "definition", "priority", "enabled", "jobs"] with
  | [id, definition, priority, enabled, jobs] =>
    some {
      id := ← Json.required? Json.asSigned? id
      definition := ← Json.required? Definition.ofJson? definition
      priority := ← Json.required? Json.asFloat? priority
      enabled := ← Json.required? Json.asBool? enabled
      jobs := ← Json.required? Json.asWord? jobs }
  | _ => none

def parse? (s : String) : Option (QueueSummary Float) := (Json.parse? s).bind ofJson?

end QueueSummary

/-- Which queues to list; a criterion that is absent admits all of them. -/
structure QueueSelection where
  ownerGroup : Option String := none
  ownerIdentity : Option String := none
  setup : Option String := none
  ids : Option (List Int) := none
  deriving DecidableEq, Repr

def QueueSelection.accepts (s : QueueSelection) (id : Int) (d : Definition) : Bool :=
  s.ownerGroup.all (d.ownerGroup = ·) && s.ownerIdentity.all (d.ownerIdentity = ·)
    && s.setup.all (d.setup = ·) && s.ids.all (·.contains id)

end Matchmaker
