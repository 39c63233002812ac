import Matchmaker.Store.State

/-!
Calls to a store, and what they answer. A call either fails and leaves the store alone, or is one
operation of the store.
-/
namespace Matchmaker

inductive StoreCall (α : Type) where
  | find (definition : Definition)
  | create (definition : Definition) (priority : α) (enabled : Bool)
  | setEnabled (id : Int) (expected new : Bool)
  | addJob (id : Int) (job : String) (submitted : Int) (effective : α)
  | removeJob (job : String)
  | countJobs (id : Int)
  | deleteIfEmpty (id : Int)
  | matching (filter : Filter)
  | priorityClasses (id : Int)
  | jobsWithPriority (id : Int) (priority : α) (limit : Nat)
  | job (job : String)
  | updateJob (job : String) (submitted : Int) (effective : α)
  | queue (id : Int)
  | list (selection : QueueSelection)
  | ownersIn (group : String)
  | groups
  | loads (group : String) (identity : Option String)
  | setPriorities (priorities : List (Int × α))
  | empties

namespace StoreCall

variable {α : Type}

def Answer : StoreCall α → Type
  | find _ => Option Int
  | create _ _ _ => Int
  | setEnabled _ _ _ => Bool
  | addJob _ _ _ _ => Unit
  | removeJob _ => Option Int
  | countJobs _ => Nat
  | deleteIfEmpty _ => Bool
  | matching _ => List (Candidate α)
  | priorityClasses _ => List (PriorityClass α)
  | jobsWithPriority _ _ _ => List String
  | job _ => Option (Job α)
  | updateJob _ _ _ => Option Int
  | queue _ => Option (QueueSummary α)
  | list _ => List (QueueSummary α)
  | ownersIn _ => TextSet
  | groups => TextSet
  | loads _ _ => List (Load α)
  | setPriorities _ => Unit
  | empties => List (Int × String)

end StoreCall

namespace Store

variable {α : Type}

/-- An operation that changes the store, or fails and leaves it alone. -/
def attempt {β : Type} (s : Store α) : Except StoreError (β × Store α) → Except StoreError β × Store α
  | .ok (answer, s) => (.ok answer, s)
  | .error e => (.error e, s)

def perform [Scalar α] (s : Store α) :
    (call : StoreCall α) → Except StoreError call.Answer × Store α
  | .find d => (.ok (s.find d), s)
  | .create d priority enabled => s.attempt (s.create d priority enabled)
  | .setEnabled id expected new =>
    let (changed, s) := s.setEnabled id expected new
    (.ok changed, s)
  | .addJob id job submitted effective =>
    s.attempt ((s.addJob id job submitted effective).map fun s => ((), s))
  | .removeJob job =>
    let (queue, s) := s.removeJob job
    (.ok queue, s)
  | .countJobs id => (.ok (s.countJobs id), s)
  | .deleteIfEmpty id =>
    let (deleted, s) := s.deleteIfEmpty id
    (.ok deleted, s)
  | .matching filter => (.ok (s.matching filter), s)
  | .priorityClasses id => (.ok (s.priorityClasses id), s)
  | .jobsWithPriority id priority limit => (.ok (s.jobsWithPriority id priority limit), s)
  | .job job => (.ok (s.job? job), s)
  | .updateJob job submitted effective =>
    let (queue, s) := s.updateJob job submitted effective
    (.ok queue, s)
  | .queue id => (.ok (s.queue? id), s)
  | .list selection => (.ok (s.list selection), s)
  | .ownersIn group => (.ok (s.ownersIn group), s)
  | .groups => (.ok s.groups, s)
  | .loads group identity => (.ok (s.loads group identity), s)
  | .setPriorities priorities => (.ok (), s.setPriorities priorities)
  | .empties => (.ok s.empties, s)

end Store

end Matchmaker
