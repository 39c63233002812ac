import Matchmaker.Scalar

/-!
The priorities of the jobs in a queue, summed up: by class for choosing a job, as a whole for
splitting a share.
-/
namespace Matchmaker

structure PriorityClass (α : Type) where
  priority : α
  jobs : Nat
  deriving Repr

structure Load (α : Type) where
  queue : Int
  sum : α
  jobs : Nat
  deriving Repr

variable {α : Type} [Scalar α]

namespace PriorityClass

def contribution (c : PriorityClass α) : α := c.priority * Scalar.ofInt c.jobs

def insert (priority : α) : List (PriorityClass α) → List (PriorityClass α)
  | [] => [⟨priority, 1⟩]
  | c :: rest =>
    match Scalar.compareClass priority c.priority with
    | .lt => ⟨priority, 1⟩ :: c :: rest
    | .eq => ⟨c.priority, c.jobs + 1⟩ :: rest
    | .gt => c :: insert priority rest

def ofPriorities (priorities : List α) : List (PriorityClass α) :=
  priorities.foldl (fun classes priority => insert priority classes) []

end PriorityClass

/-- The mean priority of the jobs, zero without jobs. -/
def Load.mean (l : Load α) : α := if l.jobs = 0 then Scalar.zero else l.sum / Scalar.ofInt l.jobs

end Matchmaker
