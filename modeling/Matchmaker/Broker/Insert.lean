import Matchmaker.Broker.Recalculation
import Matchmaker.Queue.Requirements

/-!
Inserting a job. The queue is taken out of matching while the job is added: whoever disables it, or
creates it disabled, holds it and enables it again. If another one holds the queue, or got in
between, the insertion starts over.
-/
namespace Matchmaker.Broker

open Operation

variable {α : Type} [Scalar α] (b : Broker α)

inductive Attempt where
  | done (queue : Int)
  | contended
  deriving DecidableEq, Repr

def release (id : Int) : Operation α Unit := do
  let _ ← store (.setEnabled id false true)
  pure ()

/-- Removes a queue that was created for a job that could not be added. -/
def abandon (id : Int) : Operation α Unit := do
  match ← tryStore (.setEnabled id false true) with
  | .error _ => pure ()
  | .ok _ =>
    match ← tryStore (.deleteIfEmpty id) with
    | .ok true => record (.queuesDeleted 1)
    | _ => pure ()

def insertIntoExisting (id : Int) (job : String) (submitted : Int) (effective : α) :
    Operation α Attempt := do
  let changed : Bool ← store (.setEnabled id true false)
  if changed then
    let added ← tryStore (.addJob id job submitted effective)
    release id
    match added with
    | .ok _ => pure (.done id)
    | .error (.unknownQueue _) => pure .contended
    | .error e => throw (.store e)
  else pure .contended

def insertIntoNew (d : Definition) (job : String) (submitted : Int) (effective : α) :
    Operation α Attempt := do
  match ← tryStore (.create d b.policy.initialPriority false) with
  | .error .duplicateDefinition => pure .contended
  | .error e => throw (.store e)
  | .ok id =>
    record .queueCreated
    match ← tryStore (.addJob id job submitted effective) with
    | .error e =>
      abandon id
      throw (.store e)
    | .ok _ =>
      attempt (b.recalculate d.ownerGroup)
      release id
      pure (.done id)

/-- One attempt to insert a job into the queue with its definition. -/
def insertOnce (d : Definition) (job : String) (submitted : Int) (effective : α) :
    Operation α Attempt := do
  match ← store (.find d) with
  | some id => insertIntoExisting id job submitted effective
  | none => b.insertIntoNew d job submitted effective

def insertRepeatedly (d : Definition) (job : String) (submitted : Int) (effective : α) :
    Nat → Operation α Int
  | 0 => do
    record (.insertion .busy)
    throw (.busy b.policy.insertAttempts)
  | attempts + 1 => do
    match ← b.insertOnce d job submitted effective with
    | .done id =>
      record (.insertion .inserted)
      pure id
    | .contended =>
      record .contentionRetry
      insertRepeatedly d job submitted effective attempts

def definitionFor (job : String) (r : Requirements) : Except ValidationError Definition :=
  match Text.content? job with
  | none => .error (.emptyField "jobId")
  | some _ => r.toDefinition b.policy.segments

/-- Queues a job. The answer is its queue. -/
def insert (job : String) (r : Requirements) (submitted : Int) : Operation α Int := do
  match b.definitionFor job r with
  | .error e =>
    record (.insertion .rejected)
    throw (.validation e)
  | .ok d =>
    let effective ← orAbort (b.policy.bounds.effective? submitted)
    b.insertRepeatedly d job submitted effective b.policy.insertAttempts

end Matchmaker.Broker
