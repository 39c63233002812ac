import Matchmaker.Store.Call

/-!
Rehearsing failures and races: faults armed on the operations of a store. A fault first makes other
calls, as a rival would; then the call fails without reaching the store, or goes on.
-/
namespace Matchmaker

inductive StoreMethod where
  | find
  | create
  | setEnabled
  | addJob
  | removeJob
  | countJobs
  | deleteIfEmpty
  | matching
  | priorityClasses
  | jobsWithPriority
  | job
  | updateJob
  | queue
  | list
  | ownersIn
  | groups
  | loads
  | setPriorities
  | empties
  deriving DecidableEq, Repr

def StoreMethod.ofName? (name : String) : Option StoreMethod :=
  [("find", find), ("create", create), ("set_enabled", setEnabled), ("add_job", addJob),
    ("remove_job", removeJob), ("count_jobs", countJobs), ("delete_if_empty", deleteIfEmpty),
    ("matching_queues", matching), ("priority_classes", priorityClasses),
    ("jobs_with_priority", jobsWithPriority), ("get_job", job), ("update_job_priority", updateJob),
    ("get_task_queue", queue), ("list_task_queues", list), ("owners_in_group", ownersIn),
    ("groups_in_queues", groups), ("queue_loads", loads), ("set_priorities", setPriorities),
    ("empty_queues", empties)].lookup name

namespace StoreCall

variable {α : Type}

def method : StoreCall α → StoreMethod
  | find _ => .find
  | create _ _ _ => .create
  | setEnabled _ _ _ => .setEnabled
  | addJob _ _ _ _ => .addJob
  | removeJob _ => .removeJob
  | countJobs _ => .countJobs
  | deleteIfEmpty _ => .deleteIfEmpty
  | matching _ => .matching
  | priorityClasses _ => .priorityClasses
  | jobsWithPriority _ _ _ => .jobsWithPriority
  | job _ => .job
  | updateJob _ _ _ => .updateJob
  | queue _ => .queue
  | list _ => .list
  | ownersIn _ => .ownersIn
  | groups => .groups
  | loads _ _ => .loads
  | setPriorities _ => .setPriorities
  | empties => .empties

def queueId? : StoreCall α → Option Int
  | setEnabled id _ _ => some id
  | addJob id _ _ _ => some id
  | countJobs id => some id
  | deleteIfEmpty id => some id
  | priorityClasses id => some id
  | jobsWithPriority id _ _ => some id
  | queue id => some id
  | _ => none

end StoreCall

inductive FaultKind where
  | corrupt
  | connection
  | duplicateDefinition
  | duplicateJob
  | unknownQueue
  /-- No answer comes, and the caller has to give up. -/
  | hang
  deriving DecidableEq, Repr

def FaultKind.ofName? (name : String) : Option FaultKind :=
  [("corrupt", corrupt), ("connection", connection), ("duplicate_definition", duplicateDefinition),
    ("duplicate_job", duplicateJob), ("unknown_queue", unknownQueue), ("hang", hang)].lookup name

def FaultKind.error {α : Type} (call : StoreCall α) : FaultKind → StoreError
  | corrupt => .corrupt "injected"
  | connection => .connectionFailed "injected"
  | duplicateDefinition => .duplicateDefinition
  | duplicateJob => .duplicateJob "injected"
  | unknownQueue => .unknownQueue (call.queueId?.getD 0)
  | hang => .connectionFailed "no answer"

inductive Rival where
  /-- Creates the same queue, enabled. -/
  | create
  /-- Removes the same job. -/
  | steal
  deriving DecidableEq, Repr

structure Fault (α : Type) where
  method : StoreMethod
  /-- The calls to pass over. -/
  skip : Nat
  /-- The calls to fire on. -/
  times : Nat
  before : List (StoreCall α)
  rival : Option Rival
  failure : Option FaultKind

/-- A store behind faults, in the order in which they were armed. -/
structure FaultyStore (α σ : Type) where
  store : σ
  faults : List (Fault α) := []
  /-- Whether a call got no answer. -/
  hung : Bool := false

namespace FaultyStore

variable {α σ : Type}

/-- The fault that fires on a call, and the faults after it. -/
def trigger (method : StoreMethod) : List (Fault α) → Option (Fault α) × List (Fault α)
  | [] => (none, [])
  | fault :: rest =>
    if fault.method = method ∧ fault.times ≠ 0 then
      if fault.skip = 0 then (some fault, { fault with times := fault.times - 1 } :: rest)
      else
        let (found, rest) := trigger method rest
        (found, { fault with skip := fault.skip - 1 } :: rest)
    else
      let (found, rest) := trigger method rest
      (found, fault :: rest)

/-- What a rival does just before a call; a rival that creates may be refused. -/
def rivalCall (call : StoreCall α) : Option Rival → Option (StoreCall α)
  | some .create =>
    match call with
    | .create d priority _ => some (.create d priority true)
    | _ => none
  | some .steal =>
    match call with
    | .removeJob job => some (.removeJob job)
    | _ => none
  | none => none

variable (answer : (call : StoreCall α) → σ → Except StoreError call.Answer × σ)

/-- The call behind what its rival does. -/
def contest (call : StoreCall α) (rival : Option Rival) (s : σ) :
    Except StoreError call.Answer × σ :=
  match rivalCall call rival with
  | none => answer call s
  | some other =>
    match answer other s with
    | (.error e, s) => (.error e, s)
    | (.ok _, s) => answer call s

def fire (call : StoreCall α) (fault : Fault α) (s : σ) : Except StoreError call.Answer × σ :=
  let s := fault.before.foldl (fun s other => (answer other s).2) s
  match fault.failure with
  | some kind => (.error (kind.error call), s)
  | none => contest answer call fault.rival s

def perform (call : StoreCall α) (f : FaultyStore α σ) :
    Except StoreError call.Answer × FaultyStore α σ :=
  let (found, faults) := trigger call.method f.faults
  match found with
  | none =>
    let (result, s) := answer call f.store
    (result, { f with store := s, faults := faults })
  | some fault =>
    let (result, s) := fire answer call fault f.store
    (result, ⟨s, faults, f.hung || fault.failure = some .hang⟩)

end FaultyStore

end Matchmaker
