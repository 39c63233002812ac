import Std.Data.ExtTreeMap
import Matchmaker.Error
import Matchmaker.Queue.Candidate
import Matchmaker.Queue.Load
import Matchmaker.Queue.Summary
import Matchmaker.Resource.Filter

/-!
The store of queues and jobs. Each operation is one atomic step: what it answers, and the store
after it. A queue is open to resources while it is enabled; whoever changes the flag from the value
that it expects holds the queue.
-/
namespace Matchmaker

structure Job (α : Type) where
  queue : Int
  submitted : Int
  effective : α
  deriving Repr

structure StoredQueue (α : Type) where
  definition : Definition
  fingerprint : String
  priority : α
  enabled : Bool
  jobs : TextSet

structure Store (α : Type) where
  /-- The greatest number given to a queue so far. -/
  lastId : Int := 0
  queues : Std.ExtTreeMap Int (StoredQueue α) := ∅
  byFingerprint : Std.ExtTreeMap String Int := ∅
  jobs : Std.ExtTreeMap String (Job α) := ∅

def StoredQueue.summary {α : Type} (q : StoredQueue α) (id : Int) : QueueSummary α :=
  ⟨id, q.definition, q.priority, q.enabled, q.jobs.size⟩

namespace Store

variable {α : Type} (s : Store α)

/-! ### Queues -/

def find (d : Definition) : Option Int := s.byFingerprint[d.fingerprint]?

/-- Numbers and keeps a queue, unless one with this definition is there. -/
def create (d : Definition) (priority : α) (enabled : Bool) : Except StoreError (Int × Store α) :=
  if s.byFingerprint.contains d.fingerprint then .error .duplicateDefinition
  else
    let id := s.lastId + 1
    .ok (id, { s with
      lastId := id
      queues := s.queues.insert id ⟨d, d.fingerprint, priority, enabled, ∅⟩
      byFingerprint := s.byFingerprint.insert d.fingerprint id })

/-- Changes the flag of a queue if it has the expected value. -/
def setEnabled (id : Int) (expected new : Bool) : Bool × Store α :=
  match s.queues[id]? with
  | none => (false, s)
  | some q =>
    if q.enabled = expected then
      (true, { s with queues := s.queues.insert id { q with enabled := new } })
    else (false, s)

/-- Removes a queue that is enabled and has no jobs. -/
def deleteIfEmpty (id : Int) : Bool × Store α :=
  match s.queues[id]? with
  | none => (false, s)
  | some q =>
    if q.enabled && q.jobs.isEmpty then
      (true, { s with
        queues := s.queues.erase id
        byFingerprint := s.byFingerprint.erase q.fingerprint })
    else (false, s)

/-- Writes priorities; queues that are gone are passed over. -/
def setPriorities (priorities : List (Int × α)) : Store α :=
  priorities.foldl
    (fun s (id, priority) => { s with
      queues := s.queues.modify id fun q => { q with priority := priority } }) s

def queue? (id : Int) : Option (QueueSummary α) := s.queues[id]?.map (·.summary id)

def list (selection : QueueSelection) : List (QueueSummary α) :=
  s.queues.toList.filterMap fun (id, q) =>
    if selection.accepts id q.definition then some (q.summary id) else none

/-- The enabled queues that a filter admits, in the order of their numbers. -/
def matching (filter : Filter) : List (Candidate α) :=
  s.queues.toList.filterMap fun (id, q) =>
    if q.enabled && filter.admits q.definition then
      some ⟨id, q.definition.ownerIdentity, q.definition.ownerGroup, q.definition.cpuTime,
        q.priority⟩
    else none

def ownersIn (group : String) : TextSet :=
  .ofList (s.queues.values.filterMap fun q =>
    if q.definition.ownerGroup = group then some q.definition.ownerIdentity else none)

def groups : TextSet := .ofList (s.queues.values.map (·.definition.ownerGroup))

def empties : List (Int × String) :=
  s.queues.toList.filterMap fun (id, q) =>
    if q.jobs.isEmpty then some (id, q.definition.ownerGroup) else none

/-! ### Jobs -/

def addJob (id : Int) (job : String) (submitted : Int) (effective : α) :
    Except StoreError (Store α) :=
  if s.jobs.contains job then .error (.duplicateJob job)
  else
    match s.queues[id]? with
    | none => .error (.unknownQueue id)
    | some q =>
      .ok { s with
        queues := s.queues.insert id { q with jobs := q.jobs.insert job }
        jobs := s.jobs.insert job ⟨id, submitted, effective⟩ }

/-- Removes a job; the answer is its queue, or none if the job is not there. -/
def removeJob (job : String) : Option Int × Store α :=
  match s.jobs[job]? with
  | none => (none, s)
  | some found =>
    (some found.queue, { s with
      jobs := s.jobs.erase job
      queues := s.queues.modify found.queue fun q => { q with jobs := q.jobs.erase job } })

def countJobs (id : Int) : Nat := (s.queues[id]?.map (·.jobs.size)).getD 0

def job? (job : String) : Option (Job α) := s.jobs[job]?

/-- Replaces the priorities of a job; the answer is its queue, or none if the job is not there. -/
def updateJob (job : String) (submitted : Int) (effective : α) : Option Int × Store α :=
  match s.jobs[job]? with
  | none => (none, s)
  | some found =>
    (some found.queue, { s with jobs := s.jobs.insert job ⟨found.queue, submitted, effective⟩ })

variable [Scalar α]

def effectives (jobs : TextSet) : List α :=
  jobs.toList.filterMap fun job => s.jobs[job]?.map (·.effective)

def priorityClasses (id : Int) : List (PriorityClass α) :=
  match s.queues[id]? with
  | none => []
  | some q => PriorityClass.ofPriorities (s.effectives q.jobs)

/-- The first jobs of a queue with an effective priority, at most `limit`. -/
def jobsWithPriority (id : Int) (priority : α) (limit : Nat) : List String :=
  match s.queues[id]? with
  | none => []
  | some q =>
    (q.jobs.toList.filter fun job => s.jobs[job]?.any (·.effective == priority)).take limit

/-- The loads of the queues of a group, or of one identity in it. -/
def loads (group : String) (identity : Option String) : List (Load α) :=
  s.queues.toList.filterMap fun (id, q) =>
    if q.definition.ownerGroup = group && identity.all (q.definition.ownerIdentity = ·) then
      some ⟨id, Scalar.total (s.effectives q.jobs), q.jobs.size⟩
    else none

end Store

end Matchmaker
