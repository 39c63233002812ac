import Matchmaker.Broker.Recalculation

/-!
Operations on many jobs or queues at once. Afterwards the groups that they touched are recalculated,
each of them once.
-/
namespace Matchmaker

structure DeleteReport where
  removed : Nat
  /-- The jobs that were not queued. -/
  missing : List String
  deletedQueues : List Int
  deriving DecidableEq, Repr

structure PriorityReport where
  updated : Nat
  /-- The jobs that were not queued. -/
  unknown : List String
  deriving DecidableEq, Repr

abbrev QueueSet := Std.ExtTreeSet Int

namespace Broker

open Operation

variable {α : Type} [Scalar α] (b : Broker α)

/-- What removing jobs came to: how many were removed, which were missing, and the queues they were
in. -/
structure Removals where
  removed : Nat := 0
  missing : List String := []
  touched : QueueSet := ∅

def removeJobs : Removals → List String → Operation α Removals
  | r, [] => pure r
  | r, job :: rest => do
    match ← store (.removeJob job) with
    | some id => removeJobs { r with removed := r.removed + 1, touched := r.touched.insert id } rest
    | none => removeJobs { r with missing := r.missing ++ [job] } rest

/-- Removes the queues among those touched that are empty. The answer are the removed queues and
the groups of all that were still there. -/
def dropEmptied : List Int → Operation α (List Int × TextSet)
  | [] => pure ([], ∅)
  | id :: rest => do
    match ← store (.queue id) with
    | none => dropEmptied rest
    | some q =>
      let deleted : Bool ← if q.jobs = 0 then store (.deleteIfEmpty id) else pure false
      let (others, groups) ← dropEmptied rest
      pure (if deleted then id :: others else others, groups.insert q.definition.ownerGroup)

def delete (jobs : List String) : Operation α DeleteReport := do
  let removals ← removeJobs {} jobs
  record (.jobsDeleted removals.removed)
  let (deleted, groups) ← dropEmptied removals.touched.toList
  record (.queuesDeleted deleted.length)
  b.recalculateGroups groups.toList
  pure ⟨removals.removed, removals.missing, deleted⟩

structure Updates where
  updated : Nat := 0
  unknown : List String := []
  touched : QueueSet := ∅

def updateJobs : Updates → List (String × Int) → Operation α Updates
  | u, [] => pure u
  | u, (job, submitted) :: rest => do
    let effective ← orAbort (b.policy.bounds.effective? submitted)
    match ← store (.updateJob job submitted effective) with
    | some id => updateJobs { u with updated := u.updated + 1, touched := u.touched.insert id } rest
    | none => updateJobs { u with unknown := u.unknown ++ [job] } rest

def groupsOf : List Int → Operation α TextSet
  | [] => pure ∅
  | id :: rest => do
    match ← store (.queue id) with
    | none => groupsOf rest
    | some q =>
      let groups ← groupsOf rest
      pure (groups.insert q.definition.ownerGroup)

def reprioritize (updates : List (String × Int)) : Operation α PriorityReport := do
  let u ← b.updateJobs {} updates
  let groups ← groupsOf u.touched.toList
  b.recalculateGroups groups.toList
  pure ⟨u.updated, u.unknown⟩

/-- Removes those queues that may be removed. The answer are these queues and their groups. -/
def dropEach : List (Int × String) → Operation α (List Int × TextSet)
  | [] => pure ([], ∅)
  | (id, group) :: rest => do
    let deleted : Bool ← store (.deleteIfEmpty id)
    let (others, groups) ← dropEach rest
    pure (if deleted then (id :: others, groups.insert group) else (others, groups))

def clean : Operation α (List Int) := do
  let found ← store .empties
  let (deleted, groups) ← dropEach found
  record (.queuesDeleted deleted.length)
  b.recalculateGroups groups.toList
  pure deleted

end Broker

end Matchmaker
