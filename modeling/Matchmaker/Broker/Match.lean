import Matchmaker.Broker.Recalculation
import Matchmaker.Random.Sampling

/-!
Matching: a resource gets one job that it can run. Its candidate queues are ranked and visited until
a job can be removed. Where another one was faster, the next job, queue or attempt has its turn.
-/
namespace Matchmaker

structure MatchedJob where
  job : String
  queue : Int
  ownerIdentity : String
  ownerGroup : String
  deriving DecidableEq, Repr

namespace Broker

open Operation

variable {α : Type} [Scalar α] (b : Broker α)

/-- The filter of a resource, its CPU time taken to the segment as for jobs. -/
def filterFor (c : Capabilities) : Except ValidationError Filter :=
  { c with cpuTime := c.cpuTime.map b.policy.segments.bucket }.toFilter b.policy.privateTypes

/-- Removes a queue if nothing is left in it, and recalculates its group. -/
def cleanUp (c : Candidate α) : Operation α Unit := do
  match ← tryStore (.deleteIfEmpty c.queue) with
  | .ok true =>
    record (.queuesDeleted 1)
    attempt (b.recalculate c.ownerGroup)
  | _ => pure ()

/-- Removes the queue of a job that was handed out, if it was the last one. -/
def cleanUpAfter (c : Candidate α) : Operation α Unit := do
  let left : Except StoreError Nat ← tryStore (.countJobs c.queue)
  match left with
  | .ok 0 => b.cleanUp c
  | _ => pure ()

/-- What is left of a batch without one place; the last item fills the gap. -/
def swapRemove (batch : List String) (i : Nat) : List String :=
  if i + 1 = batch.length then batch.dropLast
  else (batch.set i (batch.getLastD "")).dropLast

theorem length_swapRemove (batch : List String) (i : Nat) :
    (swapRemove batch i).length = batch.length - 1 := by
  unfold swapRemove
  split <;> simp

/-- Tries to remove the jobs of a batch in random order, until one is removed. -/
def takeAny (batch : List String) : Operation α (Option String) :=
  match batch with
  | [] => pure none
  | first :: rest => do
    let i ← choose (Random.Draw.index (rest.length + 1))
    let job ← orAbort (first :: rest)[i]?
    match ← store (.removeJob job) with
    | some _ => pure (some job)
    | none => takeAny (swapRemove (first :: rest) i)
termination_by batch.length
decreasing_by simp [length_swapRemove]

/-- Tries to remove a job from a queue: from a priority class chosen by weight, any of the first
jobs. -/
def takeFrom (c : Candidate α) : Operation α (Option String) := do
  let classes ← store (.priorityClasses c.queue)
  match classes with
  | [] =>
    b.cleanUp c
    pure none
  | first :: rest =>
    let winner ← choose (Random.pickWeighted ((first :: rest).map PriorityClass.contribution))
    let chosen ← orAbort ((first :: rest)[winner.getD 0]?)
    let batch ← store (.jobsWithPriority c.queue chosen.priority b.policy.batchSize)
    takeAny batch

def takeFirst : List (Candidate α) → Operation α (Option MatchedJob)
  | [] => pure none
  | c :: rest => do
    match ← b.takeFrom c with
    | some job =>
      b.cleanUpAfter c
      pure (some ⟨job, c.queue, c.ownerIdentity, c.ownerGroup⟩)
    | none => takeFirst rest

variable [Random.Logarithm α]

def rankedCandidates (f : Filter) : Operation α (List (Candidate α)) := do
  let found ← store (.matching f)
  choose (Random.rank found b.policy.candidateLimit)

def extractWithin (f : Filter) : Nat → Operation α (Option MatchedJob)
  | 0 => pure none
  | attempts + 1 => do
    match ← b.rankedCandidates f with
    | [] => pure none
    | first :: rest =>
      match ← b.takeFirst (first :: rest) with
      | some found => pure (some found)
      | none => extractWithin f attempts

def extract (f : Filter) : Operation α (Option MatchedJob) :=
  b.extractWithin f b.policy.matchAttempts

def takeJob (c : Capabilities) : Operation α (Option MatchedJob) := do
  match b.filterFor c with
  | .error e =>
    record (.answer .rejected)
    throw (.validation e)
  | .ok f =>
    let found ← b.extract f
    record (.answer (if found.isSome then .matched else .noMatch))
    pure found

def candidates (c : Capabilities) : Operation α (List (Candidate α)) := do
  let f ← ofValidation (b.filterFor c)
  b.rankedCandidates f

end Broker

end Matchmaker
