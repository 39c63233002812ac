import Matchmaker.Decimal.Layout
import Matchmaker.Job.Priority
import Matchmaker.Queue.Attribute
import Matchmaker.Queue.Segments

/-!
Settings as they are given, and the policy that they make if none of them is at fault.
-/
namespace Matchmaker

structure Settings (α : Type) where
  segments : List Nat
  priorityMin : α
  priorityMax : α
  /-- The priority of a queue before the first recalculation. -/
  initialPriority : α
  insertAttempts : Nat
  /-- The pause between two attempts, in milliseconds. -/
  insertPause : Nat
  matchAttempts : Nat
  candidateLimit : Nat
  /-- How many jobs are looked at in one go. -/
  batchSize : Nat
  privateTypes : TextSet
  /-- Seed of the random choices; arbitrary when absent. -/
  seed : Option Nat
  minShare : α
  /-- The mean priority up to which a queue counts as a background queue. -/
  backgroundThreshold : α
  /-- The time between two sweeps, in seconds. -/
  sweepInterval : Nat

inductive SettingsFault (α : Type) where
  | segments (cause : ValidationError)
  | bounds (min max : α)
  | notPositive (key : String)
  | negative (key : String)
  deriving Repr

def SettingsFault.message : SettingsFault Float → String
  | segments cause => cause.message
  | bounds min max =>
    "priority bounds must satisfy 0 < min < max, got [" ++ Decimal.plainText min ++ ", "
      ++ Decimal.plainText max ++ "]"
  | notPositive key => key ++ " must be greater than 0"
  | negative key => key ++ " cannot be negative"

structure Policy (α : Type) where
  segments : Segments
  bounds : PriorityBounds α
  initialPriority : α
  insertAttempts : Nat
  matchAttempts : Nat
  candidateLimit : Nat
  batchSize : Nat
  privateTypes : TextSet
  minShare : α
  backgroundThreshold : α

namespace Settings

variable {α : Type} [Scalar α]

def bounds (s : Settings α) : PriorityBounds α := ⟨s.priorityMin, s.priorityMax⟩

def demand (condition : Bool) (fault : SettingsFault α) : Except (SettingsFault α) Unit :=
  if condition then .ok () else .error fault

/-- The policy of these settings, or the first of them at fault. -/
def policy (s : Settings α) : Except (SettingsFault α) (Policy α) := do
  let segments ← (Segments.ofList s.segments).mapError SettingsFault.segments
  demand s.bounds.isValid (.bounds s.priorityMin s.priorityMax)
  demand (Scalar.isWeight s.initialPriority) (.notPositive "initial_queue_priority")
  demand (s.insertAttempts ≠ 0) (.notPositive "insert_max_retries")
  demand (s.matchAttempts ≠ 0) (.notPositive "match_attempts")
  demand (s.candidateLimit ≠ 0) (.notPositive "candidate_limit")
  demand (s.batchSize ≠ 0) (.notPositive "job_batch_size")
  demand (Scalar.isWeight s.minShare) (.notPositive "min_queue_share")
  demand (!decide (s.backgroundThreshold < Scalar.zero)) (.negative "background_priority_threshold")
  demand (s.sweepInterval ≠ 0) (.notPositive "share_sweep_interval")
  .ok {
    segments := segments
    bounds := s.bounds
    initialPriority := s.initialPriority
    insertAttempts := s.insertAttempts
    matchAttempts := s.matchAttempts
    candidateLimit := s.candidateLimit
    batchSize := s.batchSize
    privateTypes := s.privateTypes
    minShare := s.minShare
    backgroundThreshold := s.backgroundThreshold }

def standard : Settings α where
  segments := Segments.standard.boundaries
  priorityMin := Scalar.ofInt 1 / Scalar.ofInt 1000
  priorityMax := Scalar.ofInt 10
  initialPriority := Scalar.one
  insertAttempts := 10
  insertPause := 100
  matchAttempts := 3
  candidateLimit := 10
  batchSize := 10
  privateTypes := .ofList ["private"]
  seed := none
  minShare := Scalar.ofInt 1 / Scalar.ofInt 1000
  backgroundThreshold := Scalar.ofInt 1 / Scalar.ofInt 10
  sweepInterval := 300

end Settings

def Settings.checked (s : Settings Float) : Except SettingsError (Policy Float) :=
  s.policy.mapError fun fault => .validationFailed fault.message

end Matchmaker
