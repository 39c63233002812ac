import Std.Data.ExtTreeMap
import Matchmaker.Decimal.Digits

/-!
Counters of what the broker did, and their text form: families by name, labels by value, a label
only once it was used.
-/
namespace Matchmaker

inductive InsertOutcome where
  | inserted
  | busy
  | rejected
  deriving DecidableEq, Repr

def InsertOutcome.label : InsertOutcome → String
  | inserted => "inserted"
  | busy => "busy"
  | rejected => "rejected"

inductive MatchResult where
  | matched
  | noMatch
  | rejected
  deriving DecidableEq, Repr

def MatchResult.label : MatchResult → String
  | matched => "matched"
  | noMatch => "no_match"
  | rejected => "rejected"

inductive Event where
  | insertion (outcome : InsertOutcome)
  | contentionRetry
  | answer (result : MatchResult)
  | jobsDeleted (count : Nat)
  | queueCreated
  | queuesDeleted (count : Nat)
  | recalculation
  deriving DecidableEq, Repr

abbrev Counts := Std.ExtTreeMap String Nat

def Counts.add (c : Counts) (label : String) (count : Nat) : Counts :=
  c.insert label (c.getD label 0 + count)

structure Metrics where
  inserts : Counts := ∅
  retries : Nat := 0
  answers : Counts := ∅
  deletedJobs : Nat := 0
  queues : Counts := ∅
  recalculations : Nat := 0

namespace Metrics

def record (m : Metrics) : Event → Metrics
  | .insertion outcome => { m with inserts := m.inserts.add outcome.label 1 }
  | .contentionRetry => { m with retries := m.retries + 1 }
  | .answer result => { m with answers := m.answers.add result.label 1 }
  | .jobsDeleted count => { m with deletedJobs := m.deletedJobs + count }
  | .queueCreated => { m with queues := m.queues.add "created" 1 }
  | .queuesDeleted count => { m with queues := m.queues.add "deleted" count }
  | .recalculation => { m with recalculations := m.recalculations + 1 }

def observedMatches (m : Metrics) : Nat := m.answers.values.foldr (· + ·) 0

def heading (name help kind : String) : List String :=
  ["# HELP " ++ name ++ " " ++ help, "# TYPE " ++ name ++ " " ++ kind]

def single (name help : String) (count : Nat) : List String :=
  heading name help "counter" ++ [name ++ " " ++ Decimal.natText count]

/-- A family with one sample for each label; without any it is left out. -/
def labelled (name help label : String) (counts : Counts) : List String :=
  if counts.isEmpty then []
  else heading name help "counter" ++ counts.toList.map fun (value, count) =>
    name ++ "\x7b" ++ label ++ "=\"" ++ value ++ "\"\x7d " ++ Decimal.natText count

def lines (m : Metrics) : List String :=
  single "gridmatch_contention_retries_total" "Insert retries caused by task queue contention"
      m.retries
    ++ single "gridmatch_jobs_deleted_total" "Jobs removed by explicit deletion" m.deletedJobs
    ++ labelled "gridmatch_jobs_inserted_total" "Job insertion attempts by outcome" "outcome"
      m.inserts
    ++ heading "gridmatch_match_latency_seconds" "Match request latency in seconds" "histogram"
    ++ labelled "gridmatch_matches_total" "Match requests by outcome" "outcome" m.answers
    ++ single "gridmatch_recalculations_total" "Per-group priority recalculations"
      m.recalculations
    ++ labelled "gridmatch_task_queues_total" "Task queue lifecycle events" "event" m.queues

/-- What is shown where counting was never started. -/
def uninitialized : String := "# Metrics not initialized. Call init_metrics() first.\n"

end Metrics

end Matchmaker
