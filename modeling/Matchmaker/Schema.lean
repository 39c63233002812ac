/-!
The tables of the database, as versioned migrations. Values and jobs refer to their queue, so that
removing a queue removes what belongs to it.
-/
namespace Matchmaker

structure Migration where
  version : Nat
  name : String
  /-- Run in order, in one transaction. -/
  statements : List String
  deriving DecidableEq, Repr

namespace Schema

def queueTable : String := "tq_task_queues"

def valueTable : String := "tq_multi_values"

def jobTable : String := "tq_jobs"

def migrationTable : String := "_migrations"

def createQueues : String := "
CREATE TABLE IF NOT EXISTS tq_task_queues (
    tq_id BIGSERIAL PRIMARY KEY,
    fingerprint CHAR(64) NOT NULL UNIQUE,
    owner_identity VARCHAR(255) NOT NULL,
    owner_group VARCHAR(128) NOT NULL,
    setup VARCHAR(128) NOT NULL,
    cpu_time BIGINT NOT NULL,
    priority DOUBLE PRECISION NOT NULL DEFAULT 1.0,
    enabled BOOLEAN NOT NULL DEFAULT FALSE,
    created_at TIMESTAMPTZ NOT NULL DEFAULT NOW()
)
"

def createQueueIndex : String :=
  "CREATE INDEX IF NOT EXISTS idx_tq_task_queues_group ON tq_task_queues(owner_group, owner_identity)"

def createValues : String := "
CREATE TABLE IF NOT EXISTS tq_multi_values (
    id BIGSERIAL PRIMARY KEY,
    tq_id BIGINT NOT NULL REFERENCES tq_task_queues(tq_id) ON DELETE CASCADE,
    field VARCHAR(32) NOT NULL,
    value VARCHAR(255),
    UNIQUE(tq_id, field, value)
)
"

def createValueIndex : String :=
  "CREATE INDEX IF NOT EXISTS idx_tq_multi_values_field ON tq_multi_values(field, value)"

def createJobs : String := "
CREATE TABLE IF NOT EXISTS tq_jobs (
    job_id VARCHAR(255) PRIMARY KEY,
    tq_id BIGINT NOT NULL REFERENCES tq_task_queues(tq_id) ON DELETE CASCADE,
    submitted_priority BIGINT NOT NULL,
    effective_priority DOUBLE PRECISION NOT NULL,
    inserted_at TIMESTAMPTZ NOT NULL DEFAULT NOW()
)
"

def createJobIndex : String :=
  "CREATE INDEX IF NOT EXISTS idx_tq_jobs_tq_priority ON tq_jobs(tq_id, effective_priority, job_id)"

def migrations : List Migration :=
  [⟨1, "task_queues", [createQueues, createQueueIndex]⟩,
    ⟨2, "multi_values", [createValues, createValueIndex]⟩,
    ⟨3, "jobs", [createJobs, createJobIndex]⟩]

/-- The tables in the order in which they are dropped: those that refer to queues first. -/
def dropOrder : List String := [jobTable, valueTable, queueTable, migrationTable]

end Schema

end Matchmaker
