import Matchmaker.Decimal.Literal
import Matchmaker.Settings.Policy
import Matchmaker.Text.Blank

/-!
Settings from named variables. A variable that is not set leaves the standard value.
-/
namespace Matchmaker.Settings

abbrev Environment := String → Option String

def ofVariable {β : Type} (env : Environment) (name : String)
    (read : String → Except String β) (otherwise : β) : Except SettingsError β :=
  match env name with
  | none => .ok otherwise
  | some value => (read value).mapError (.invalidValue name)

def readWhole (limit : Nat) (value : String) : Except String Nat :=
  (Decimal.readNat limit (Text.trim value)).mapError Decimal.WholeError.message

def readNumber (value : String) : Except String Float :=
  (Decimal.readFloat (Text.trim value)).mapError Decimal.FloatError.message

/-- The trimmed items between commas, less the blank ones. -/
def items (value : String) : List String :=
  (value.splitOn ",").filterMap Text.content?

def readWholes (value : String) : Except String (List Nat) :=
  (items value).mapM (readWhole Decimal.maxWord64)

def variableNames : List String :=
  ["GRIDMATCH_CPU_SEGMENTS", "GRIDMATCH_PRIORITY_MIN", "GRIDMATCH_PRIORITY_MAX",
    "GRIDMATCH_INITIAL_PRIORITY", "GRIDMATCH_INSERT_RETRIES", "GRIDMATCH_INSERT_RETRY_DELAY_MS",
    "GRIDMATCH_MATCH_ATTEMPTS", "GRIDMATCH_CANDIDATE_LIMIT", "GRIDMATCH_JOB_BATCH_SIZE",
    "GRIDMATCH_PRIVATE_PILOT_TYPES", "GRIDMATCH_RNG_SEED", "GRIDMATCH_MIN_QUEUE_SHARE",
    "GRIDMATCH_BACKGROUND_THRESHOLD", "GRIDMATCH_SHARE_SWEEP_SECS"]

def ofEnvironment (env : Environment) : Except SettingsError (Settings Float) := do
  let s : Settings Float := standard
  let word := readWhole Decimal.maxWord64
  let half := readWhole Decimal.maxWord32
  let segments ← ofVariable env "GRIDMATCH_CPU_SEGMENTS" readWholes s.segments
  let priorityMin ← ofVariable env "GRIDMATCH_PRIORITY_MIN" readNumber s.priorityMin
  let priorityMax ← ofVariable env "GRIDMATCH_PRIORITY_MAX" readNumber s.priorityMax
  let initialPriority ← ofVariable env "GRIDMATCH_INITIAL_PRIORITY" readNumber s.initialPriority
  let insertAttempts ← ofVariable env "GRIDMATCH_INSERT_RETRIES" half s.insertAttempts
  let insertPause ← ofVariable env "GRIDMATCH_INSERT_RETRY_DELAY_MS" word s.insertPause
  let matchAttempts ← ofVariable env "GRIDMATCH_MATCH_ATTEMPTS" half s.matchAttempts
  let candidateLimit ← ofVariable env "GRIDMATCH_CANDIDATE_LIMIT" word s.candidateLimit
  let batchSize ← ofVariable env "GRIDMATCH_JOB_BATCH_SIZE" word s.batchSize
  let privateTypes ← ofVariable env "GRIDMATCH_PRIVATE_PILOT_TYPES"
    (fun value => .ok (.ofList (items value))) s.privateTypes
  let seed ← ofVariable env "GRIDMATCH_RNG_SEED" (fun value => (word value).map some) s.seed
  let minShare ← ofVariable env "GRIDMATCH_MIN_QUEUE_SHARE" readNumber s.minShare
  let backgroundThreshold ← ofVariable env "GRIDMATCH_BACKGROUND_THRESHOLD" readNumber
    s.backgroundThreshold
  let sweepInterval ← ofVariable env "GRIDMATCH_SHARE_SWEEP_SECS" word s.sweepInterval
  let found : Settings Float := {
    segments, priorityMin, priorityMax, initialPriority, insertAttempts, insertPause,
    matchAttempts, candidateLimit, batchSize, privateTypes, seed, minShare, backgroundThreshold,
    sweepInterval }
  let _ ← found.checked
  .ok found

end Matchmaker.Settings
