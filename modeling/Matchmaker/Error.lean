import Matchmaker.Decimal.Literal

/-!
What can go wrong, as causes, and the wording of each.
-/
namespace Matchmaker

inductive ValidationError where
  | missingField (field : String)
  | emptyField (field : String)
  | emptyList (field : String)
  | invalidValue (field : String) (reason : String)
  | privatePilotWithoutOwner (pilot : String)
  | malformed
  deriving DecidableEq, Repr

def ValidationError.message : ValidationError → String
  | .missingField field => "Missing required field '" ++ field ++ "'"
  | .emptyField field => "Field '" ++ field ++ "' must not be empty"
  | .emptyList field => "List field '" ++ field ++ "' must contain at least one value"
  | .invalidValue field reason => "Invalid value for '" ++ field ++ "': " ++ reason
  | .privatePilotWithoutOwner pilot =>
    "Pilot type '" ++ pilot ++ "' is private and requires the requester identity and group"
  | .malformed => "Malformed document"

inductive MigrationError where
  | database (reason : String)
  | failed (version : Nat) (name : String) (reason : String)
  | unknownVersion (version : Int)
  deriving DecidableEq, Repr

def MigrationError.message : MigrationError → String
  | .database reason => "Database error: " ++ reason
  | .failed version name reason =>
    "Migration " ++ Decimal.natText version ++ " (" ++ name ++ ") failed: " ++ reason
  | .unknownVersion version =>
    "Database schema version " ++ Decimal.intText version ++ " is newer than this build"

inductive StoreError where
  | connectionFailed (reason : String)
  | queryFailed (reason : String)
  | migration (cause : MigrationError)
  | duplicateDefinition
  | unknownQueue (id : Int)
  | duplicateJob (job : String)
  | corrupt (reason : String)
  deriving DecidableEq, Repr

def StoreError.message : StoreError → String
  | .connectionFailed reason => "Connection failed: " ++ reason
  | .queryFailed reason => "Query failed: " ++ reason
  | .migration cause => "Migration error: " ++ cause.message
  | .duplicateDefinition => "An equivalent task queue already exists"
  | .unknownQueue id => "Task queue " ++ Decimal.intText id ++ " not found"
  | .duplicateJob job => "Job '" ++ job ++ "' is already queued"
  | .corrupt reason => "Corrupt stored data: " ++ reason

def thousandths (n : Nat) : String :=
  if n = 0 then ""
  else if n % 100 = 0 then "." ++ Decimal.natText (n / 100)
  else if n % 10 = 0 then (if n < 100 then ".0" else ".") ++ Decimal.natText (n / 10)
  else (if n < 10 then ".00" else if n < 100 then ".0" else ".") ++ Decimal.natText n

/-- A duration in milliseconds, as messages show it: in the largest unit that it fills. -/
def durationText (milliseconds : Nat) : String :=
  if milliseconds = 0 then "0ns"
  else if milliseconds < 1000 then Decimal.natText milliseconds ++ "ms"
  else Decimal.natText (milliseconds / 1000) ++ thousandths (milliseconds % 1000) ++ "s"

def spanText (seconds : Nat) : String := durationText (1000 * seconds)

inductive CollaboratorError where
  | configUnavailable (reason : String)
  | reportFailed (span : Nat) (reason : String)
  | unreadable
  | malformed
  deriving DecidableEq, Repr

def CollaboratorError.message : CollaboratorError → String
  | .configUnavailable reason => "Configuration source unavailable: " ++ reason
  | .reportFailed span reason =>
    "Accounting report failed for window of " ++ spanText span ++ ": " ++ reason
  | .unreadable => "File cannot be read"
  | .malformed => "Malformed document"

inductive SettingsError where
  | invalidValue (key : String) (reason : String)
  | validationFailed (reason : String)
  | unreadable
  | malformed
  deriving DecidableEq, Repr

def SettingsError.message : SettingsError → String
  | .invalidValue key reason => "Invalid value for " ++ key ++ ": " ++ reason
  | .validationFailed reason => "Configuration validation failed: " ++ reason
  | .unreadable => "File cannot be read"
  | .malformed => "Malformed document"

inductive BrokerError where
  | validation (cause : ValidationError)
  | store (cause : StoreError)
  | busy (attempts : Nat)
  | collaborator (cause : CollaboratorError)
  deriving DecidableEq, Repr

namespace BrokerError

def message : BrokerError → String
  | validation cause => "Validation failed: " ++ cause.message
  | store cause => "Store failure: " ++ cause.message
  | busy attempts =>
    "Scheduler busy: task queue still contended after " ++ Decimal.natText attempts ++ " attempts"
  | collaborator cause => "Collaborator failure: " ++ cause.message

/-- Whether the same call may succeed later. -/
def retryable : BrokerError → Bool
  | busy _ => true
  | _ => false

end BrokerError

inductive SweeperError where
  | alreadyRunning
  | notRunning
  | shutdownTimeout (milliseconds : Nat)
  deriving DecidableEq, Repr

def SweeperError.message : SweeperError → String
  | .alreadyRunning => "Share sweeper is already running"
  | .notRunning => "Share sweeper is not running"
  | .shutdownTimeout ms => "Share sweeper did not stop within " ++ durationText ms

end Matchmaker
