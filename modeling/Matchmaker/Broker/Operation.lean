import Matchmaker.Metrics
import Matchmaker.Random.Draw
import Matchmaker.Share.Book
import Matchmaker.Store.Call
import Matchmaker.Usage.Ledger

/-!
Operations of the broker as scripts. A question is one atomic step: a call to the store, to the
source of share settings or to the source of usage, a step on the book of settings or the usage
ledger, a random word, or an event to count. Between two questions others may have their turn.
-/
namespace Matchmaker

inductive Request (α : Type) where
  | store (call : StoreCall α)
  /-- Reads the source of share settings again. -/
  | reloadShares
  | listedGroups
  | groupSettings (group : String)
  /-- The usage during the last `span` seconds. -/
  | usage (span : Nat) (grouping : Grouping)
  /-- The settings in the book. -/
  | booked (group : String)
  | bookedGroups
  /-- Replaces the book; the answer says whether it differs. -/
  | book (settings : ShareBook α)
  /-- The usage held for a grouping, which from now on is refreshed. -/
  | held (grouping : Grouping)
  | groupings
  /-- Whether the usage of a grouping may be fetched again. -/
  | isDue (grouping : Grouping) (period : Nat)
  /-- Ends an attempt to fetch the usage of a number of windows. -/
  | hold (grouping : Grouping) (windows : Nat) (fetched : Option (List (Usage α)))
  | word (request : Random.WordRequest)
  | record (event : Event)

namespace Request

variable {α : Type}

def Answer : Request α → Type
  | store call => Except StoreError call.Answer
  | reloadShares => Except CollaboratorError Bool
  | listedGroups => Except CollaboratorError TextSet
  | groupSettings _ => Except CollaboratorError (GroupShare α)
  | usage _ _ => Except CollaboratorError (Usage α)
  | booked _ => Option (GroupShare α)
  | bookedGroups => List String
  | book _ => Bool
  | held _ => HeldUsage α
  | groupings => List Grouping
  | isDue _ _ => Bool
  | hold _ _ _ => Unit
  | word request => request.Answer
  | record _ => Unit

end Request

abbrev Course (α : Type) := Script (Request α) Request.Answer

/-- A script that may fail. -/
abbrev Operation (α : Type) := ExceptT BrokerError (Course α)

namespace Operation

variable {α β : Type}

def ask (q : Request α) : Operation α q.Answer := ExceptT.lift (Script.question q)

def tryStore (call : StoreCall α) : Operation α (Except StoreError call.Answer) := ask (.store call)

def store (call : StoreCall α) : Operation α call.Answer := do
  match ← tryStore call with
  | .ok answer => pure answer
  | .error e => throw (.store e)

def ofCollaborator : Except CollaboratorError β → Operation α β
  | .ok answer => pure answer
  | .error e => throw (.collaborator e)

def ofValidation : Except ValidationError β → Operation α β
  | .ok answer => pure answer
  | .error e => throw (.validation e)

def record (event : Event) : Operation α Unit := ask (.record event)

def choose (d : Random.Draw β) : Operation α β :=
  ExceptT.lift (d.lift fun q => Script.question (Request.word q))

/-- The value; the operation cannot go on without one. -/
def orAbort (value : Option β) : Operation α β := ExceptT.lift (Script.orAbort value)

/-- Does something whose failure does not matter. -/
def attempt (x : Operation α β) : Operation α Unit := do
  let _ ← ExceptT.lift x.run
  pure ()

end Operation

end Matchmaker
