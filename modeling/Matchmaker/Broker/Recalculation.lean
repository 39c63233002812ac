import Matchmaker.Broker.Operation
import Matchmaker.Settings.Policy
import Matchmaker.Share.Split

/-!
Recalculating the priorities of the queues of a group. A pooled group has one share for all its
queues; in any other group each identity gets the same part. Usage corrects the shares of competing
groups, and of the identities inside a group.
-/
namespace Matchmaker

/-- A broker: what it goes by, and how usage corrects shares, if it does. -/
structure Broker (α : Type) where
  policy : Policy α
  history : Option (HistorySettings α)

namespace Broker

open Operation

variable {α : Type} [Scalar α] (b : Broker α)

/-- The settings of a group: those in the book, else from their source. -/
def groupSettings (group : String) : Operation α (GroupShare α) := do
  match ← ask (.booked group) with
  | some settings => pure settings
  | none => ofCollaborator (← ask (.groupSettings group))

def correct (settings : HistorySettings α) (grouping : Grouping) (expected : Shares α) :
    Operation α (Shares α) := do
  let held ← ask (.held grouping)
  orAbort (Correction.corrected? settings held expected)

def correction? : Option (HistorySettings α) := b.history.filter HistorySettings.enabled

/-- The shares of the other groups that have queues, added to those expected so far. -/
def competingShares (group : String) :
    Shares α → List String → Operation α (Shares α)
  | shares, [] => pure shares
  | shares, other :: rest =>
    if other = group then competingShares group shares rest
    else do
      let settings ← groupSettings other
      competingShares group (shares.insert other settings.share) rest

/-- The share of a group, corrected against those of all other groups with queues. -/
def groupShare (group : String) (configured : α) : Operation α α := do
  match b.correction? with
  | none => pure configured
  | some settings =>
    let others ← store .groups
    let expected ← competingShares group ∅ others.toList
    let corrected ← correct settings .groups (expected.insert group configured)
    pure (corrected.getD group configured)

/-- The equal parts of the owners, corrected against each other. -/
def ownerShares (group : String) (share : α) (owners : TextSet) :
    Operation α (List (Option String × α)) := do
  let part := share / Scalar.ofInt owners.size
  let expected : Shares α := Std.ExtTreeMap.ofList (owners.toList.map (·, part))
  let corrected ← match b.correction? with
    | none => pure expected
    | some settings => correct settings (.identitiesIn group) expected
  pure (corrected.toList.map fun (owner, share) => (some owner, share))

def splitShares (group : String) (threshold : Option α) :
    List (Option String × α) → Operation α (List (Int × α))
  | [] => pure []
  | (identity, share) :: rest => do
    let loads ← store (.loads group identity)
    let others ← splitShares group threshold rest
    pure (splitShare loads share threshold b.policy.minShare ++ others)

/-- Recalculates the priorities of the queues of a group. The answer is their number. -/
def recalculate (group : String) : Operation α Nat := do
  let settings ← groupSettings group
  let share ← b.groupShare group settings.share
  let threshold := if settings.allowsBackground then some b.policy.backgroundThreshold else none
  if settings.pooled then finish threshold [(none, share)]
  else do
    let owners ← store (.ownersIn group)
    if owners.isEmpty then pure 0
    else finish threshold (← b.ownerShares group share owners)
where
  finish (threshold : Option α) (entities : List (Option String × α)) : Operation α Nat := do
    let priorities ← b.splitShares group threshold entities
    store (.setPriorities priorities)
    record .recalculation
    pure priorities.length

def recalculateGroups : List String → Operation α Unit
  | [] => pure ()
  | group :: rest => do
    let _ ← b.recalculate group
    recalculateGroups rest

def recalculateAll : Operation α Nat := do
  let groups ← store .groups
  b.recalculateGroups groups.toList
  pure groups.size

end Broker

end Matchmaker
