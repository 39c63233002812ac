import Matchmaker.Broker.Recalculation

/-!
The periodic sweep: usage and share settings are read again, and if either brought something new,
all groups are recalculated.
-/
namespace Matchmaker.Broker

open Operation

variable {α : Type} [Scalar α] (b : Broker α)

def fetchWindows (grouping : Grouping) :
    List (UsageWindow α) → Operation α (Option (List (Usage α)))
  | [] => pure (some [])
  | w :: rest => do
    match ← ask (.usage w.span grouping) with
    | .error _ => pure none
    | .ok usage => pure ((← fetchWindows grouping rest).map (usage :: ·))

/-- Refreshes the usage of a grouping if that is due. The answer says whether there is new usage. -/
def refreshGrouping (settings : HistorySettings α) (grouping : Grouping) : Operation α Bool := do
  let due : Bool ← ask (.isDue grouping settings.period)
  if due then
    let windows := settings.normalizedWindows
    let fetched ← fetchWindows grouping windows
    ask (.hold grouping windows.length fetched)
    pure fetched.isSome
  else pure false

def refreshGroupings (settings : HistorySettings α) : List Grouping → Operation α Bool
  | [] => pure false
  | g :: rest => do
    let first ← refreshGrouping settings g
    let others ← refreshGroupings settings rest
    pure (first || others)

def refreshUsage (settings : HistorySettings α) : Operation α Bool := do
  if settings.enabled then
    let first ← refreshGrouping settings .groups
    let others ← ask .groupings
    let rest ← refreshGroupings settings (others.filter (· ≠ .groups))
    pure (first || rest)
  else pure false

def refreshHistory : Operation α (Option Bool) :=
  match b.history with
  | none => pure none
  | some settings => do pure (some (← refreshUsage settings))

def fetchSettings : List String → Operation α (ShareBook α)
  | [] => pure ∅
  | group :: rest => do
    let settings ← ofCollaborator (← ask (.groupSettings group))
    let others ← fetchSettings rest
    pure (others.insert group settings)

/-- Reads the settings of all listed groups and those with queues into the book. The answer says
whether the book changed. -/
def refreshShares : Operation α Bool := do
  let inUse ← store .groups
  let _ ← ofCollaborator (← ask .reloadShares)
  let listed ← ofCollaborator (← ask .listedGroups)
  let settings ← fetchSettings (listed.insertMany inUse.toList).toList
  ask (.book settings)

/-- One sweep. The answer says whether priorities were recalculated. -/
def sweep : Operation α Bool := do
  let usageChanged ← b.refreshHistory
  let sharesChanged ← refreshShares
  if usageChanged.getD false || sharesChanged then
    let _ ← b.recalculateAll
    pure true
  else pure false

end Matchmaker.Broker
