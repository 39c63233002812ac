import Matchmaker.Usage.Correction

/-!
Usage held for correction, one record for each grouping. A record is refreshed at most once in a
period, and as a whole: if one window cannot be fetched, nothing is held of any.
-/
namespace Matchmaker

structure UsageRecord (α : Type) where
  held : HeldUsage α := []
  /-- The time of the last attempt, in seconds. -/
  attempted : Option Nat := none

def UsageRecord.isDue {α : Type} (r : UsageRecord α) (period now : Nat) : Bool :=
  match r.attempted with
  | none => true
  | some last => period ≤ now - last

/-- What a refresh ends with: the usage of every window, or nothing of any. -/
def UsageRecord.ofAttempt {α : Type} (windows : Nat) (fetched : Option (List (Usage α)))
    (now : Nat) : UsageRecord α :=
  ⟨match fetched with
    | some usage => usage.map some
    | none => List.replicate windows none, some now⟩

/-- The record of the groups, and those of the identities in each group that was asked for. -/
structure UsageLedger (α : Type) where
  groups : UsageRecord α := {}
  identities : Std.ExtTreeMap String (UsageRecord α) := ∅

namespace UsageLedger

variable {α : Type}

def record (l : UsageLedger α) : Grouping → UsageRecord α
  | .groups => l.groups
  | .identitiesIn group => l.identities.getD group {}

def setRecord (l : UsageLedger α) (r : UsageRecord α) : Grouping → UsageLedger α
  | .groups => { l with groups := r }
  | .identitiesIn group => { l with identities := l.identities.insert group r }

/-- The ledger with a record for a grouping, an empty one if there was none. -/
def register (l : UsageLedger α) (g : Grouping) : UsageLedger α := l.setRecord (l.record g) g

def groupings (l : UsageLedger α) : List Grouping := .groups :: l.identities.keys.map .identitiesIn

end UsageLedger

end Matchmaker
