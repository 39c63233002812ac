import Std.Data.ExtTreeMap
import Matchmaker.Decimal.Layout
import Matchmaker.Error
import Matchmaker.Queue.Attribute
import Matchmaker.Scalar

/-!
The share settings of groups: a table with a default, loaded from a file or kept in memory, and the
settings that it gives to a group.
-/
namespace Matchmaker

structure GroupShare (α : Type) where
  share : α
  /-- Whether the members of the group share as one. -/
  pooled : Bool
  /-- Whether queues of low priority are left out of the split. -/
  allowsBackground : Bool
  deriving Repr

def GroupShare.agrees {α : Type} [BEq α] (x y : GroupShare α) : Bool :=
  x.share == y.share && x.pooled == y.pooled && x.allowsBackground == y.allowsBackground

structure ShareEntry (α : Type) where
  /-- The default of the table when absent. -/
  share : Option α := none
  pooled : Bool := false
  allowsBackground : Bool := false
  deriving Repr

structure ShareTable (α : Type) where
  defaultShare : α
  groups : Std.ExtTreeMap String (ShareEntry α) := ∅

namespace ShareTable

variable {α : Type} [Scalar α]

/-- The settings of a group; one that is not listed has the default share. -/
def settings (t : ShareTable α) (group : String) : GroupShare α :=
  match t.groups[group]? with
  | none => ⟨t.defaultShare, false, false⟩
  | some entry => ⟨entry.share.getD t.defaultShare, entry.pooled, entry.allowsBackground⟩

def listed (t : ShareTable α) : TextSet := .ofList t.groups.keys

def set (t : ShareTable α) (group : String) (entry : ShareEntry α) : ShareTable α :=
  { t with groups := t.groups.insert group entry }

/-- The shares that a table gives, the default first, then those of the groups that have one. -/
def givenShares (t : ShareTable α) : List (String × α) :=
  ("default", t.defaultShare)
    :: t.groups.toList.filterMap fun (name, entry) => entry.share.map (name, ·)

def isShare (x : α) : Bool := Scalar.isFinite x && !decide (x < Scalar.zero)

def fault? (t : ShareTable α) : Option (String × α) :=
  t.givenShares.find? fun (_, share) => !isShare share

end ShareTable

def ShareTable.checked (t : ShareTable Float) : Except CollaboratorError (ShareTable Float) :=
  match t.fault? with
  | none => .ok t
  | some (name, share) =>
    .error (.configUnavailable ("share of '" ++ name ++ "' must be a non-negative number, got "
      ++ Decimal.plainText share))

/-- Where settings come from: the table in use, and what its file holds at present, if it has one. -/
structure ShareSource (α : Type) where
  table : ShareTable α
  file : Option (Except CollaboratorError (ShareTable α)) := none

namespace ShareSource

variable {α : Type}

/-- Takes the table of the file; one that cannot be used leaves the table in use as it is. The
answer says whether there is a file. -/
def reload (s : ShareSource α) : Except CollaboratorError Bool × ShareSource α :=
  match s.file with
  | none => (.ok false, s)
  | some (.ok table) => (.ok true, { s with table := table })
  | some (.error e) => (.error e, s)

end ShareSource

end Matchmaker
