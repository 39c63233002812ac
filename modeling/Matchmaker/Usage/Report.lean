import Std.Data.ExtTreeMap
import Matchmaker.Error
import Matchmaker.Queue.Attribute
import Matchmaker.Scalar

/-!
Reports of usage: how many jobs each entity ran on average during a window of time.
-/
namespace Matchmaker

inductive Grouping where
  | groups
  | identitiesIn (group : String)
  deriving DecidableEq, Repr

def Grouping.key : Grouping → String
  | groups => "group"
  | identitiesIn group => "identity@" ++ group

abbrev Usage (α : Type) := Std.ExtTreeMap String α

structure WindowUsage (α : Type) where
  groups : Usage α := ∅
  identities : Std.ExtTreeMap String (Usage α) := ∅

abbrev UsageExport (α : Type) := Std.ExtTreeMap Nat (WindowUsage α)

variable {α : Type}

def WindowUsage.of (w : WindowUsage α) : Grouping → Usage α
  | .groups => w.groups
  | .identitiesIn group => w.identities.getD group ∅

namespace UsageExport

variable [Scalar α]

def isSample (x : α) : Bool := Scalar.isFinite x && !decide (x < Scalar.zero)

def samples (w : WindowUsage α) : List (String × α) :=
  w.groups.toList ++ w.identities.values.flatMap (·.toList)

def fault? (e : UsageExport α) : Option (Nat × String) :=
  e.toList.findSome? fun (span, w) =>
    (samples w).findSome? fun (entity, x) => if isSample x then none else some (span, entity)

def checked (e : UsageExport α) : Except CollaboratorError (UsageExport α) :=
  match fault? e with
  | none => .ok e
  | some (span, entity) =>
    .error (.reportFailed span ("usage of '" ++ entity ++ "' must be a non-negative number"))

end UsageExport

/-- Where reports come from: a board that others write to, or an export file. -/
inductive UsageSource (α : Type) where
  | board (posted : List ((Nat × Grouping) × Usage α)) (failing : List Nat) (requests : Nat)
  /-- The name of the file, and what it holds at present. -/
  | file (name : String) (content : Except CollaboratorError (UsageExport α))

namespace UsageSource

def empty : UsageSource α := board [] [] 0

/-- The usage of entities during the last `span` seconds. A window that an export does not have is
an error; a group that it does not list ran nothing. -/
def report (s : UsageSource α) (span : Nat) (grouping : Grouping) :
    Except CollaboratorError (Usage α) × UsageSource α :=
  match s with
  | board posted failing requests =>
    let answer : Except CollaboratorError (Usage α) :=
      if failing.contains span then .error (.reportFailed span "accounting backend unavailable")
      else .ok ((posted.lookup (span, grouping)).getD ∅)
    (answer, board posted failing (requests + 1))
  | file name content =>
    let answer : Except CollaboratorError (Usage α) :=
      match content with
      | .error e => .error e
      | .ok windows =>
        match windows[span]? with
        | none => .error (.reportFailed span (name ++ " has no samples for this window"))
        | some w => .ok (w.of grouping)
    (answer, s)

def post (s : UsageSource α) (span : Nat) (grouping : Grouping) (usage : Usage α) :
    UsageSource α :=
  match s with
  | board posted failing requests => board (((span, grouping), usage) :: posted) failing requests
  | file name content => file name content

def setFailing (s : UsageSource α) (span : Nat) (fails : Bool) : UsageSource α :=
  match s with
  | board posted failing requests =>
    board posted (if fails then span :: failing else failing.filter (· ≠ span)) requests
  | file name content => file name content

def requests : UsageSource α → Nat
  | board _ _ n => n
  | file _ _ => 0

end UsageSource

end Matchmaker
