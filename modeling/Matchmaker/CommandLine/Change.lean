import Matchmaker.Decimal.Literal

/-!
Changes of priorities as they are written on a command line: a job, the last equals sign, and a
number.
-/
namespace Matchmaker

def splitAtLast (c : Char) : List Char → Option (List Char × List Char)
  | [] => none
  | x :: xs =>
    match splitAtLast c xs with
    | some (before, after) => some (x :: before, after)
    | none => if x = c then some ([], xs) else none

structure PriorityChange where
  job : String
  priority : Int
  deriving DecidableEq, Repr

inductive ChangeError where
  | noSeparator
  | noJob
  | priority (cause : Decimal.WholeError)
  deriving DecidableEq, Repr

def ChangeError.message (text : String) : ChangeError → String
  | .noSeparator => "expected JOB_ID=PRIORITY, got '" ++ text ++ "'"
  | .noJob => "missing job id in '" ++ text ++ "'"
  | .priority cause => "invalid priority in '" ++ text ++ "': " ++ cause.message

namespace PriorityChange

def read (text : String) : Except ChangeError PriorityChange :=
  match splitAtLast '=' text.toList with
  | none => .error .noSeparator
  | some ([], _) => .error .noJob
  | some (job, priority) =>
    match Decimal.readInt (String.ofList priority) with
    | .error cause => .error (.priority cause)
    | .ok n => .ok ⟨String.ofList job, n⟩

end PriorityChange

end Matchmaker
