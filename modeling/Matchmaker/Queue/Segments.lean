import Matchmaker.Error

/-!
CPU time segments. A requested CPU time stands for the first boundary that is not below it, so that
jobs with similar requests share a queue.
-/
namespace Matchmaker

def ascendingPairs : List Nat → Bool
  | first :: second :: rest => decide (first < second) && ascendingPairs (second :: rest)
  | _ => true

theorem pairwise_of_ascendingPairs {xs : List Nat} (h : ascendingPairs xs = true) :
    xs.Pairwise (· < ·) := by
  induction xs with
  | nil => exact .nil
  | cons first tail ih =>
    cases tail with
    | nil => simp
    | cons second rest =>
      simp only [ascendingPairs, Bool.and_eq_true, decide_eq_true_eq] at h
      have rest_ordered := ih h.2
      refine .cons (fun x hx => ?_) rest_ordered
      rcases List.mem_cons.1 hx with rfl | hx
      · exact h.1
      · exact Nat.lt_trans h.1 ((List.pairwise_cons.1 rest_ordered).1 x hx)

structure Segments where
  boundaries : List Nat
  nonempty : boundaries ≠ []
  ascending : boundaries.Pairwise (· < ·)
  deriving DecidableEq, Repr

namespace Segments

def listText (xs : List Nat) : String :=
  "[" ++ ", ".intercalate (xs.map Decimal.natText) ++ "]"

def ofList (boundaries : List Nat) : Except ValidationError Segments :=
  if nonempty : boundaries = [] then
    .error (.invalidValue "cpuSegments" "at least one boundary is required")
  else if ascending : ascendingPairs boundaries then
    .ok ⟨boundaries, nonempty, pairwise_of_ascendingPairs ascending⟩
  else
    .error (.invalidValue "cpuSegments"
      ("boundaries must be strictly ascending: " ++ listText boundaries))

def standard : Segments := ⟨[500, 5000, 50000, 300000], by decide, by decide⟩

/-- The first boundary not below the time; a time above all of them takes the last one. -/
def bucket (s : Segments) (time : Nat) : Nat :=
  (s.boundaries.find? fun boundary => time ≤ boundary).getD (s.boundaries.getLast s.nonempty)

end Segments

end Matchmaker
