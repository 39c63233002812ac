import Matchmaker.Queue.Load

/-!
Splitting a share over queues, in proportion to the priorities of their jobs.
-/
namespace Matchmaker

variable {α : Type} [Scalar α]

/-- Whether a queue runs in the background: its jobs have, on average, a priority not above the
threshold. Without a threshold no queue does. -/
def isBackground (threshold : Option α) (l : Load α) : Bool :=
  threshold.any fun bound => l.mean ≤ bound

def competingTotal (threshold : Option α) (loads : List (Load α)) : α :=
  Scalar.total ((loads.filter fun l => !isBackground threshold l).map Load.sum)

/-- The slice of one queue, which is never below the floor. -/
def slice (share total floor : α) (threshold : Option α) (l : Load α) : α :=
  if isBackground threshold l || decide (total ≤ Scalar.zero) then floor
  else Scalar.larger (share * l.sum / total) floor

def splitShare (loads : List (Load α)) (share : α) (threshold : Option α) (floor : α) :
    List (Int × α) :=
  let total := competingTotal threshold loads
  loads.map fun l => (l.queue, slice share total floor threshold l)

end Matchmaker
