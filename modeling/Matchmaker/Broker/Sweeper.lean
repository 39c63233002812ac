import Matchmaker.Broker.Sweep

/-!
The sweeper runs a sweep at once and then one in every interval, until it is stopped.
-/
namespace Matchmaker

structure Sweeper where
  /-- In seconds. The timer cannot run without an interval. -/
  interval : Nat
  /-- How long it may take to stop, in milliseconds. -/
  patience : Nat := 30000
  running : Bool := false
  /-- Whether a sweep waits for an answer that does not come. -/
  stuck : Bool := false
  deriving DecidableEq, Repr

namespace Sweeper

/-- Starts the sweeper; `sweep` makes the first sweep and says whether it got stuck. Its failure
only ends that sweep. -/
def start {ω : Type} (s : Sweeper) (sweep : ω → Bool × ω) (w : ω) :
    Except SweeperError Unit × Sweeper × ω :=
  if s.running then (.error .alreadyRunning, s, w)
  else if s.interval = 0 then (.ok (), { s with running := true, stuck := false }, w)
  else
    let (stuck, w) := sweep w
    (.ok (), { s with running := true, stuck := stuck }, w)

/-- Stops the sweeper. It no longer counts as running even if it does not stop in time. -/
def stop (s : Sweeper) : Except SweeperError Unit × Sweeper :=
  if s.running then
    (if s.stuck then .error (.shutdownTimeout s.patience) else .ok (), { s with running := false })
  else (.error .notRunning, s)

end Sweeper

end Matchmaker
