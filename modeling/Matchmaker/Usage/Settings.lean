import Matchmaker.Error
import Matchmaker.Scalar

/-!
Settings of the correction by usage: the windows of time that are looked at, how they weigh, and how
far they may move a share.
-/
namespace Matchmaker

structure UsageWindow (α : Type) where
  /-- Length in seconds. -/
  span : Nat
  weight : α
  maxCorrection : α
  deriving Repr

structure HistorySettings (α : Type) where
  enabled : Bool
  /-- The least number of seconds between two refreshes. -/
  period : Nat
  maxCorrection : α
  windows : List (UsageWindow α)
  deriving Repr

inductive HistoryFault where
  | globalBound
  | emptySpan
  | weight (span : Nat)
  | bound (span : Nat)
  deriving DecidableEq, Repr

def HistoryFault.message : HistoryFault → String
  | globalBound => "global_max_correction must be at least 1.0"
  | emptySpan => "history window time span must be greater than 0"
  | weight span => "weight of the " ++ Decimal.natText span ++ "s window must be greater than 0"
  | bound span =>
    "max_correction of the " ++ Decimal.natText span ++ "s window must be at least 1.0"

namespace HistorySettings

variable {α : Type} [Scalar α]

/-- Finite and at least one. -/
def isBound (x : α) : Bool := Scalar.isFinite x && decide (Scalar.one ≤ x)

def windowFault? (w : UsageWindow α) : Option HistoryFault :=
  if w.span = 0 then some .emptySpan
  else if !Scalar.isWeight w.weight then some (.weight w.span)
  else if !isBound w.maxCorrection then some (.bound w.span)
  else none

def fault? (s : HistorySettings α) : Option HistoryFault :=
  if !isBound s.maxCorrection then some .globalBound else s.windows.findSome? windowFault?

/-- The windows with weights that add up to one; none if there is no weight. -/
def normalizedWindows (s : HistorySettings α) : List (UsageWindow α) :=
  let total := Scalar.total (s.windows.map UsageWindow.weight)
  if total ≤ Scalar.zero then []
  else s.windows.map fun w => { w with weight := w.weight / total }

/-- One window of a day, with a bound of three. -/
def standard : HistorySettings α where
  enabled := true
  period := 600
  maxCorrection := Scalar.ofInt 3
  windows := [⟨86400, Scalar.one, Scalar.ofInt 3⟩]

end HistorySettings

def HistorySettings.checked {α : Type} [Scalar α] (s : HistorySettings α) :
    Except SettingsError (HistorySettings α) :=
  match s.fault? with
  | none => .ok s
  | some fault => .error (.validationFailed fault.message)

end Matchmaker
