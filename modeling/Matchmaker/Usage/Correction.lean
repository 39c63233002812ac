import Matchmaker.Usage.Report
import Matchmaker.Usage.Settings

/-!
Correcting expected shares by past usage. Who ran less than its share gets more and who ran more
gets less, by the weighted mean of one factor for each window, within the bounds.
-/
namespace Matchmaker

abbrev Shares (α : Type) := Std.ExtTreeMap String α

/-- What is held of each window, in the order of the windows; none where nothing was fetched. -/
abbrev HeldUsage (α : Type) := List (Option (Usage α))

variable {α : Type} [Scalar α]

def HeldUsage.any (held : HeldUsage α) : Bool :=
  List.any held fun usage => usage.any fun samples => !samples.isEmpty

namespace Correction

def counted? (usage : Usage α) (entity : String) : Option α := usage[entity]?.filter Scalar.isWeight

/-- A window that says something about the entities: its usage, and the total over them. -/
structure Evidence (α : Type) where
  window : UsageWindow α
  usage : Usage α
  total : α

def evidence (entities : List String) (windows : List (UsageWindow α)) (held : HeldUsage α) :
    List (Evidence α) :=
  (windows.zip held).filterMap fun (window, usage) => usage.bind fun usage =>
    let total := Scalar.total (entities.filterMap (counted? usage))
    if total ≤ Scalar.zero then none else some ⟨window, usage, total⟩

/-- The factor of one window: the part of the shares over the part of the usage, within the bound
of the window. Who ran nothing gets the bound. -/
def windowFactor (e : Evidence α) (totalShare share : α) (entity : String) : Option α :=
  match counted? e.usage entity with
  | none => some e.window.maxCorrection
  | some usage =>
    Scalar.clamp? (share / totalShare / (usage / e.total))
      (Scalar.one / e.window.maxCorrection) e.window.maxCorrection

def factorSum (totalShare share : α) (entity : String) : α → List (Evidence α) → Option α
  | sum, [] => some sum
  | sum, e :: rest => do
    let factor ← windowFactor e totalShare share entity
    factorSum totalShare share entity (sum + factor * e.window.weight) rest

def corrected (settings : HistorySettings α) (found : List (Evidence α)) (totalShare : α)
    (entity : String) (share : α) : Option α := do
  let sum ← factorSum totalShare share entity Scalar.zero found
  let factor ← Scalar.clamp? sum (Scalar.one / settings.maxCorrection) settings.maxCorrection
  some (share * factor)

/-- The corrected shares. They are as expected if no window says anything about them. Undefined
where bounds are out of order. -/
def corrected? (settings : HistorySettings α) (held : HeldUsage α) (expected : Shares α) :
    Option (Shares α) :=
  let totalShare := Scalar.total expected.values
  let found := evidence expected.keys settings.normalizedWindows held
  if totalShare ≤ Scalar.zero || found.isEmpty then some expected
  else
    (expected.toList.mapM fun (entity, share) =>
      (corrected settings found totalShare entity share).map (entity, ·)).map
        fun entries => Std.ExtTreeMap.ofList entries

end Correction

end Matchmaker
