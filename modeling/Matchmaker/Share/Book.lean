import Matchmaker.Share.Table

/-!
The settings in force: those that were read last, by group.
-/
namespace Matchmaker

abbrev ShareBook (α : Type) := Std.ExtTreeMap String (GroupShare α)

def ShareBook.agrees {α : Type} [BEq α] (x y : ShareBook α) : Bool :=
  x.size == y.size
    && (x.toList.zip y.toList).all fun (a, b) => a.1 == b.1 && a.2.agrees b.2

end Matchmaker
