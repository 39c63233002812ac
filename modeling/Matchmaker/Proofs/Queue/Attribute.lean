import Matchmaker.Queue.Attribute

/-!
Sets of texts, and tables with one entry for each attribute.
-/
namespace Matchmaker

/-! ### Sets -/

namespace TextSet

@[simp] theorem mem_ofList {text : String} {texts : List String} :
    text ∈ TextSet.ofList texts ↔ text ∈ texts := by
  simp [TextSet.ofList, Std.ExtTreeSet.mem_ofList]

theorem exists_mem {texts : TextSet} (filled : texts ≠ ∅) : ∃ text, text ∈ texts :=
  Classical.not_forall_not.1 (mt Std.ExtTreeSet.eq_empty_iff_forall_not_mem.2 filled)

theorem ofList_eq_iff {texts texts' : List String} :
    TextSet.ofList texts = TextSet.ofList texts' ↔ ∀ text, text ∈ texts ↔ text ∈ texts' := by
  rw [Std.ExtTreeSet.ext_mem_iff]
  simp only [mem_ofList]

@[simp] theorem ofList_toList (texts : TextSet) : TextSet.ofList texts.toList = texts := by
  apply Std.ExtTreeSet.ext_mem
  simp [Std.ExtTreeSet.mem_toList]

end TextSet

/-! ### Tables -/

namespace Attribute.Table

variable {β : Type}

theorem get_set (t : Table β) (a b : Attribute) (entry : β) :
    (t.set a entry).get b = if b = a then entry else t.get b := by
  rw [set, get_ofFn]

end Attribute.Table

end Matchmaker
