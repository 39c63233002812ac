import Matchmaker.Proofs.Tables
import Matchmaker.Share.Book

/-!
When books of settings agree: they have the same groups, with settings that agree.
-/
namespace Matchmaker.ShareBook

variable {α : Type} [BEq α] {x y : ShareBook α}

theorem keys_of_agrees (h : x.agrees y = true) : x.keys = y.keys := by
  simp only [agrees, Bool.and_eq_true, beq_iff_eq, List.all_eq_true] at h
  have sizes : x.toList.length = y.toList.length := by
    simpa only [Std.ExtTreeMap.length_toList] using h.1
  calc x.keys = ((x.toList.zip y.toList).map Prod.fst).map Prod.fst := by
        rw [List.map_fst_zip (Nat.le_of_eq sizes), Std.ExtTreeMap.map_fst_toList_eq_keys]
    _ = ((x.toList.zip y.toList).map Prod.snd).map Prod.fst := by
        rw [List.map_map, List.map_map]
        exact List.map_congr_left fun entry mem => (h.2 entry mem).1
    _ = y.keys := by
        rw [List.map_snd_zip (Nat.le_of_eq sizes.symm), Std.ExtTreeMap.map_fst_toList_eq_keys]

theorem mem_of_agrees (h : x.agrees y = true) (group : String) : group ∈ x ↔ group ∈ y := by
  rw [← Std.ExtTreeMap.mem_keys, keys_of_agrees h, Std.ExtTreeMap.mem_keys]

omit [BEq α] in
theorem keys_congr (h : ∀ group, group ∈ x ↔ group ∈ y) : x.keys = y.keys := by
  have marked : (x.map fun _ _ => ()) = y.map fun _ _ => () := by
    refine Std.ExtTreeMap.ext_getElem? fun group => ?_
    rw [Std.ExtTreeMap.getElem?_map, Std.ExtTreeMap.getElem?_map]
    by_cases mem : group ∈ x
    · rw [Std.ExtTreeMap.getElem?_eq_some_getElem mem,
        Std.ExtTreeMap.getElem?_eq_some_getElem ((h group).1 mem), Option.map_some, Option.map_some]
    · rw [Std.ExtTreeMap.getElem?_eq_none mem, Std.ExtTreeMap.getElem?_eq_none (mt (h group).2 mem)]
  rw [← Std.ExtTreeMap.keys_map (t := x) (f := fun _ _ => ()), marked, Std.ExtTreeMap.keys_map]

omit [BEq α] in
theorem mem_zip (keys : x.keys = y.keys) {a b : String × GroupShare α} :
    (a, b) ∈ x.toList.zip y.toList ↔ a.1 = b.1 ∧ x[a.1]? = some a.2 ∧ y[b.1]? = some b.2 := by
  have aligned (i : Nat) : (x.toList[i]?).map Prod.fst = (y.toList[i]?).map Prod.fst := by
    rw [← List.getElem?_map, ← List.getElem?_map, Std.ExtTreeMap.map_fst_toList_eq_keys,
      Std.ExtTreeMap.map_fst_toList_eq_keys, keys]
  simp only [← Std.ExtTreeMap.mem_toList_iff_getElem?_eq_some]
  constructor
  · intro mem
    obtain ⟨i, paired⟩ := List.mem_iff_getElem?.1 mem
    obtain ⟨first, second⟩ := List.getElem?_zip_eq_some.1 paired
    have same := aligned i
    rw [first, second] at same
    exact ⟨Option.some.inj same, List.mem_of_getElem? first, List.mem_of_getElem? second⟩
  · rintro ⟨same, first, second⟩
    obtain ⟨i, here⟩ := List.mem_iff_getElem?.1 first
    have there := aligned i
    rw [here, Option.map_some] at there
    obtain ⟨b', found, key⟩ := Option.map_eq_some_iff.1 there.symm
    have listed := List.mem_of_getElem? found
    rw [Std.ExtTreeMap.mem_toList_iff_getElem?_eq_some] at second listed
    rw [key, same, second] at listed
    obtain rfl : b' = b := Prod.ext (key.trans same) (Option.some.inj listed).symm
    exact List.mem_iff_getElem?.2 ⟨i, List.getElem?_zip_eq_some.2 ⟨here, found⟩⟩

def Same (x y : ShareBook α) : Prop :=
  ∀ group : String, Option.Rel (fun a b => a.agrees b = true) x[group]? y[group]?

theorem Same.mem (h : x.Same y) (group : String) : group ∈ x ↔ group ∈ y := by
  rw [Std.ExtTreeMap.mem_iff_isSome_getElem?, Std.ExtTreeMap.mem_iff_isSome_getElem?]
  have here := h group
  generalize x[group]? = a, y[group]? = b at here
  cases here <;> rfl

theorem agrees_iff_same : x.agrees y = true ↔ x.Same y := by
  constructor
  · intro h group
    have both := mem_of_agrees h group
    rw [Std.ExtTreeMap.mem_iff_isSome_getElem?, Std.ExtTreeMap.mem_iff_isSome_getElem?] at both
    cases first : x[group]? with
    | none =>
      cases second : y[group]? with
      | none => exact .none
      | some b => simp [first, second] at both
    | some a =>
      cases second : y[group]? with
      | none => simp [first, second] at both
      | some b =>
        have paired := (mem_zip (keys_of_agrees h) (a := (group, a)) (b := (group, b))).2
          ⟨rfl, first, second⟩
        simp only [agrees, Bool.and_eq_true, List.all_eq_true] at h
        exact .some (h.2 _ paired).2
  · intro h
    have keys := keys_congr h.mem
    have sizes : x.size = y.size := by
      rw [← Std.ExtTreeMap.length_keys, keys, Std.ExtTreeMap.length_keys]
    simp only [agrees, Bool.and_eq_true, beq_iff_eq, List.all_eq_true]
    refine ⟨sizes, fun (a, b) mem => ?_⟩
    obtain ⟨same, first, second⟩ := (mem_zip keys).1 mem
    have here := h b.1
    rw [same] at first
    rw [first, second] at here
    cases here with
    | some agreed => exact ⟨same, agreed⟩

end Matchmaker.ShareBook
