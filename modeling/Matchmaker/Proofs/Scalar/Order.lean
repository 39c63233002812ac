import Matchmaker.Job.Priority

/-!
The order of doubles, by what they unpack to. What is not a number compares with nothing.
-/
namespace Matchmaker.Double

theorem lt_iff (x y : Float) :
    x < y ↔ x.toModel.unpack.compare y.toModel.unpack = some .lt :=
  decide_eq_true_iff.trans beq_iff_eq

theorem le_iff (x y : Float) :
    x ≤ y ↔ ∃ o, x.toModel.unpack.compare y.toModel.unpack = some o ∧ o.isLE = true :=
  (decide_eq_true_iff (p := x.toModel ≤ y.toModel)).trans (Option.any_eq_true _ _)

theorem le_of_lt {x y : Float} (h : x < y) : x ≤ y :=
  (le_iff x y).2 ⟨.lt, (lt_iff x y).1 h, rfl⟩

theorem beq_iff (x y : Float) :
    (x == y) = true ↔ x.toModel.unpack.compare y.toModel.unpack = some .eq :=
  beq_iff_eq (a := x.toModel.unpack.compare y.toModel.unpack)

section Unpacked

open Float.Model

variable {x y : UnpackedFloat}

theorem compare_eq_none : x.compare y = none ↔ x = .notANumber ∨ y = .notANumber := by
  constructor
  · intro alone
    rcases x with ⟨_ | _⟩ | _ | _ | ⟨_ | _, _, _, _⟩ <;>
      rcases y with ⟨_ | _⟩ | _ | _ | ⟨_ | _, _, _, _⟩ <;>
        first | exact .inl rfl | exact .inr rfl | cases alone
  · rintro (rfl | rfl)
    · rfl
    · cases x <;> rfl

theorem compare_places (m m' : Nat) (e e' : Int) :
    (compare e' e).then (compare m' m) = ((compare e e').then (compare m m')).swap := by
  rw [Ordering.swap_then, Int.compare_swap, Nat.compare_swap]

theorem compare_swap : y.compare x = (x.compare y).map Ordering.swap := by
  rcases x with ⟨_ | _⟩ | _ | _ | ⟨_ | _, m, e, _⟩ <;>
    rcases y with ⟨_ | _⟩ | _ | _ | ⟨_ | _, m', e', _⟩ <;> try rfl
  -- the two pairs left have one sign: places decide between those, the other way below zero
  · exact congrArg (fun o => some o.swap) (compare_places m m' e e')
  · exact congrArg some (compare_places m m' e e')

end Unpacked

section Numbers

variable {x y : Float}

theorem number_of_beq (h : (x == x) = true) : x.toModel.unpack ≠ .notANumber := by
  intro same
  rw [beq_iff, compare_eq_none.2 (.inl same)] at h
  cases h

theorem beq_self_of_lt (h : x < y) : (y == y) = true := by
  have number : y.toModel.unpack ≠ .notANumber := by
    intro same
    rw [lt_iff, compare_eq_none.2 (.inr same)] at h
    cases h
  obtain ⟨o, compared⟩ := Option.ne_none_iff_exists'.1
    (mt compare_eq_none.1 (not_or.2 ⟨number, number⟩))
  have symmetric : some o = (some o).map Ordering.swap := compared ▸ compare_swap
  rw [beq_iff, compared]
  cases o <;> first | rfl | cases symmetric

theorem le_of_not_lt (number : (x == x) = true) (number' : (y == y) = true) (h : ¬ x < y) :
    y ≤ x := by
  obtain ⟨o, compared⟩ := Option.ne_none_iff_exists'.1
    (mt compare_eq_none.1 (not_or.2 ⟨number_of_beq number, number_of_beq number'⟩))
  refine (le_iff y x).2 ⟨o.swap, by rw [compare_swap, compared]; rfl, ?_⟩
  cases o with
  | lt => exact absurd ((lt_iff x y).2 compared) h
  | eq => rfl
  | gt => rfl

theorem le_of_beq_self (number : (x == x) = true) : x ≤ x :=
  (le_iff x x).2 ⟨.eq, (beq_iff x x).1 number, rfl⟩

end Numbers

end Matchmaker.Double

namespace Matchmaker.PriorityBounds

theorem exists_effective_of_le {α : Type} [Scalar α] {b : PriorityBounds α} (h : b.min ≤ b.max)
    (submitted : Int) : ∃ effective, b.effective? submitted = some effective := by
  rw [effective?, Scalar.clamp?, if_pos h, Option.map_some]
  exact ⟨_, rfl⟩

theorem exists_effective {b : PriorityBounds Float} (valid : b.isValid = true) (submitted : Int) :
    ∃ effective, b.effective? submitted = some effective := by
  simp only [isValid, Bool.and_eq_true, decide_eq_true_eq] at valid
  exact exists_effective_of_le (Double.le_of_lt valid.2) submitted

end Matchmaker.PriorityBounds
