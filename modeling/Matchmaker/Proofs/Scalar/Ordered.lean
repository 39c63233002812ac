import Matchmaker.Proofs.Scalar.Order
import Mathlib.Data.Prod.Lex

/-!
Numbers of which one that is finite can be compared with any two that are in order. Doubles are such
numbers: by sign, exponent and mantissa they stand in one line, and only what is not a number stands
apart.
-/
namespace Matchmaker

class Scalar.Ordered (α : Type) [Scalar α] : Prop where
  asymm {x y : α} : x < y → ¬ y < x
  /-- A number stands above the smaller one of two or below the larger one. -/
  between {x z : α} (y : α) : Scalar.isFinite y = true → x < z → x < y ∨ y < z

namespace Double

open Float.Model

/-- Where a double stands by sign, exponent and mantissa. -/
def place : UnpackedFloat → ℤ ×ₗ ℤ ×ₗ ℤ
  | .infinity .negative => toLex (-2, toLex (0, 0))
  | .finite .negative m e _ => toLex (-1, toLex (-e, -m))
  | .finite .positive m e _ => toLex (1, toLex (e, m))
  | .infinity .positive => toLex (2, toLex (0, 0))
  | _ => toLex (0, toLex (0, 0))

theorem places_eq_lt (e e' : Int) (m m' : Nat) :
    (compare e e').then (compare m m') = .lt ↔ e < e' ∨ e = e' ∧ m < m' := by
  rw [Ordering.then_eq_lt, Int.compare_eq_lt, Int.compare_eq_eq, Nat.compare_eq_lt]

theorem places_eq_gt (e e' : Int) (m m' : Nat) :
    (compare e e').then (compare m m') = .gt ↔ e' < e ∨ e = e' ∧ m' < m := by
  rw [Ordering.then_eq_gt, Int.compare_eq_gt, Int.compare_eq_eq, Nat.compare_eq_gt]

theorem compare_eq_lt_iff {x y : UnpackedFloat} (number : x ≠ .notANumber)
    (number' : y ≠ .notANumber) : x.compare y = some .lt ↔ place x < place y := by
  rcases x with ⟨_ | _⟩ | _ | _ | ⟨_ | _, m, e, _⟩ <;>
    rcases y with ⟨_ | _⟩ | _ | _ | ⟨_ | _, m', e', _⟩ <;>
      first
      | exact absurd rfl number
      | exact absurd rfl number'
      | dsimp only [place, UnpackedFloat.compare]
        simp [Prod.Lex.toLex_lt_toLex]
  -- left are the two infinities and the two pairs of one sign
  · rfl
  · exact places_eq_gt e e' m m'
  · exact places_eq_lt e e' m m'

theorem number_of_isFinite {x : Float} (h : x.isFinite = true) :
    x.toModel.unpack ≠ .notANumber := by
  intro same
  change x.toModel.unpack.isFinite = true at h
  rw [same] at h
  cases h

theorem numbers_of_lt {x y : Float} (h : x < y) :
    x.toModel.unpack ≠ .notANumber ∧ y.toModel.unpack ≠ .notANumber := by
  refine not_or.1 fun neither => ?_
  rw [lt_iff, compare_eq_none.2 neither] at h
  cases h

instance : Scalar.Ordered Float where
  asymm below above := by
    rw [lt_iff] at below above
    rw [compare_swap, below] at above
    cases above
  between {x z} y finite below := by
    have number := number_of_isFinite finite
    obtain ⟨left, right⟩ := numbers_of_lt below
    rw [lt_iff, compare_eq_lt_iff left right] at below
    rw [lt_iff, lt_iff, compare_eq_lt_iff left number, compare_eq_lt_iff number right]
    exact (lt_or_ge _ _).imp_right fun above => lt_of_le_of_lt above below

end Double

end Matchmaker
