import Matchmaker.Scalar
import Mathlib.Algebra.BigOperators.Group.List.Basic
import Mathlib.Algebra.Order.Field.Basic
import Mathlib.Algebra.Order.Field.Rat

/-!
The exact rationals as numbers for priorities, shares and usage. No sum is rounded, so that it does
not matter in which order it is taken, and what is split adds up to what there was.
-/
namespace Matchmaker

instance : Scalar ℚ where
  decLt := inferInstance
  decLe := inferInstance
  ofInt n := n
  emptySum := 0
  isFinite _ := true
  compareClass := compare

namespace Rational

@[simp] theorem ofInt (n : Int) : (Scalar.ofInt n : ℚ) = n := rfl

@[simp] theorem zero : (Scalar.zero : ℚ) = 0 := Int.cast_zero

@[simp] theorem one : (Scalar.one : ℚ) = 1 := Int.cast_one

@[simp] theorem total (terms : List ℚ) : Scalar.total terms = terms.sum :=
  List.sum_eq_foldl.symm

@[simp] theorem larger (x y : ℚ) : Scalar.larger x y = max x y := by
  unfold Scalar.larger
  rw [if_pos (beq_self_eq_true x), max_def_lt]

@[simp] theorem isWeight (x : ℚ) : Scalar.isWeight x = true ↔ 0 < x := by
  simp [Scalar.isWeight, Scalar.isFinite]

theorem one_div_le {bound : ℚ} (large : 1 ≤ bound) : 1 / bound ≤ bound :=
  (div_le_self zero_le_one large).trans large

theorem clamp?_mem {x lo hi y : ℚ} (h : Scalar.clamp? x lo hi = some y) : lo ≤ y ∧ y ≤ hi := by
  unfold Scalar.clamp? at h
  split at h
  · cases h
    grind
  · cases h

end Rational

end Matchmaker
