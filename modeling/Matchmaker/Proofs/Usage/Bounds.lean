import Matchmaker.Proofs.Scalar.Rational
import Matchmaker.Proofs.Usage.Correction
import Mathlib.Algebra.BigOperators.Group.List.Basic
import Mathlib.Algebra.Order.BigOperators.Group.List
import Mathlib.Algebra.Order.Field.Basic

/-!
How far a correction moves shares: over the exact rationals each corrected share lies between the
expected one divided by the overall bound and the expected one times the bound.
-/
namespace Matchmaker

namespace HistorySettings

variable {s : HistorySettings ℚ}

theorem one_le_of_isBound {x : ℚ} (h : isBound x = true) : 1 ≤ x := by
  simpa [isBound, Scalar.isFinite] using h

theorem one_le_of_fault? (h : s.fault? = none) : 1 ≤ s.maxCorrection :=
  one_le_of_isBound (fault?_eq_none.1 h).1

theorem inOrder_of_rational (h : s.fault? = none) : s.InOrder := by
  refine inOrder_of_bounds (fun x bound => ?_) h
  rw [Rational.one]
  exact Rational.one_div_le (one_le_of_isBound bound)

end HistorySettings

namespace Correction

/-- At most a bound as factor apart. -/
structure Near (bound x y : ℚ) : Prop where
  lower : x / bound ≤ y
  upper : y ≤ x * bound

namespace Near

variable {bound x y z : ℚ}

theorem refl (large : 1 ≤ bound) (nonneg : 0 ≤ x) : Near bound x x where
  lower := div_le_self nonneg large
  upper := le_mul_of_one_le_right nonneg large

theorem mul {factor : ℚ} (nonneg : 0 ≤ x) (lower : 1 / bound ≤ factor) (upper : factor ≤ bound) :
    Near bound x (x * factor) where
  lower := by
    rw [← mul_one_div]
    exact mul_le_mul_of_nonneg_left lower nonneg
  upper := mul_le_mul_of_nonneg_left upper nonneg

theorem nonneg (large : 1 ≤ bound) (h : Near bound x y) (nonneg : 0 ≤ x) : 0 ≤ y :=
  (div_nonneg nonneg (zero_le_one.trans large)).trans h.lower

theorem trans (large : 1 ≤ bound) (h : Near bound x y) (h' : Near bound y z) :
    Near (bound ^ 2) x z := by
  have pos : 0 ≤ bound := zero_le_one.trans large
  constructor
  · calc x / bound ^ 2 = x / bound / bound := by rw [pow_two, div_div]
      _ ≤ y / bound := div_le_div_of_nonneg_right h.lower pos
      _ ≤ z := h'.lower
  · calc z ≤ y * bound := h'.upper
      _ ≤ x * bound * bound := mul_le_mul_of_nonneg_right h.upper pos
      _ = x * bound ^ 2 := by rw [pow_two, mul_assoc]

theorem sum {parts : List ℚ} (h : ∀ y ∈ parts, Near bound x y) :
    Near bound (parts.length * x) parts.sum where
  lower := by
    rw [mul_div_assoc, ← nsmul_eq_mul]
    exact List.card_nsmul_le_sum parts _ fun y mem => (h y mem).lower
  upper := by
    rw [mul_assoc, ← nsmul_eq_mul]
    exact List.sum_le_card_nsmul parts _ fun y mem => (h y mem).upper

end Near

variable {settings : HistorySettings ℚ}

theorem near_corrected {found : List (Evidence ℚ)} {totalShare share y : ℚ} {entity : String}
    (nonneg : 0 ≤ share) (h : corrected settings found totalShare entity share = some y) :
    Near settings.maxCorrection share y := by
  obtain ⟨sum, -, h⟩ := Option.bind_eq_some_iff.1 h
  obtain ⟨factor, clamped, same⟩ := Option.bind_eq_some_iff.1 h
  cases same
  have bounds := Rational.clamp?_mem clamped
  rw [Rational.one] at bounds
  exact .mul nonneg bounds.1 bounds.2

theorem near_corrected? {held : HeldUsage ℚ} {expected shares : Shares ℚ}
    (large : 1 ≤ settings.maxCorrection) (h : corrected? settings held expected = some shares)
    {entity : String} {x : ℚ} (known : expected[entity]? = some x) (nonneg : 0 ≤ x) :
    ∃ y, shares[entity]? = some y ∧ Near settings.maxCorrection x y := by
  by_cases silent : Silent settings held expected
  · cases (corrected?_of_silent silent).symm.trans h
    exact ⟨x, known, .refl large nonneg⟩
  · have present : entity ∈ shares :=
      (mem_corrected? h entity).2 (Std.ExtTreeMap.mem_iff_isSome_getElem?.2 (by simp [known]))
    obtain ⟨y, there⟩ :=
      Option.isSome_iff_exists.1 (Std.ExtTreeMap.mem_iff_isSome_getElem?.1 present)
    have made := getElem?_corrected? h silent entity
    rw [there, known, Option.bind_some] at made
    exact ⟨y, there, near_corrected nonneg made.symm⟩

end Correction

end Matchmaker
