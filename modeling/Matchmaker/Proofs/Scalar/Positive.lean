import Matchmaker.Proofs.Scalar.Ordered
import Matchmaker.Proofs.Scalar.Rounding

/-!
Sums of positive doubles are above zero. Rounding takes no positive number to zero, since every sum
has a mantissa at an exponent from the least one on; a sum that is too large becomes infinite.
-/
namespace Matchmaker.Double

open Float.Model Float.Model.UnpackedFloat Reciprocal

/-! ### Rounding a positive number -/

theorem le_roundedMantissa (em : ExtendedMantissa) : em.mantissa ≤ em.roundedMantissa := by
  obtain ⟨m, round, sticky⟩ := em
  cases round <;> cases sticky <;>
    simp only [ExtendedMantissa.roundedMantissa, ExtendedMantissa.accuracy,
      Accuracy.roundToNearestEven] <;> omega

theorem shift_positive {m : Nat} {e : Int} (pos : 0 < m) (least : -1074 ≤ e) :
    ∃ em e', shiftToTargetExponent .binary64 m e .exact = (em, e') ∧ 0 < em.mantissa ∧
      em.mantissa < 2 ^ 53 ∧ -1074 ≤ e' := by
  refine ⟨_, _, shift_exact m e, ?_⟩
  have shift : m.log2 ≤ 52 + (max (m.log2 + 1 + e - 53) (-1074) - e).toNat := by omega
  have less : (max (m.log2 + 1 + e - 53) (-1074) - e).toNat ≤ m.log2 := by omega
  have reached : -1074 ≤ e + (max (m.log2 + 1 + e - 53) (-1074) - e).toNat := by omega
  generalize (max (m.log2 + 1 + e - 53) (-1074) - e).toNat = n at shift less reached
  have low : 2 ^ m.log2 ≤ m := Nat.log2_self_le pos.ne'
  have high : m < 2 ^ (m.log2 + 1) := Nat.lt_log2_self
  rw [mantissa_shiftRight]
  refine ⟨Nat.div_pos ?_ (Nat.two_pow_pos n), ?_, reached⟩
  · exact Nat.le_trans (Nat.pow_le_pow_right Nat.two_pos less) low
  · rw [Nat.div_lt_iff_lt_mul (Nat.two_pow_pos n), ← Nat.pow_add]
    exact Nat.lt_of_lt_of_le high (Nat.pow_le_pow_right Nat.two_pos (by omega))

theorem roundWithAccuracy_positive {m : Nat} {e : Int} (pos : 0 < m) (least : -1074 ≤ e) :
    ∃ f e' pos', roundWithAccuracy .binary64 .positive m e .exact = .finite .positive f e' pos' ∧
      f < 2 ^ 53 ∧ -1074 ≤ e' := by
  obtain ⟨em, e₁, first, pos₁, -, least₁⟩ := shift_positive pos least
  obtain ⟨em', e₂, second, pos₂, fits, least₂⟩ :=
    shift_positive (Nat.lt_of_lt_of_le pos₁ (le_roundedMantissa em)) least₁
  refine ⟨em'.mantissa, e₂, pos₂, ?_, fits, least₂⟩
  rw [roundWithAccuracy_eq first second, signed, dif_neg pos₂.ne']

theorem round_positive {m : Nat} {e : Int} (pos : 0 < m) (least : -1074 ≤ e) :
    ∃ f e' pos', round .binary64 .positive m e = .finite .positive f e' pos' ∧
      f < 2 ^ 53 ∧ -1074 ≤ e' := by
  have rounded : round .binary64 .positive m e = roundWithAccuracy .binary64 .positive
      (m <<< (e - max (m.log2 + 1 + e - 53) (-1074)).toNat)
      (e - (e - max (m.log2 + 1 + e - 53) (-1074)).toNat) .exact := rfl
  rw [rounded, Nat.shiftLeft_eq]
  exact roundWithAccuracy_positive (Nat.mul_pos pos (Nat.two_pow_pos _)) (by omega)

/-! ### Numbers above zero -/

def AboveZero (u : UnpackedFloat) : Prop :=
  u = .infinity .positive ∨ ∃ m e pos, u = .finite .positive m e pos

theorem zero_lt_iff {x : Float} : Scalar.zero < x ↔ AboveZero x.toModel.unpack := by
  have zero : (Scalar.zero : Float).toModel.unpack = .zero .positive := rfl
  rw [lt_iff, zero]
  generalize x.toModel.unpack = u
  constructor
  · intro above
    rcases u with ⟨_ | _⟩ | _ | _ | ⟨_ | _, m, e, pos⟩
    · cases above
    · exact .inl rfl
    · cases above
    · cases above
    · cases above
    · exact .inr ⟨m, e, pos, rfl⟩
  · rintro (rfl | ⟨m, e, pos, rfl⟩) <;> rfl

theorem isWeight_iff {x : Float} :
    Scalar.isWeight x = true ↔ ∃ m e pos, x.toModel.unpack = .finite .positive m e pos := by
  rw [Scalar.isWeight, Bool.and_eq_true, decide_eq_true_eq]
  constructor
  · rintro ⟨finite, above⟩
    exact unpack_of_pos finite above
  · rintro ⟨m, e, pos, same⟩
    refine ⟨?_, zero_lt_iff.2 (.inr ⟨m, e, pos, same⟩)⟩
    change x.toModel.unpack.isFinite = true
    rw [same]
    rfl

theorem aboveZero_pack {m : Nat} {e : Int} (pos : 0 < m) (fits : m < 2 ^ 53) (least : -1074 ≤ e) :
    AboveZero (Float.Model.pack (.finite .positive m e pos)).unpack := by
  by_cases most : e ≤ 971
  · obtain ⟨e', packed, -⟩ := unpack_pack .positive pos fits least most
    exact .inr ⟨m, e', pos, packed⟩
  · have large : 2 ^ 11 ≤ (e + 1023 + 52).toNat + 1 := by omega
    have packed : UnpackedFloat.pack .binary64 (.finite .positive m e pos) =
      packedInfinity .binary64 .positive := if_pos large
    exact .inl (congrArg (UnpackedFloat.unpack .binary64) packed)

theorem aboveZero_add {x y : Float} (h : AboveZero x.toModel.unpack)
    (weight : Scalar.isWeight y = true) : AboveZero (x + y).toModel.unpack := by
  obtain ⟨m', e', pos', same'⟩ := isWeight_iff.1 weight
  change AboveZero (Float.Model.pack (UnpackedFloat.add .binary64 x.toModel.unpack
    y.toModel.unpack)).unpack
  rw [same']
  rcases h with same | ⟨m, e, pos, same⟩
  · have stays : UnpackedFloat.add .binary64 (.infinity .positive) (.finite .positive m' e' pos') =
      .infinity .positive := rfl
    rw [same, stays]
    exact .inl rfl
  · have bounds := unpack_finite same
    have bounds' := unpack_finite same'
    obtain ⟨f, e'', pos'', rounded, fits, least⟩ := round_positive
      (m := m * 2 ^ (e - min e e').toNat + m' * 2 ^ (e' - min e e').toNat) (e := min e e')
      (Nat.add_pos_left (Nat.mul_pos pos (Nat.two_pow_pos _)) _) (by omega)
    rw [same, add_positive pos pos', rounded]
    exact aboveZero_pack pos'' fits least

theorem aboveZero_emptySum_add {x : Float} (weight : Scalar.isWeight x = true) :
    AboveZero (Scalar.emptySum + x).toModel.unpack := by
  obtain ⟨m, e, pos, same⟩ := isWeight_iff.1 weight
  have bounds := unpack_finite same
  change AboveZero (Float.Model.pack (UnpackedFloat.add .binary64 (.zero .negative)
    x.toModel.unpack)).unpack
  rw [same]
  exact aboveZero_pack pos bounds.1 bounds.2.1

theorem aboveZero_foldl {terms : List Float} (weights : ∀ x ∈ terms, Scalar.isWeight x = true)
    {start : Float} (h : AboveZero start.toModel.unpack) :
    AboveZero (terms.foldl (· + ·) start).toModel.unpack := by
  induction terms generalizing start with
  | nil => exact h
  | cons x rest ih =>
    obtain ⟨weight, later⟩ := List.forall_mem_cons.1 weights
    exact ih later (aboveZero_add h weight)

theorem zero_lt_total {terms : List Float} (any : terms ≠ [])
    (weights : ∀ x ∈ terms, Scalar.isWeight x = true) : Scalar.zero < Scalar.total terms := by
  cases terms with
  | nil => exact absurd rfl any
  | cons x rest =>
    obtain ⟨weight, later⟩ := List.forall_mem_cons.1 weights
    exact zero_lt_iff.2 (aboveZero_foldl later (aboveZero_emptySum_add weight))

end Matchmaker.Double
