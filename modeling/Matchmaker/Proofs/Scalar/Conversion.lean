import Matchmaker.Proofs.Scalar.Classified

/-!
The double nearest to a whole number never gets smaller as the number grows. A mantissa that is
shifted keeps its order with the bits shifted out, rounding keeps the order of those, and numbers of
different lengths have different exponents unless the shorter one is rounded up to the longer one's
least mantissa.
-/
namespace Matchmaker.Double

open Float.Model Float.Model.UnpackedFloat Reciprocal

/-! ### Rounding keeps the order -/

def extended (em : ExtendedMantissa) : Nat :=
  4 * em.mantissa + 2 * em.roundBit.toNat + em.stickyBit.toNat

theorem extended_shiftRightOne (em : ExtendedMantissa) :
    extended em.shiftRightOne = 2 * (extended em / 4) + min 1 (extended em % 4) := by
  obtain ⟨m, round, sticky⟩ := em
  have parity : (m % 2 != 0).toNat = m % 2 := by
    rcases Nat.mod_two_eq_zero_or_one m with even | odd
    · simp [even]
    · simp [odd]
  cases round <;> cases sticky <;>
    simp only [extended, ExtendedMantissa.shiftRightOne, parity, Bool.or_true, Bool.or_false,
      Bool.toNat_true, Bool.toNat_false] <;> omega

theorem extended_shiftRight_le {em em' : ExtendedMantissa} (h : extended em ≤ extended em')
    (n : Nat) : extended (em >>> n) ≤ extended (em' >>> n) := by
  induction n with
  | zero => exact h
  | succ n ih =>
    change extended (em >>> n).shiftRightOne ≤ extended (em' >>> n).shiftRightOne
    rw [extended_shiftRightOne, extended_shiftRightOne]
    omega

theorem roundedMantissa_le_of_extended {em em' : ExtendedMantissa}
    (h : extended em ≤ extended em') : em.roundedMantissa ≤ em'.roundedMantissa := by
  obtain ⟨m, round, sticky⟩ := em
  obtain ⟨m', round', sticky'⟩ := em'
  cases round <;> cases sticky <;> cases round' <;> cases sticky' <;>
    simp only [extended, Bool.toNat_true, Bool.toNat_false] at h <;>
    simp only [ExtendedMantissa.roundedMantissa, ExtendedMantissa.accuracy,
      Accuracy.roundToNearestEven] <;> omega

/-! ### Mantissas of whole numbers -/

/-- The mantissa of a whole number: shifted up to 53 bits, or shifted down to them and rounded. -/
def significand (n : Nat) : Nat :=
  ((⟨n * 2 ^ (52 - n.log2), false, false⟩ : ExtendedMantissa) >>> (n.log2 - 52)).roundedMantissa

theorem significand_le {m n : Nat} (h : m ≤ n) (same : m.log2 = n.log2) :
    significand m ≤ significand n := by
  rw [significand, significand, same]
  apply roundedMantissa_le_of_extended
  apply extended_shiftRight_le
  have scaled := Nat.mul_le_mul_right (2 ^ (52 - n.log2)) h
  simp only [extended]
  omega

theorem mantissa_bounds {n : Nat} (pos : 0 < n) :
    2 ^ 52 ≤ n * 2 ^ (52 - n.log2) / 2 ^ (n.log2 - 52) ∧
      n * 2 ^ (52 - n.log2) / 2 ^ (n.log2 - 52) < 2 ^ 53 := by
  have low : 2 ^ n.log2 ≤ n := Nat.log2_self_le pos.ne'
  have high : n < 2 ^ (n.log2 + 1) := Nat.lt_log2_self
  have lower : 2 ^ (52 + (n.log2 - 52)) ≤ n * 2 ^ (52 - n.log2) := by
    have exponents : 52 + (n.log2 - 52) = n.log2 + (52 - n.log2) := by omega
    rw [exponents, Nat.pow_add]
    exact Nat.mul_le_mul_right _ low
  have upper : n * 2 ^ (52 - n.log2) < 2 ^ (53 + (n.log2 - 52)) := by
    have exponents : 53 + (n.log2 - 52) = n.log2 + 1 + (52 - n.log2) := by omega
    rw [exponents, Nat.pow_add _ (n.log2 + 1)]
    exact Nat.mul_lt_mul_of_pos_right high (Nat.two_pow_pos _)
  constructor
  · rwa [Nat.le_div_iff_mul_le (Nat.two_pow_pos _), ← Nat.pow_add]
  · rwa [Nat.div_lt_iff_lt_mul (Nat.two_pow_pos _), ← Nat.pow_add]

theorem significand_bounds {n : Nat} (pos : 0 < n) :
    2 ^ 52 ≤ significand n ∧ significand n ≤ 2 ^ 53 := by
  obtain ⟨low, high⟩ := mantissa_bounds pos
  have above := le_roundedMantissa
    ((⟨n * 2 ^ (52 - n.log2), false, false⟩ : ExtendedMantissa) >>> (n.log2 - 52))
  have near := roundedMantissa_le
    ((⟨n * 2 ^ (52 - n.log2), false, false⟩ : ExtendedMantissa) >>> (n.log2 - 52))
  have bit := Bool.toNat_le
    ((⟨n * 2 ^ (52 - n.log2), false, false⟩ : ExtendedMantissa) >>> (n.log2 - 52)).roundBit
  rw [mantissa_shiftRight] at above near
  dsimp only at above near
  rw [significand]
  omega

/-! ### The nearest double -/

theorem log2_mul_two_pow {n : Nat} (pos : 0 < n) (k : Nat) : (n * 2 ^ k).log2 = n.log2 + k := by
  have nonzero : n * 2 ^ k ≠ 0 := (Nat.mul_pos pos (Nat.two_pow_pos k)).ne'
  have low : 2 ^ (n.log2 + k) ≤ n * 2 ^ k := by
    rw [Nat.pow_add]
    exact Nat.mul_le_mul_right _ (Nat.log2_self_le pos.ne')
  have high : n * 2 ^ k < 2 ^ (n.log2 + k + 1) := by
    rw [Nat.add_right_comm, Nat.pow_add _ (n.log2 + 1)]
    exact Nat.mul_lt_mul_of_pos_right Nat.lt_log2_self (Nat.two_pow_pos k)
  have above := (Nat.le_log2 nonzero).2 low
  have below := (Nat.log2_lt nonzero).2 high
  omega

theorem round_whole {n : Nat} (pos : 0 < n) :
    ∃ f e, round .binary64 .positive n 0 = signed .positive f e ∧ 2 ^ 52 ≤ f ∧ f < 2 ^ 53 ∧
      n.log2 - 52 ≤ e ∧ e ≤ n.log2 - 51 ∧
      (e + 1074) * 2 ^ 52 + f = (n.log2 + 1022) * 2 ^ 52 + significand n := by
  have steps : round .binary64 .positive n 0 = roundWithAccuracy .binary64 .positive
      (n <<< (0 - max (n.log2 + 1 + 0 - 53 : Int) (-1074)).toNat)
      (0 - (0 - max (n.log2 + 1 + 0 - 53 : Int) (-1074)).toNat) .exact := rfl
  have up : (0 - max (n.log2 + 1 + 0 - 53 : Int) (-1074)).toNat = 52 - n.log2 := by omega
  have first := shift_exact (n * 2 ^ (52 - n.log2)) (0 - (52 - n.log2 : Nat))
  have down : (max ((n.log2 + (52 - n.log2) : Nat) + 1 + (0 - (52 - n.log2 : Nat)) - 53 : Int)
      (-1074) - (0 - (52 - n.log2 : Nat))).toNat = n.log2 - 52 := by omega
  rw [log2_mul_two_pow pos, down] at first
  rw [steps, up, Nat.shiftLeft_eq]
  obtain ⟨low, high⟩ := significand_bounds pos
  -- A mantissa that has become a power of two is shifted once more.
  by_cases full : significand n = 2 ^ 53
  · have second := shift_overflown (e := 0 - (52 - n.log2 : Nat) + (n.log2 - 52 : Nat)) (by omega)
    rw [← full] at second
    refine ⟨2 ^ 52, _, roundWithAccuracy_eq first second, by decide, by decide, ?_⟩
    omega
  · have second := shift_fitting (m := significand n)
      (e := 0 - (52 - n.log2 : Nat) + (n.log2 - 52 : Nat)) .exact (by omega) (by omega)
    refine ⟨significand n, _, roundWithAccuracy_eq first second, low, by omega, ?_⟩
    omega

theorem toFloat_toModel (n : UInt64) : n.toFloat.toModel =
    Float.Model.pack (UnpackedFloat.normalize .binary64 (n.toNat : Int) 0 .positive) := rfl

variable {n : UInt64}

theorem unpack_toFloat (pos : 0 < n.toNat) :
    ∃ f e pos', n.toFloat.toModel.unpack = .finite .positive f e pos' ∧
      (e + 1074) * 2 ^ 52 + f = (n.toNat.log2 + 1022) * 2 ^ 52 + significand n.toNat := by
  obtain ⟨f, e, rounded, low, high, least, most, bits⟩ := round_whole pos
  have short : n.toNat.log2 < 64 := (Nat.log2_lt pos.ne').2 n.toNat_lt
  have positive : 0 < f := by omega
  refine ⟨f, e, positive, ?_, bits⟩
  rw [toFloat_toModel, normalize_positive pos, rounded, signed, dif_neg positive.ne']
  exact unpack_pack_full .positive positive high low (by omega) (by omega)

theorem toNat_toBits_toFloat (pos : 0 < n.toNat) :
    n.toFloat.toBits.toNat = (n.toNat.log2 + 1022) * 2 ^ 52 + significand n.toNat := by
  obtain ⟨f, e, pos', same, bits⟩ := unpack_toFloat pos
  have shown := toNat_toBits same
  omega

theorem toNat_toBits_toFloat_le {m : UInt64} (pos : 0 < m.toNat) (h : m.toNat ≤ n.toNat) :
    m.toFloat.toBits.toNat ≤ n.toFloat.toBits.toNat := by
  have pos' : 0 < n.toNat := by omega
  rw [toNat_toBits_toFloat pos, toNat_toBits_toFloat pos']
  have longer : m.toNat.log2 ≤ n.toNat.log2 :=
    (Nat.le_log2 pos'.ne').2 (Nat.le_trans (Nat.log2_self_le pos.ne') h)
  obtain ⟨-, high⟩ := significand_bounds pos
  obtain ⟨low, -⟩ := significand_bounds pos'
  by_cases same : m.toNat.log2 = n.toNat.log2
  · have mantissas := significand_le h same
    omega
  · omega

end Matchmaker.Double
