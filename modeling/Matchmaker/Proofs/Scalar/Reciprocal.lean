import Mathlib.Algebra.Group.Nat.Defs
import Matchmaker.Scalar

/-!
A double that is finite and at least one is at least its reciprocal, rounding included. The proof
follows a division through the mantissas and exponents that doubles stand for.
-/
namespace Matchmaker.Reciprocal

open Float.Model Float.Model.UnpackedFloat

/-! ### Packing -/

theorem toNat_implicit (w : BitVec 52) : (1#1 ++ w).toNat = 2 ^ 52 + w.toNat := by
  rw [BitVec.toNat_append, ← Nat.shiftLeft_add_eq_or_of_lt w.isLt]
  rfl

theorem unpackSign_packComponents {spec : Format} {sign : Sign}
    {exponent : BitVec spec.exponentBits} {mantissa : BitVec spec.mantissaBitsWithoutImplicit} :
    unpackSign (packComponents spec sign exponent mantissa) = sign.toBitVec := by
  ext i bound
  have single : i = 0 := by omega
  subst single
  have above : ¬ spec.mantissaBitsWithoutImplicit + spec.exponentBits <
      spec.mantissaBitsWithoutImplicit := by omega
  unfold unpackSign packComponents
  simp [BitVec.getLsbD_append, above, BitVec.getElem_append]

theorem unpack_finite {x : Float.Model} {sign : Sign} {m : Nat} {e : Int} {pos : 0 < m}
    (h : x.unpack = .finite sign m e pos) :
    m < 2 ^ 53 ∧ -1074 ≤ e ∧ e ≤ 971 ∧ (-1074 < e → 2 ^ 52 ≤ m) := by
  unfold Float.Model.unpack UnpackedFloat.unpack at h
  dsimp only at h
  have bias : (Format.binary64.exponentBias : Int) = 1023 := rfl
  rw [bias] at h
  have small : (@unpackMantissa .binary64 x.toBits.toBitVec).toNat < 2 ^ 52 := BitVec.isLt _
  have exponent : (@unpackExponent .binary64 x.toBits.toBitVec).toNat < 2 ^ 11 := BitVec.isLt _
  by_cases top : @unpackExponent .binary64 x.toBits.toBitVec = -1#11
  · rw [if_pos top] at h
    by_cases empty : @unpackMantissa .binary64 x.toBits.toBitVec = 0#52
    · rw [if_pos empty] at h
      cases h
    · rw [if_neg empty] at h
      cases h
  · rw [if_neg top] at h
    have notTop : (@unpackExponent .binary64 x.toBits.toBitVec).toNat ≠ 2047 := fun same =>
      top (BitVec.eq_of_toNat_eq same)
    by_cases zero : @unpackExponent .binary64 x.toBits.toBitVec = 0#11
    · rw [if_pos zero] at h
      by_cases empty : @unpackMantissa .binary64 x.toBits.toBitVec = 0#52
      · rw [dif_pos empty] at h
        cases h
      · rw [dif_neg empty] at h
        injection h with _ hm he
        rw [zero, BitVec.toNat_ofNat] at he
        omega
    · rw [if_neg zero] at h
      injection h with _ hm he
      have positive : (@unpackExponent .binary64 x.toBits.toBitVec).toNat ≠ 0 := fun same =>
        zero (BitVec.eq_of_toNat_eq same)
      rw [toNat_implicit] at hm
      omega

theorem finite_eq {sign sign' : Sign} {m m' : Nat} {e e' : Int} (signs : sign = sign')
    (mantissas : m = m') (exponents : e = e') (pos : 0 < m) (pos' : 0 < m') :
    UnpackedFloat.finite sign m e pos = .finite sign' m' e' pos' := by
  subst signs mantissas exponents
  rfl

theorem ofBitVec_unpackSign {sign : Sign} {v : BitVec 11} {w : BitVec 52} :
    Sign.ofBitVec (unpackSign (packComponents .binary64 sign v w)) = sign := by
  rw [unpackSign_packComponents]
  cases sign <;> rfl

theorem unpack_normal (sign : Sign) (v : BitVec 11) (w : BitVec 52) (low : v ≠ 0#11)
    (high : v ≠ -1#11) :
    UnpackedFloat.unpack .binary64 (packComponents .binary64 sign v w) =
      .finite sign (2 ^ 52 + w.toNat) (v.toNat - 1075) (by omega) := by
  unfold UnpackedFloat.unpack
  dsimp only
  rw [unpackExponent_packComponents, if_neg high, if_neg low]
  refine finite_eq ofBitVec_unpackSign ?_ ?_ _ _
  · rw [unpackMantissa_packComponents, toNat_implicit]
  · rfl

theorem unpack_subnormal (sign : Sign) (w : BitVec 52) (pos : 0 < w.toNat) :
    UnpackedFloat.unpack .binary64 (packComponents .binary64 sign 0#11 w) =
      .finite sign w.toNat (-1074) pos := by
  have nonzero : unpackMantissa (packComponents .binary64 sign 0#11 w) ≠ 0#52 := by
    rw [unpackMantissa_packComponents]
    intro same
    simp [same] at pos
  unfold UnpackedFloat.unpack
  dsimp only
  rw [unpackExponent_packComponents, if_neg (by decide), if_pos rfl, dif_neg nonzero]
  refine finite_eq ofBitVec_unpackSign ?_ rfl _ _
  rw [unpackMantissa_packComponents]

theorem pack_finite (sign : Sign) {m : Nat} {e : Int} (pos : 0 < m) (most : e ≤ 971) :
    UnpackedFloat.pack .binary64 (.finite sign m e pos) =
      packComponents .binary64 sign
        (if m.log2 = 52 then BitVec.ofNat 11 (e + 1023 + 52).toNat else 0#11)
        (BitVec.ofNat 52 m) := by
  change (if 2 ^ 11 ≤ (e + 1023 + 52).toNat + 1 then packedInfinity .binary64 sign
    else if m.log2 + 1 = 53 then packComponents .binary64 sign
      (BitVec.ofNat 11 (e + 1023 + 52).toNat) (BitVec.ofNat 52 m)
    else packComponents .binary64 sign 0#11 (BitVec.ofNat 52 m)) = _
  rw [if_neg (by omega)]
  by_cases full : m.log2 = 52
  · rw [if_pos (by omega), if_pos full]
  · rw [if_neg (by omega), if_neg full]

theorem log2_full {m : Nat} (low : 2 ^ 52 ≤ m) (high : m < 2 ^ 53) : m.log2 = 52 := by
  have positive : m ≠ 0 := by omega
  have above := (Nat.log2_lt positive).2 high
  have below := (Nat.le_log2 positive).2 low
  omega

theorem unpack_pack_full (sign : Sign) {m : Nat} {e : Int} (pos : 0 < m) (bound : m < 2 ^ 53)
    (low : 2 ^ 52 ≤ m) (least : -1074 ≤ e) (most : e ≤ 971) :
    (pack (.finite sign m e pos)).unpack = .finite sign m e pos := by
  have packed := congrArg (UnpackedFloat.unpack .binary64) (pack_finite sign pos most)
  have exponent : (BitVec.ofNat 11 (e + 1023 + 52).toNat).toNat = (e + 1023 + 52).toNat := by
    rw [BitVec.toNat_ofNat, Nat.mod_eq_of_lt (by omega)]
  have mantissa : 2 ^ 52 + (BitVec.ofNat 52 m).toNat = m := by
    rw [BitVec.toNat_ofNat]
    omega
  rw [if_pos (log2_full low bound)] at packed
  refine packed.trans ((unpack_normal _ _ _ (fun zero => ?_) fun ones => ?_).trans ?_)
  · have none := congrArg BitVec.toNat zero
    rw [exponent, BitVec.toNat_ofNat] at none
    omega
  · have all := congrArg BitVec.toNat ones
    rw [exponent] at all
    change _ = 2047 at all
    omega
  · refine finite_eq rfl mantissa ?_ _ _
    rw [exponent]
    omega

theorem unpack_pack (sign : Sign) {m : Nat} {e : Int} (pos : 0 < m) (bound : m < 2 ^ 53)
    (least : -1074 ≤ e) (most : e ≤ 971) :
    ∃ e', (pack (.finite sign m e pos)).unpack = .finite sign m e' pos ∧
      (e' = e ∨ e' = -1074) := by
  by_cases low : 2 ^ 52 ≤ m
  · exact ⟨e, unpack_pack_full sign pos bound low least most, .inl rfl⟩
  · have high : m < 2 ^ 52 := by omega
    have packed := congrArg (UnpackedFloat.unpack .binary64) (pack_finite sign pos most)
    have short : m.log2 ≠ 52 := by
      have bits := (Nat.log2_lt (Nat.ne_of_gt pos)).2 high
      omega
    have mantissa : (BitVec.ofNat 52 m).toNat = m := by
      rw [BitVec.toNat_ofNat, Nat.mod_eq_of_lt high]
    rw [if_neg short] at packed
    refine ⟨-1074, packed.trans ?_, .inr rfl⟩
    exact (unpack_subnormal _ _ (by omega)).trans (finite_eq rfl mantissa rfl _ _)

/-! ### Rounding -/

theorem target_binary64 (m : Nat) (e : Int) :
    Format.targetExponent .binary64 (totalExponent m e) = max (m.log2 + 1 + e - 53) (-1074) := rfl

theorem shift_fitting {m : Nat} {e : Int} (acc : Accuracy) (high : m < 2 ^ 53)
    (least : -1074 ≤ e) :
    shiftToTargetExponent .binary64 m e acc =
      (ExtendedMantissa.ofMantissaAndAccuracy m acc, e) := by
  have bits : m.log2 ≤ 52 := by
    by_cases zero : m = 0
    · subst zero
      decide
    · exact Nat.le_of_lt_succ ((Nat.log2_lt zero).2 high)
  have shift : (Format.targetExponent .binary64 (totalExponent m e) - e).toNat = 0 := by
    rw [target_binary64]
    omega
  rw [shiftToTargetExponent, shiftToExponent, shift]
  exact Prod.ext rfl (Int.add_zero e)

theorem shift_overflown {e : Int} (least : -1074 ≤ e) :
    shiftToTargetExponent .binary64 (2 ^ 53) e .exact = (⟨2 ^ 52, false, false⟩, e + 1) := by
  have bits : (2 ^ 53 : Nat).log2 = 53 := by decide
  have shift : (Format.targetExponent .binary64 (totalExponent (2 ^ 53) e) - e).toNat = 1 := by
    rw [target_binary64, bits]
    omega
  rw [shiftToTargetExponent, shiftToExponent, shift]
  rfl

theorem roundedMantissa_ofMantissaAndAccuracy (m : Nat) (acc : Accuracy) :
    (ExtendedMantissa.ofMantissaAndAccuracy m acc).roundedMantissa =
      acc.roundToNearestEven m := by
  rcases acc with _ | _ | _ | _ <;> rfl

theorem roundToNearestEven_le (m : Nat) (acc : Accuracy) :
    acc.roundToNearestEven m ≤ m + 1 := by
  rcases acc with _ | _ | _ | _ <;> simp only [Accuracy.roundToNearestEven] <;> omega

def signed (sign : Sign) (m : Nat) (e : Int) : UnpackedFloat :=
  if h : m = 0 then .zero sign else .finite sign m e (Nat.pos_of_ne_zero h)

theorem roundWithAccuracy_eq {spec : Format} {sign : Sign} {m : Nat} {e e₁ e₂ : Int}
    {acc : Accuracy} {em₁ em₂ : ExtendedMantissa}
    (first : shiftToTargetExponent spec m e acc = (em₁, e₁))
    (second : shiftToTargetExponent spec em₁.roundedMantissa e₁ .exact = (em₂, e₂)) :
    roundWithAccuracy spec sign m e acc = signed sign em₂.mantissa e₂ := by
  unfold roundWithAccuracy
  rw [first]
  dsimp only
  rw [second]
  rfl

theorem round_fitting {m : Nat} {e : Int} (acc : Accuracy) (sign : Sign) (least : -1074 ≤ e)
    (fits : m < 2 ^ 53 ∨ m = 2 ^ 53 ∧ acc = .exact) :
    ∃ f e', roundWithAccuracy .binary64 sign m e acc = signed sign f e' ∧
      (f < 2 ^ 53 ∧ e' = e ∨ f = 2 ^ 52 ∧ e' = e + 1) := by
  rcases fits with small | ⟨rfl, rfl⟩
  · have first := shift_fitting acc small least
    have near := roundToNearestEven_le m acc
    rw [← roundedMantissa_ofMantissaAndAccuracy] at near
    by_cases full : (ExtendedMantissa.ofMantissaAndAccuracy m acc).roundedMantissa = 2 ^ 53
    · have second := shift_overflown least
      rw [← full] at second
      exact ⟨_, _, roundWithAccuracy_eq first second, .inr ⟨rfl, rfl⟩⟩
    · have below : (ExtendedMantissa.ofMantissaAndAccuracy m acc).roundedMantissa < 2 ^ 53 := by
        omega
      exact ⟨_, _, roundWithAccuracy_eq first (shift_fitting .exact below least),
        .inl ⟨below, rfl⟩⟩
  · have half : (2 ^ 52 : Nat) < 2 ^ 53 := by decide
    exact ⟨_, _, roundWithAccuracy_eq (shift_overflown least)
      (shift_fitting .exact half (by omega)), .inr ⟨rfl, rfl⟩⟩

/-! ### Dividing one -/

theorem divCore_one {m : Nat} {e : Int} (low : 2 ^ 52 ≤ m) (high : m < 2 ^ 53) (least : -52 ≤ e)
    (most : e ≤ 971) :
    ∃ q t acc, divCore .binary64 (2 ^ 52) (-52) m e = (q, t, acc) ∧ -1074 ≤ t ∧ t ≤ -53 ∧
      (q < 2 ^ 53 ∨ q = 2 ^ 53 ∧ acc = .exact) := by
  have exponents : min (-52 - e) (Format.targetExponent .binary64
      (totalExponent (2 ^ 52) (-52) - totalExponent m e)) = max (-105 - e) (-1074) := by
    have one : (2 ^ 52 : Nat).log2 = 52 := by decide
    have width : (Format.binary64.mantissaBits : Int) = 53 := rfl
    have smallest : Format.binary64.minExponent = -1074 := rfl
    rw [Format.targetExponent, totalExponent, totalExponent, one, log2_full low high, width,
      smallest]
    omega
  have shift : (-52 - e - max (-105 - e) (-1074)).toNat ≤ 53 := by omega
  refine ⟨_, _, _, rfl, ?_, ?_, ?_⟩
  · rw [exponents]
    omega
  · rw [exponents]
    omega
  · rw [exponents, Nat.shiftLeft_eq]
    generalize (-52 - e - max (-105 - e) (-1074)).toNat = n at shift
    have power : 2 ^ n ≤ 2 ^ 53 := Nat.pow_le_pow_right (by decide) shift
    have whole : 2 ^ 52 * 2 ^ n / m * m ≤ 2 ^ 52 * 2 ^ n := Nat.div_mul_le_self _ m
    by_cases below : 2 ^ 52 * 2 ^ n / m < 2 ^ 53
    · exact .inl below
    · have atLeast : 2 ^ 53 * m ≤ 2 ^ 52 * 2 ^ n / m * m :=
        Nat.mul_le_mul_right m (Nat.le_of_not_lt below)
      obtain rfl : m = 2 ^ 52 := by omega
      have full : 2 ^ n = 2 ^ 53 := by omega
      rw [full]
      exact .inr ⟨by decide, rfl⟩

theorem div_positive {m m' q : Nat} {e e' t : Int} {acc : Accuracy} (pos : 0 < m) (pos' : 0 < m')
    (quotient : divCore .binary64 m e m' e' = (q, t, acc)) :
    UnpackedFloat.div .binary64 (.finite .positive m e pos) (.finite .positive m' e' pos') =
      roundWithAccuracy .binary64 .positive q t acc := by
  change (match divCore .binary64 m e m' e' with
    | (q, t, acc) => roundWithAccuracy .binary64 .positive q t acc) = _
  rw [quotient]

theorem le_iff_unpack (x y : Float) :
    x ≤ y ↔ x.toModel.unpack.le y.toModel.unpack = true := decide_eq_true_iff

theorem le_positive {m m' : Nat} {e e' : Int} (pos : 0 < m) (pos' : 0 < m') :
    (UnpackedFloat.finite .positive m e pos).le (.finite .positive m' e' pos') =
      ((Ord.compare e e').then (Ord.compare m m')).isLE := rfl

theorem unpack_of_one_le {x : Float} (finite : x.isFinite = true) (h : Scalar.one ≤ x) :
    ∃ m e pos, x.toModel.unpack = .finite .positive m e pos ∧ -52 ≤ e ∧ e ≤ 971 ∧ 2 ^ 52 ≤ m ∧
      m < 2 ^ 53 := by
  have order := (le_iff_unpack Scalar.one x).1 h
  have one : (Scalar.one : Float).toModel.unpack = .finite .positive (2 ^ 52) (-52) (by decide) :=
    rfl
  rw [one] at order
  change x.toModel.unpack.isFinite = true at finite
  cases unpacked : x.toModel.unpack with
  | notANumber => rw [unpacked] at finite; cases finite
  | infinity sign => rw [unpacked] at finite; cases finite
  | zero sign => rw [unpacked] at order; cases order
  | finite sign m e pos =>
    rw [unpacked] at order
    cases sign with
    | negative => cases order
    | positive =>
      have bounds := unpack_finite unpacked
      have least : -52 ≤ e := by
        refine Int.le_of_not_gt fun small => ?_
        rw [le_positive, Int.compare_eq_gt.2 small] at order
        cases order
      exact ⟨m, e, pos, rfl, least, bounds.2.2.1, bounds.2.2.2 (by omega), bounds.1⟩

theorem one_div_le {x : Float} (finite : x.isFinite = true) (h : Scalar.one ≤ x) :
    Scalar.one / x ≤ x := by
  obtain ⟨m, e, pos, unpacked, least, most, low, high⟩ := unpack_of_one_le finite h
  obtain ⟨q, t, acc, quotient, bottom, top, fits⟩ := divCore_one low high least most
  obtain ⟨f, e', rounded, bounds⟩ := round_fitting acc .positive bottom fits
  have one : (Scalar.one : Float).toModel.unpack = .finite .positive (2 ^ 52) (-52) (by decide) :=
    rfl
  have divided : (Scalar.one / x).toModel = Float.Model.pack (signed .positive f e') := by
    change Float.Model.pack (UnpackedFloat.div .binary64 (Scalar.one : Float).toModel.unpack
      x.toModel.unpack) = _
    rw [one, unpacked, div_positive _ _ quotient]
    exact congrArg Float.Model.pack rounded
  rw [le_iff_unpack, divided, unpacked]
  by_cases none : f = 0
  · subst none
    have zero : (Float.Model.pack (.zero .positive)).unpack = .zero .positive := rfl
    rw [signed, dif_pos rfl, zero]
    rfl
  · have positive : 0 < f := Nat.pos_of_ne_zero none
    have bound : f < 2 ^ 53 := by omega
    have bottom' : -1074 ≤ e' := by omega
    have top' : e' ≤ 971 := by omega
    obtain ⟨e'', packed, exponent⟩ := unpack_pack .positive positive bound bottom' top'
    rw [signed, dif_neg none, packed, le_positive]
    by_cases below : e'' < e
    · rw [Int.compare_eq_lt.2 below]
      rfl
    · obtain ⟨rfl, rfl⟩ : e'' = e ∧ f = 2 ^ 52 := by omega
      rw [Int.compare_eq_eq.2 rfl]
      exact Nat.isLE_compare.2 low

end Matchmaker.Reciprocal
