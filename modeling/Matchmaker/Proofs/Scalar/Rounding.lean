import Matchmaker.Proofs.Scalar.Order
import Matchmaker.Proofs.Scalar.Reciprocal

/-!
How large sums and products of doubles can get. A number is capped by an exponent, and a rounded
result is capped by the same one as long as it does not exceed the greatest mantissa by half a unit
in the last place. So the sum of any number of terms that are far smaller than the cap never gets
beyond it.
-/
namespace Matchmaker.Double

open Float.Model Float.Model.UnpackedFloat Reciprocal

/-! ### Shifts -/

theorem mantissa_shiftRight (em : ExtendedMantissa) (n : Nat) :
    (em >>> n).mantissa = em.mantissa / 2 ^ n := by
  induction n with
  | zero => exact (Nat.div_one em.mantissa).symm
  | succ n ih =>
    change (em >>> n).mantissa / 2 = _
    rw [ih, Nat.div_div_eq_div_mul, Nat.pow_succ]

theorem roundBit_shiftRight (em : ExtendedMantissa) (n : Nat) :
    (em >>> (n + 1)).roundBit = (em.mantissa / 2 ^ n % 2 != 0) := by
  change ((em >>> n).mantissa % 2 != 0) = _
  rw [mantissa_shiftRight]

theorem roundedMantissa_le (em : ExtendedMantissa) :
    em.roundedMantissa ≤ em.mantissa + em.roundBit.toNat := by
  obtain ⟨m, round, sticky⟩ := em
  cases round <;> cases sticky <;>
    simp only [ExtendedMantissa.roundedMantissa, ExtendedMantissa.accuracy,
      Accuracy.roundToNearestEven, Bool.toNat_true, Bool.toNat_false] <;> omega

theorem roundedMantissa_shiftRight_lt {m n : Nat} (bound : 2 * m < (2 ^ 54 - 1) * 2 ^ n) :
    ((⟨m, false, false⟩ : ExtendedMantissa) >>> n).roundedMantissa < 2 ^ 53 := by
  refine Nat.lt_of_le_of_lt (roundedMantissa_le _) ?_
  rw [mantissa_shiftRight]
  cases n with
  | zero =>
    change m / 2 ^ 0 + 0 < 2 ^ 53
    omega
  | succ n =>
    rw [roundBit_shiftRight, Nat.pow_succ, ← Nat.div_div_eq_div_mul]
    have small : m / 2 ^ n < 2 ^ 54 - 1 := by
      rw [Nat.div_lt_iff_lt_mul (Nat.two_pow_pos n)]
      rw [Nat.pow_succ] at bound
      omega
    dsimp only
    generalize m / 2 ^ n = k at small
    rcases Nat.mod_two_eq_zero_or_one k with even | odd
    · rw [even]
      change k / 2 + 0 < 2 ^ 53
      omega
    · rw [odd]
      change k / 2 + 1 < 2 ^ 53
      omega

/-! ### Rounding below a cap -/

theorem shift_exact (m : Nat) (e : Int) :
    shiftToTargetExponent .binary64 m e .exact =
      ((⟨m, false, false⟩ : ExtendedMantissa) >>> (max (m.log2 + 1 + e - 53) (-1074) - e).toNat,
        e + (max (m.log2 + 1 + e - 53) (-1074) - e).toNat) := rfl

theorem round_capped {m : Nat} {e limit : Int} (sign : Sign) (below : e ≤ limit)
    (least : -1074 ≤ limit) (bound : 2 * m < (2 ^ 54 - 1) * 2 ^ (limit - e).toNat) :
    ∃ f e', roundWithAccuracy .binary64 sign m e .exact = signed sign f e' ∧ f < 2 ^ 53 ∧
      -1074 ≤ e' ∧ e' ≤ limit := by
  have first := shift_exact m e
  have bits : m.log2 ≤ 53 + (limit - e).toNat - 1 := by
    by_cases zero : m = 0
    · subst zero
      exact Nat.zero_le _
    · have wide : m < 2 ^ (53 + (limit - e).toNat) := by
        rw [Nat.pow_add]
        omega
      have log := (Nat.log2_lt zero).2 wide
      omega
  have target : max (m.log2 + 1 + e - 53) (-1074) ≤ limit := by omega
  generalize shifted : (max (m.log2 + 1 + e - 53) (-1074) - e).toNat = n at first
  have floor : m / 2 ^ n < 2 ^ 53 := by
    rw [Nat.div_lt_iff_lt_mul (Nat.two_pow_pos n), ← Nat.pow_add]
    refine Nat.lt_of_lt_of_le Nat.lt_log2_self (Nat.pow_le_pow_right (by decide) ?_)
    omega
  have near := roundedMantissa_le ((⟨m, false, false⟩ : ExtendedMantissa) >>> n)
  rw [mantissa_shiftRight] at near
  have bit := Bool.toNat_le ((⟨m, false, false⟩ : ExtendedMantissa) >>> n).roundBit
  -- Only a mantissa that is shifted less than up to the cap may overflow.
  have fits : ((⟨m, false, false⟩ : ExtendedMantissa) >>> n).roundedMantissa < 2 ^ 53 ∨
      e + n + 1 ≤ limit := by
    by_cases full : e + n = limit
    · have same : (limit - e).toNat = n := by omega
      rw [same] at bound
      exact .inl (roundedMantissa_shiftRight_lt bound)
    · exact .inr (by omega)
  by_cases small : ((⟨m, false, false⟩ : ExtendedMantissa) >>> n).roundedMantissa < 2 ^ 53
  · refine ⟨_, _, roundWithAccuracy_eq first (shift_fitting .exact small (by omega)), small, ?_⟩
    omega
  · have overflown : ((⟨m, false, false⟩ : ExtendedMantissa) >>> n).roundedMantissa = 2 ^ 53 := by
      dsimp only at near
      omega
    have second := shift_overflown (e := e + n) (by omega)
    rw [← overflown] at second
    refine ⟨_, _, roundWithAccuracy_eq first second, by decide, ?_⟩
    omega

/-! ### Capped numbers -/

/-- Zero, or a positive number with an exponent up to a limit. -/
def CappedValue (limit : Int) (u : UnpackedFloat) : Prop :=
  (∃ sign, u = .zero sign) ∨ ∃ m e pos, u = .finite .positive m e pos ∧ e ≤ limit

def Capped (limit : Int) (x : Float) : Prop := CappedValue limit x.toModel.unpack

theorem capped_pack_zero (limit : Int) (sign : Sign) :
    CappedValue limit (Float.Model.pack (.zero sign)).unpack := by
  cases sign <;> exact .inl ⟨_, rfl⟩

theorem capped_pack_finite {m : Nat} {e limit : Int} (pos : 0 < m) (bound : m < 2 ^ 53)
    (least : -1074 ≤ e) (most : e ≤ 971) (below : e ≤ limit) :
    CappedValue limit (Float.Model.pack (.finite .positive m e pos)).unpack := by
  obtain ⟨e', packed, exponent⟩ := unpack_pack .positive pos bound least most
  exact .inr ⟨m, e', pos, packed, by omega⟩

theorem capped_roundWithAccuracy {m : Nat} {e limit : Int} (below : e ≤ limit)
    (least : -1074 ≤ limit) (most : limit ≤ 971)
    (bound : 2 * m < (2 ^ 54 - 1) * 2 ^ (limit - e).toNat) :
    CappedValue limit
      (Float.Model.pack (roundWithAccuracy .binary64 .positive m e .exact)).unpack := by
  obtain ⟨f, e', rounded, fits, least', below'⟩ := round_capped .positive below least bound
  rw [rounded]
  by_cases none : f = 0
  · rw [signed, dif_pos none]
    exact capped_pack_zero limit .positive
  · rw [signed, dif_neg none]
    exact capped_pack_finite _ fits least' (by omega) below'

theorem capped_round {m : Nat} {e limit : Int} (below : e ≤ limit) (least : -1074 ≤ limit)
    (most : limit ≤ 971) (bound : 2 * m < (2 ^ 54 - 1) * 2 ^ (limit - e).toNat) :
    CappedValue limit (Float.Model.pack (round .binary64 .positive m e)).unpack := by
  have steps : ∃ k : Nat, round .binary64 .positive m e =
      roundWithAccuracy .binary64 .positive (m <<< k) (e - k) .exact := ⟨_, rfl⟩
  obtain ⟨k, rounded⟩ := steps
  rw [rounded]
  refine capped_roundWithAccuracy (by omega) least most ?_
  have longer : (limit - (e - k)).toNat = (limit - e).toNat + k := by omega
  rw [longer, Nat.shiftLeft_eq, Nat.pow_add, ← Nat.mul_assoc, ← Nat.mul_assoc]
  exact Nat.mul_lt_mul_of_pos_right bound (Nat.two_pow_pos k)

theorem normalize_positive {m : Nat} {e : Int} (pos : 0 < m) :
    UnpackedFloat.normalize .binary64 m e .positive = round .binary64 .positive m e := by
  have above : Ord.compare (m : Int) 0 = .gt := Int.compare_eq_gt.2 (by omega)
  unfold UnpackedFloat.normalize
  rw [above]
  rfl

theorem add_positive {m m' : Nat} {e e' : Int} (pos : 0 < m) (pos' : 0 < m') :
    UnpackedFloat.add .binary64 (.finite .positive m e pos) (.finite .positive m' e' pos') =
      round .binary64 .positive
        (m * 2 ^ (e - min e e').toNat + m' * 2 ^ (e' - min e e').toNat) (min e e') := by
  rw [← normalize_positive (Nat.add_pos_left (Nat.mul_pos pos (Nat.two_pow_pos _)) _),
    ← Nat.shiftLeft_eq, ← Nat.shiftLeft_eq]
  rfl

namespace Capped

variable {limit limit' : Int} {x y : Float}

theorem beq_self (h : Capped limit x) : (x == x) = true := by
  change (x.toModel.unpack.compare x.toModel.unpack == some .eq) = true
  rcases h with ⟨sign, same⟩ | ⟨m, e, pos, same, -⟩
  · rw [same]
    rfl
  · rw [same]
    change (some ((Ord.compare e e).then (Ord.compare m m)) == some .eq) = true
    rw [Int.compare_eq_eq.2 rfl, Nat.compare_eq_eq.2 rfl]
    rfl

theorem mul (h : Capped limit x) (h' : Capped limit' y) (least : -1128 ≤ limit + limit')
    (most : limit + limit' + 54 ≤ 971) : Capped (limit + limit' + 54) (x * y) := by
  change CappedValue _ (Float.Model.pack (UnpackedFloat.mul .binary64 x.toModel.unpack
    y.toModel.unpack)).unpack
  rcases h with ⟨sign, same⟩ | ⟨m, e, pos, same, below⟩ <;>
    rcases h' with ⟨sign', same'⟩ | ⟨m', e', pos', same', below'⟩ <;> rw [same, same']
  · exact capped_pack_zero _ _
  · exact capped_pack_zero _ _
  · exact capped_pack_zero _ _
  · -- A product has at most the digits of both factors.
    have small := (unpack_finite same).1
    have small' := (unpack_finite same').1
    have product : m * m' < 2 ^ 53 * 2 ^ 53 := Nat.mul_lt_mul'' small small'
    have shift : 54 ≤ (limit + limit' + 54 - (e + e')).toNat := by omega
    have power : 2 ^ 54 ≤ 2 ^ (limit + limit' + 54 - (e + e')).toNat :=
      Nat.pow_le_pow_right (by decide) shift
    refine capped_roundWithAccuracy (by omega) (by omega) most ?_
    omega

theorem add (h : Capped limit x) (h' : Capped limit' y) (far : limit' + 54 < limit)
    (least : -1074 ≤ limit') (most : limit ≤ 971) : Capped limit (x + y) := by
  change CappedValue _ (Float.Model.pack (UnpackedFloat.add .binary64 x.toModel.unpack
    y.toModel.unpack)).unpack
  rcases h with ⟨sign, same⟩ | ⟨m, e, pos, same, below⟩ <;>
    rcases h' with ⟨sign', same'⟩ | ⟨m', e', pos', same', below'⟩ <;> rw [same, same']
  · cases sign <;> cases sign' <;> exact capped_pack_zero _ _
  · have bounds := unpack_finite same'
    exact capped_pack_finite pos' bounds.1 bounds.2.1 bounds.2.2.1 (by omega)
  · have bounds := unpack_finite same
    exact capped_pack_finite pos bounds.1 bounds.2.1 bounds.2.2.1 below
  · have small := (unpack_finite same).1
    have small' := (unpack_finite same').1
    rw [add_positive]
    refine capped_round (by omega) (by omega) most ?_
    -- In units of the smaller exponent the second number is below the gap that the first leaves.
    have up : 2 ^ (limit - min e e').toNat =
        2 ^ (limit - e).toNat * 2 ^ (e - min e e').toNat := by
      rw [← Nat.pow_add]
      congr 1
      omega
    have up' : 2 ^ 55 * 2 ^ (e' - min e e').toNat ≤ 2 ^ (limit - min e e').toNat := by
      rw [← Nat.pow_add]
      exact Nat.pow_le_pow_right (by decide) (by omega)
    have some := Nat.two_pow_pos (limit - min e e').toNat
    have first : m * 2 ^ (e - min e e').toNat ≤ (2 ^ 53 - 1) * 2 ^ (limit - min e e').toNat := by
      rw [up, ← Nat.mul_assoc]
      have fits : m ≤ 2 ^ 53 - 1 := by omega
      exact Nat.mul_le_mul_right _
        (Nat.le_trans fits (Nat.le_mul_of_pos_right _ (Nat.two_pow_pos _)))
    have second : m' * 2 ^ (e' - min e e').toNat ≤ 2 ^ 53 * 2 ^ (e' - min e e').toNat :=
      Nat.mul_le_mul_right _ (by omega)
    omega

end Capped

theorem capped_total {terms : List Float} (limit limit' : Int)
    (h : ∀ x ∈ terms, Capped limit' x) (far : limit' + 54 < limit) (least : -1074 ≤ limit')
    (most : limit ≤ 971) : Capped limit (Scalar.total terms) := by
  have start : Capped limit (Scalar.emptySum : Float) := .inl ⟨.negative, rfl⟩
  unfold Scalar.total
  generalize (Scalar.emptySum : Float) = sum at start
  induction terms generalizing sum with
  | nil => exact start
  | cons x rest ih =>
    obtain ⟨first, others⟩ := List.forall_mem_cons.1 h
    exact ih others _ (start.add first far least most)

/-! ### Whole numbers -/

theorem capped_toFloat (n : UInt64) : Capped 12 n.toFloat := by
  change CappedValue 12
    (Float.Model.pack (UnpackedFloat.normalize .binary64 (n.toNat : Int) 0 .positive)).unpack
  by_cases zero : n.toNat = 0
  · rw [zero]
    exact .inl ⟨.positive, rfl⟩
  · rw [normalize_positive (Nat.pos_of_ne_zero zero)]
    have bound := n.toNat_lt
    refine capped_round (by decide) (by decide) (by decide) ?_
    have power : (12 - 0 : Int).toNat = 12 := rfl
    rw [power]
    omega

theorem capped_ofNat (n : Nat) : Capped 12 (Scalar.ofInt n : Float) := by
  change Capped 12 (nearestFloat n)
  rw [nearestFloat, if_neg (by omega)]
  exact capped_toFloat _

theorem unpack_of_pos {x : Float} (finite : x.isFinite = true) (h : Scalar.zero < x) :
    ∃ m e pos, x.toModel.unpack = .finite .positive m e pos := by
  have above := (lt_iff _ _).1 h
  have zero : (Scalar.zero : Float).toModel.unpack = .zero .positive := rfl
  rw [zero] at above
  change x.toModel.unpack.isFinite = true at finite
  generalize x.toModel.unpack = u at above finite
  rcases u with sign | _ | sign | ⟨_ | _, m, e, pos⟩
  · cases finite
  · cases finite
  · cases above
  · cases above
  · exact ⟨m, e, pos, rfl⟩

theorem le_self {x : Float} (finite : x.isFinite = true) : x ≤ x := by
  refine (le_iff x x).2 ⟨.eq, ?_, rfl⟩
  change x.toModel.unpack.isFinite = true at finite
  generalize x.toModel.unpack = u at finite
  have same (e : Int) (m : Nat) : (Ord.compare e e).then (Ord.compare m m) = .eq := by
    rw [Int.compare_eq_eq.2 rfl, Nat.compare_eq_eq.2 rfl]
    rfl
  rcases u with sign | _ | sign | ⟨_ | _, m, e, pos⟩
  · cases finite
  · cases finite
  · rfl
  · exact congrArg (fun o : Ordering => some o.swap) (same e m)
  · exact congrArg some (same e m)

theorem neg_toFloat_lt (n : UInt64) {x : Float} (finite : x.isFinite = true)
    (h : Scalar.zero < x) : -n.toFloat < x := by
  obtain ⟨m, e, pos, same⟩ := unpack_of_pos finite h
  rw [lt_iff, same]
  change (Float.Model.pack n.toFloat.toModel.unpack.neg).unpack.compare _ = _
  rcases capped_toFloat n with ⟨sign, same'⟩ | ⟨m', e', pos', same', -⟩
  · rw [same']
    cases sign <;> rfl
  · have bounds := unpack_finite same'
    obtain ⟨e'', packed, -⟩ := unpack_pack .negative pos' bounds.1 bounds.2.1 bounds.2.2.1
    rw [same']
    change (Float.Model.pack (.finite .negative m' e' pos')).unpack.compare _ = _
    rw [packed]
    rfl

/-! ### Priorities -/

theorem capped_lowest : Capped 12 (PriorityBounds.lowest : Float) :=
  .inr ⟨0x14F8B588E368F1, -69, by decide, rfl, by decide⟩

theorem capped_effective {b : PriorityBounds Float} (valid : b.isValid = true) {submitted : Int}
    {effective : Float} (h : b.effective? submitted = some effective) : Capped 12 effective := by
  simp only [PriorityBounds.isValid, Bool.and_eq_true, decide_eq_true_eq] at valid
  obtain ⟨⟨⟨finite, finite'⟩, positive⟩, order⟩ := valid
  obtain ⟨clamped, found, rfl⟩ := Option.map_eq_some_iff.1 h
  split
  · exact capped_lowest
  · split
    · exact capped_ofNat 1000000
    · rename_i above below
      rw [Scalar.clamp?, if_pos (le_of_lt order)] at found
      dsimp only at found
      by_cases low : Scalar.ofInt submitted < b.min
      · rw [if_pos low] at found
        split at found <;> cases found
        · exact absurd (le_self finite') below
        · exact absurd (le_self finite) above
      · rw [if_neg low] at found
        split at found <;> cases found
        · exact absurd (le_self finite') below
        · -- Between the bounds the priority is the submitted number, which has 64 bits.
          change ¬ nearestFloat submitted < b.min at low
          change Capped 12 (nearestFloat submitted)
          unfold nearestFloat at low ⊢
          split
          · rename_i negative
            rw [if_pos negative] at low
            exact absurd (neg_toFloat_lt _ finite positive) low
          · exact capped_toFloat _

end Matchmaker.Double
