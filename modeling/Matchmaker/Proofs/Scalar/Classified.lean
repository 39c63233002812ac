import Matchmaker.Proofs.Scalar.Positive
import Matchmaker.Proofs.Scalar.Rational

/-!
Numbers whose weights fall into classes as they compare. For doubles the classes are those of the
bit patterns: the bits of a positive double count up with its exponent and mantissa, so that larger
bits are a larger number, and weights that compare as equal have the same bits.
-/
namespace Matchmaker

/-- Weights are in order as their classes are, and equal in one class only. -/
class Scalar.Classified (α : Type) [Scalar α] : Prop where
  irrefl (x : α) : ¬ x < x
  trans {x y z : α} : x < y → y < z → x < z
  lt_of_compareClass {x y : α} : Scalar.isWeight x = true → Scalar.isWeight y = true →
    Scalar.compareClass x y = .lt → x < y
  gt_of_compareClass {x y : α} : Scalar.isWeight x = true → Scalar.isWeight y = true →
    Scalar.compareClass x y = .gt → y < x
  eq_of_compareClass {x y : α} : Scalar.isWeight x = true → Scalar.isWeight y = true →
    Scalar.compareClass x y = .eq → x = y
  beq_iff {x y : α} : Scalar.isWeight x = true → Scalar.isWeight y = true →
    ((x == y) = true ↔ x = y)

instance : Scalar.Classified ℚ where
  irrefl := lt_irrefl
  trans := lt_trans
  lt_of_compareClass _ _ := compare_lt_iff_lt.1
  gt_of_compareClass _ _ := compare_gt_iff_gt.1
  eq_of_compareClass _ _ := compare_eq_iff_eq.1
  beq_iff _ _ := beq_iff_eq

namespace Double

open Float.Model Float.Model.UnpackedFloat Reciprocal

/-! ### Bits -/

theorem toNat_unpackMantissa (b : BitVec 64) :
    (@unpackMantissa .binary64 b).toNat = b.toNat % 2 ^ 52 := by
  unfold unpackMantissa
  rw [BitVec.toNat_cast, BitVec.extractLsb_toNat, Nat.shiftRight_zero]
  rfl

theorem toNat_unpackExponent (b : BitVec 64) :
    (@unpackExponent .binary64 b).toNat = b.toNat / 2 ^ 52 % 2 ^ 11 := by
  unfold unpackExponent
  rw [BitVec.toNat_cast, BitVec.extractLsb_toNat, Nat.shiftRight_eq_div_pow]
  rfl

theorem toNat_unpackSign (b : BitVec 64) : (@unpackSign .binary64 b).toNat = b.toNat / 2 ^ 63 := by
  have bound : b.toNat / 2 ^ 63 < 2 ^ 1 := Nat.div_lt_of_lt_mul b.isLt
  unfold unpackSign
  rw [BitVec.toNat_cast, BitVec.extractLsb_toNat, Nat.shiftRight_eq_div_pow]
  exact Nat.mod_eq_of_lt bound

theorem toNat_lt_of_positive {b : BitVec 64}
    (positive : Sign.ofBitVec (@unpackSign .binary64 b) = .positive) : b.toNat < 2 ^ 63 := by
  have sign := toNat_unpackSign b
  have bound : (@unpackSign .binary64 b).toNat < 2 := BitVec.isLt _
  by_contra large
  have set : @unpackSign .binary64 b = 1#1 := BitVec.eq_of_toNat_eq (by
    change _ = 1
    omega)
  rw [set] at positive
  cases positive

theorem toNat_toBits {x : Float} {m : Nat} {e : Int} {pos : 0 < m}
    (h : x.toModel.unpack = .finite .positive m e pos) :
    (x.toBits.toNat : Int) = (e + 1074) * 2 ^ 52 + m := by
  change UnpackedFloat.unpack .binary64 x.toBits.toBitVec = _ at h
  have mantissa := toNat_unpackMantissa x.toBits.toBitVec
  have exponent := toNat_unpackExponent x.toBits.toBitVec
  change (x.toBits.toBitVec.toNat : Int) = _
  unfold UnpackedFloat.unpack at h
  dsimp only at h
  have bias : (Format.binary64.exponentBias : Int) = 1023 := rfl
  rw [bias] at h
  by_cases top : @unpackExponent .binary64 x.toBits.toBitVec = -1#11
  · rw [if_pos top] at h
    by_cases empty : @unpackMantissa .binary64 x.toBits.toBitVec = 0#52
    · rw [if_pos empty] at h
      cases h
    · rw [if_neg empty] at h
      cases h
  · rw [if_neg top] at h
    by_cases zero : @unpackExponent .binary64 x.toBits.toBitVec = 0#11
    · rw [if_pos zero] at h
      by_cases empty : @unpackMantissa .binary64 x.toBits.toBitVec = 0#52
      · rw [dif_pos empty] at h
        cases h
      · rw [dif_neg empty] at h
        injection h with sign hm he
        have bound := toNat_lt_of_positive sign
        have none := congrArg BitVec.toNat zero
        change _ = 0 at none
        omega
    · rw [if_neg zero] at h
      injection h with sign hm he
      have bound := toNat_lt_of_positive sign
      rw [toNat_implicit] at hm
      omega

theorem eq_of_toNat_toBits {x y : Float} (h : x.toBits.toNat = y.toBits.toNat) : x = y := by
  have same : x.toModel.toBits = y.toModel.toBits := UInt64.toNat_inj.1 h
  obtain ⟨⟨_, _⟩⟩ := x
  obtain ⟨⟨_, _⟩⟩ := y
  cases same
  rfl

theorem compare_positive {m m' : Nat} {e e' : Int} (pos : 0 < m) (pos' : 0 < m') :
    (UnpackedFloat.finite .positive m e pos).compare (.finite .positive m' e' pos') =
      some ((Ord.compare e e').then (Ord.compare m m')) := rfl

section Weights

variable {x y : Float}

theorem toNat_toBits_lt_iff (weight : Scalar.isWeight x = true)
    (weight' : Scalar.isWeight y = true) : x.toBits.toNat < y.toBits.toNat ↔ x < y := by
  obtain ⟨m, e, pos, same⟩ := isWeight_iff.1 weight
  obtain ⟨m', e', pos', same'⟩ := isWeight_iff.1 weight'
  have bits := toNat_toBits same
  have bits' := toNat_toBits same'
  have bounds := unpack_finite same
  have bounds' := unpack_finite same'
  rw [lt_iff, same, same', compare_positive, Option.some.injEq, places_eq_lt]
  constructor
  · intro less
    by_contra other
    omega
  · rintro (less | ⟨rfl, less⟩)
    · have full := bounds'.2.2.2 (by omega)
      omega
    · omega

theorem eq_of_beq (weight : Scalar.isWeight x = true) (weight' : Scalar.isWeight y = true)
    (h : (x == y) = true) : x = y := by
  obtain ⟨m, e, pos, same⟩ := isWeight_iff.1 weight
  obtain ⟨m', e', pos', same'⟩ := isWeight_iff.1 weight'
  rw [beq_iff, same, same', compare_positive, Option.some.injEq, Ordering.then_eq_eq,
    Int.compare_eq_eq, Nat.compare_eq_eq] at h
  obtain ⟨rfl, rfl⟩ := h
  have bits := toNat_toBits same
  have bits' := toNat_toBits same'
  exact eq_of_toNat_toBits (by omega)

theorem beq_self_of_isWeight (weight : Scalar.isWeight x = true) : (x == x) = true :=
  beq_self_of_lt (of_decide_eq_true (Bool.and_eq_true_iff.1 weight).2)

theorem trans_lt {z : Float} (below : x < y) (below' : y < z) : x < z := by
  obtain ⟨left, middle⟩ := numbers_of_lt below
  obtain ⟨-, right⟩ := numbers_of_lt below'
  rw [lt_iff, compare_eq_lt_iff left middle] at below
  rw [lt_iff, compare_eq_lt_iff middle right] at below'
  rw [lt_iff, compare_eq_lt_iff left right]
  exact lt_trans below below'

end Weights

instance : Scalar.Classified Float where
  irrefl _ below := Scalar.Ordered.asymm below below
  trans := trans_lt
  lt_of_compareClass weight weight' classed :=
    (toNat_toBits_lt_iff weight weight').1 (Nat.compare_eq_lt.1 classed)
  gt_of_compareClass weight weight' classed :=
    (toNat_toBits_lt_iff weight' weight).1 (Nat.compare_eq_gt.1 classed)
  eq_of_compareClass _ _ classed := eq_of_toNat_toBits (Nat.compare_eq_eq.1 classed)
  beq_iff weight weight' :=
    ⟨eq_of_beq weight weight', fun same => same ▸ beq_self_of_isWeight weight⟩

/-! ### Priorities -/

theorem isWeight_of_capped {limit : Int} {x : Float} (h : Capped limit x)
    (above : Scalar.zero < x) : Scalar.isWeight x = true := by
  rcases h with ⟨sign, same⟩ | ⟨m, e, pos, same, -⟩
  · rw [zero_lt_iff, same] at above
    rcases above with infinite | ⟨_, _, _, finite⟩
    · cases infinite
    · cases finite
  · exact isWeight_iff.2 ⟨m, e, pos, same⟩

theorem isWeight_lowest : Scalar.isWeight (PriorityBounds.lowest : Float) = true :=
  isWeight_iff.2 ⟨0x14F8B588E368F1, -69, by decide, rfl⟩

theorem isWeight_highest : Scalar.isWeight (PriorityBounds.highest : Float) = true :=
  isWeight_iff.2 ⟨1000000 * 2 ^ 33, -33, by decide, rfl⟩

theorem isWeight_effective {b : PriorityBounds Float} (valid : b.isValid = true) {submitted : Int}
    {effective : Float} (h : b.effective? submitted = some effective) :
    Scalar.isWeight effective = true := by
  have capped := capped_effective valid h
  simp only [PriorityBounds.isValid, Bool.and_eq_true, decide_eq_true_eq] at valid
  obtain ⟨clamped, -, rfl⟩ := Option.map_eq_some_iff.1 h
  split
  · exact isWeight_lowest
  · split
    · exact isWeight_highest
    · rename_i above below
      rw [if_neg above, if_neg below] at capped
      refine isWeight_of_capped capped (trans_lt valid.1.2 ?_)
      by_contra small
      exact above (le_of_not_lt (beq_self_of_lt valid.1.2) capped.beq_self small)

end Double

end Matchmaker
