import Matchmaker.Proofs.Scalar.Conversion
import Matchmaker.Settings.Policy

/-!
How weights follow the priorities they are made from. A higher priority has no smaller weight and
the two extreme weights are the least and the greatest, as long as no priority that is kept lies
above the greatest one. Nothing in the check of the bounds sees to that.
-/
namespace Matchmaker

/-! ### The order of weights -/

namespace Double

variable {x y : Float}

theorem not_lt_of_le (h : x ≤ y) : ¬ y < x := by
  intro below
  obtain ⟨o, compared, atMost⟩ := (le_iff x y).1 h
  rw [lt_iff, compare_swap, compared] at below
  cases o <;> simp at below atMost

theorem le_self_of_isWeight (weight : Scalar.isWeight x = true) : x ≤ x :=
  le_of_beq_self (beq_self_of_isWeight weight)

theorem le_iff_not_lt (weight : Scalar.isWeight x = true) (weight' : Scalar.isWeight y = true) :
    x ≤ y ↔ ¬ y < x :=
  ⟨not_lt_of_le, le_of_not_lt (beq_self_of_isWeight weight') (beq_self_of_isWeight weight)⟩

theorem le_iff_toNat_toBits (weight : Scalar.isWeight x = true)
    (weight' : Scalar.isWeight y = true) : x ≤ y ↔ x.toBits.toNat ≤ y.toBits.toNat := by
  rw [le_iff_not_lt weight weight', ← toNat_toBits_lt_iff weight' weight, Nat.not_lt]

theorem trans_le {z : Float} (weight : Scalar.isWeight x = true)
    (weight' : Scalar.isWeight y = true) (weight'' : Scalar.isWeight z = true) (h : x ≤ y)
    (h' : y ≤ z) : x ≤ z := by
  rw [le_iff_toNat_toBits weight weight'] at h
  rw [le_iff_toNat_toBits weight' weight''] at h'
  rw [le_iff_toNat_toBits weight weight'']
  exact Nat.le_trans h h'

theorem isWeight_toFloat {n : UInt64} (pos : 0 < n.toNat) : Scalar.isWeight n.toFloat = true := by
  obtain ⟨f, e, pos', same, -⟩ := unpack_toFloat pos
  exact isWeight_iff.2 ⟨f, e, pos', same⟩

theorem ofInt_of_pos {n : Int} (pos : 0 < n) (fits : n < 2 ^ 63) :
    ∃ k : UInt64, (Scalar.ofInt n : Float) = k.toFloat ∧ (k.toNat : Int) = n := by
  refine ⟨n.natAbs.toUInt64, if_neg (by omega), ?_⟩
  have value : n.natAbs.toUInt64.toNat = n.natAbs := by
    rw [Nat.toUInt64, UInt64.toNat_ofNat', Nat.mod_eq_of_lt (by omega)]
  omega

theorem isWeight_ofInt {n : Int} (pos : 0 < n) (fits : n < 2 ^ 63) :
    Scalar.isWeight (Scalar.ofInt n : Float) = true := by
  obtain ⟨k, same, value⟩ := ofInt_of_pos pos fits
  rw [same]
  exact isWeight_toFloat (by omega)

theorem ofInt_le_ofInt {m n : Int} (pos : 0 < m) (h : m ≤ n) (fits : n < 2 ^ 63) :
    (Scalar.ofInt m : Float) ≤ Scalar.ofInt n := by
  rw [le_iff_toNat_toBits (isWeight_ofInt pos (by omega)) (isWeight_ofInt (by omega) fits)]
  obtain ⟨k, same, value⟩ := ofInt_of_pos pos (by omega)
  obtain ⟨l, same', value'⟩ := ofInt_of_pos (n := n) (by omega) fits
  rw [same, same']
  exact toNat_toBits_toFloat_le (by omega) (by omega)

end Double

namespace PriorityBounds

variable {b : PriorityBounds Float} {m n : Int} {v w : Float}

def Submittable (n : Int) : Prop := -2 ^ 63 ≤ n ∧ n < 2 ^ 63
  deriving Decidable

/-- A priority that is kept as its own weight. -/
structure Kept (b : PriorityBounds Float) (n : Int) : Prop where
  above : b.min < Scalar.ofInt n
  below : (Scalar.ofInt n : Float) < b.max

/-- A priority that is kept though it lies above the weight of those at the upper bound. -/
structure Exceeds (b : PriorityBounds Float) (n : Int) : Prop extends b.Kept n where
  large : (highest : Float) < Scalar.ofInt n

/-- The order of the priorities is that of the weights, and the extreme weights are extreme. -/
structure Extremal (b : PriorityBounds Float) : Prop where
  weighed : ∀ n, Submittable n → ∃ w, b.effective? n = some w ∧ Scalar.isWeight w = true
  ordered : ∀ m n, Submittable m → Submittable n → m ≤ n →
    ∀ v w, b.effective? m = some v → b.effective? n = some w → v ≤ w
  least : ∀ n w, Submittable n → b.effective? n = some w → lowest ≤ w
  greatest : ∀ n w, Submittable n → b.effective? n = some w → w ≤ highest

/-! ### The three cases of a weight -/

theorem min_lt_max (valid : b.isValid = true) : b.min < b.max := by
  simp only [isValid, Bool.and_eq_true, decide_eq_true_eq] at valid
  exact valid.2

theorem isWeight_min (valid : b.isValid = true) : Scalar.isWeight b.min = true := by
  simp only [isValid, Bool.and_eq_true, decide_eq_true_eq] at valid
  simp only [Scalar.isWeight, Bool.and_eq_true, decide_eq_true_eq]
  exact ⟨valid.1.1.1, valid.1.2⟩

theorem isWeight_max (valid : b.isValid = true) : Scalar.isWeight b.max = true := by
  have above := (Bool.and_eq_true_iff.1 (isWeight_min valid)).2
  have order := min_lt_max valid
  simp only [isValid, Bool.and_eq_true, decide_eq_true_eq] at valid
  simp only [Scalar.isWeight, Bool.and_eq_true, decide_eq_true_eq] at above ⊢
  exact ⟨valid.1.1.2, Double.trans_lt above order⟩

theorem pos_of_not_lt (weight : Scalar.isWeight w = true) (h : ¬ Scalar.ofInt n < w) : 0 < n := by
  simp only [Scalar.isWeight, Bool.and_eq_true, decide_eq_true_eq] at weight
  by_contra small
  refine h ?_
  by_cases zero : n = 0
  · rw [zero]
    exact weight.2
  · change nearestFloat n < w
    rw [nearestFloat, if_pos (by omega)]
    exact Double.neg_toFloat_lt _ weight.1 weight.2

inductive Weighs (b : PriorityBounds Float) (n : Int) : Float → Prop where
  | lower : Scalar.ofInt n ≤ b.min → Weighs b n lowest
  | upper : 0 < n → b.max ≤ Scalar.ofInt n → Weighs b n highest
  | kept : 0 < n → b.Kept n → Weighs b n (Scalar.ofInt n)

theorem weighs_of_effective? (valid : b.isValid = true) (submittable : Submittable n)
    (found : b.effective? n = some w) : b.Weighs n w := by
  have order := min_lt_max valid
  have number := Double.beq_self_of_isWeight (isWeight_min valid)
  have number' := Double.beq_self_of_isWeight (isWeight_max valid)
  rw [effective?, Scalar.clamp?, if_pos (Double.le_of_lt order), Option.map_some,
    Option.some.injEq] at found
  subst found
  by_cases low : Scalar.ofInt n < b.min
  · rw [if_pos low, if_neg (Scalar.Ordered.asymm order),
      if_pos (Double.le_self_of_isWeight (isWeight_min valid))]
    exact .lower (Double.le_of_lt low)
  · have pos := pos_of_not_lt (isWeight_min valid) low
    have between := Double.beq_self_of_isWeight (Double.isWeight_ofInt pos submittable.2)
    rw [if_neg low]
    by_cases high : b.max < Scalar.ofInt n
    · rw [if_pos high, if_neg (fun atMost => Double.not_lt_of_le atMost order),
        if_pos (Double.le_self_of_isWeight (isWeight_max valid))]
      exact .upper pos (Double.le_of_lt high)
    · rw [if_neg high]
      split
      · exact .lower ‹_›
      · split
        · exact .upper pos ‹_›
        · rename_i least most
          refine .kept pos ⟨?_, ?_⟩
          · by_contra small
            exact least (Double.le_of_not_lt number between small)
          · by_contra large
            exact most (Double.le_of_not_lt between number' large)

/-! ### How weights are ordered -/

theorem weighed (valid : b.isValid = true) (n : Int) :
    ∃ w, b.effective? n = some w ∧ Scalar.isWeight w = true := by
  obtain ⟨w, found⟩ := exists_effective valid n
  exact ⟨w, found, Double.isWeight_effective valid found⟩

theorem lowest_le_highest : (lowest : Float) ≤ highest := by
  rw [Double.le_iff_toNat_toBits Double.isWeight_lowest Double.isWeight_highest]
  decide

theorem lowest_le (valid : b.isValid = true) (submittable : Submittable n)
    (found : b.effective? n = some w) : lowest ≤ w := by
  cases weighs_of_effective? valid submittable found with
  | lower => exact Double.le_self_of_isWeight Double.isWeight_lowest
  | upper => exact lowest_le_highest
  | kept pos =>
    have one : Scalar.isWeight (Scalar.ofInt 1 : Float) = true :=
      Double.isWeight_ofInt (by decide) (by decide)
    have below : (lowest : Float) ≤ Scalar.ofInt 1 := by
      rw [Double.le_iff_toNat_toBits Double.isWeight_lowest one]
      decide
    exact Double.trans_le Double.isWeight_lowest one (Double.isWeight_ofInt pos submittable.2) below
      (Double.ofInt_le_ofInt (by decide) (by omega) submittable.2)

theorem le_highest_iff (valid : b.isValid = true) (submittable : Submittable n)
    (found : b.effective? n = some w) : w ≤ highest ↔ ¬ b.Exceeds n := by
  cases weighs_of_effective? valid submittable found with
  | lower under =>
    exact iff_of_true lowest_le_highest fun exceeds => Double.not_lt_of_le under exceeds.above
  | upper _ reached =>
    exact iff_of_true (Double.le_self_of_isWeight Double.isWeight_highest)
      fun exceeds => Double.not_lt_of_le reached exceeds.below
  | kept pos inside =>
    rw [Double.le_iff_not_lt (Double.isWeight_ofInt pos submittable.2) Double.isWeight_highest]
    exact not_congr ⟨fun large => ⟨inside, large⟩, Exceeds.large⟩

/-- Of two priorities the higher one has the smaller weight only where it is cut to the upper bound
and the lower one is kept above the weight of that bound. -/
theorem le_weight_iff (valid : b.isValid = true) (submittable : Submittable m)
    (submittable' : Submittable n) (h : m ≤ n) (found : b.effective? m = some v)
    (found' : b.effective? n = some w) :
    v ≤ w ↔ ¬ (b.Exceeds m ∧ b.max ≤ Scalar.ofInt n) := by
  have weight (pos : 0 < m) := Double.isWeight_ofInt pos submittable.2
  have weight' (pos : 0 < m) := Double.isWeight_ofInt (n := n) (by omega) submittable'.2
  have order (pos : 0 < m) := Double.ofInt_le_ofInt pos h submittable'.2
  cases weighs_of_effective? valid submittable found with
  | lower under =>
    exact iff_of_true (lowest_le valid submittable' found')
      fun exceeds => Double.not_lt_of_le under exceeds.1.above
  | upper pos reached =>
    have reached' := Double.trans_le (isWeight_max valid) (weight pos) (weight' pos) reached
      (order pos)
    refine iff_of_true ?_ fun exceeds => Double.not_lt_of_le reached exceeds.1.below
    cases weighs_of_effective? valid submittable' found' with
    | lower under' =>
      have turned := Double.trans_le (isWeight_max valid) (weight' pos) (isWeight_min valid)
        reached' under'
      exact absurd (min_lt_max valid) (Double.not_lt_of_le turned)
    | upper => exact Double.le_self_of_isWeight Double.isWeight_highest
    | kept _ inside' => exact absurd inside'.below (Double.not_lt_of_le reached')
  | kept pos inside =>
    cases weighs_of_effective? valid submittable' found' with
    | lower under' =>
      have under := Double.trans_le (weight pos) (weight' pos) (isWeight_min valid) (order pos)
        under'
      exact absurd inside.above (Double.not_lt_of_le under)
    | upper _ reached' => rw [le_highest_iff valid submittable found, and_iff_left reached']
    | kept _ inside' =>
      exact iff_of_true (order pos) fun exceeds => Double.not_lt_of_le exceeds.2 inside'.below

/-- The weights are as they should be exactly if no priority exceeds the greatest one. -/
theorem extremal_iff (valid : b.isValid = true) :
    b.Extremal ↔ ∀ n, Submittable n → ¬ b.Exceeds n := by
  constructor
  · intro extremal n submittable
    obtain ⟨w, found, -⟩ := extremal.weighed n submittable
    exact (le_highest_iff valid submittable found).1 (extremal.greatest n w submittable found)
  · intro none
    refine ⟨fun n _ => weighed valid n, ?_, fun n w => lowest_le valid, ?_⟩
    · intro m n submittable submittable' h v w found found'
      refine (le_weight_iff valid submittable submittable' h found found').2 fun exceeds => ?_
      exact none m submittable exceeds.1
    · intro n w submittable found
      exact (le_highest_iff valid submittable found).2 (none n submittable)

theorem not_exceeds_of_le (h : b.max ≤ highest) : ¬ b.Exceeds n :=
  fun exceeds => Double.not_lt_of_le h (Double.trans_lt exceeds.large exceeds.below)

theorem extremal_standard : (Settings.standard : Settings Float).bounds.Extremal :=
  (extremal_iff (by decide)).2 fun _ _ => not_exceeds_of_le (by decide)

structure Graded (b : PriorityBounds Float) : Prop where
  weighed : ∀ n, ∃ w, b.effective? n = some w ∧ Scalar.isWeight w = true
  least : ∀ n w, Submittable n → b.effective? n = some w → lowest ≤ w
  greatest : ∀ n w, Submittable n → b.effective? n = some w → (w ≤ highest ↔ ¬ b.Exceeds n)
  ordered : ∀ m n v w, Submittable m → Submittable n → m ≤ n → b.effective? m = some v →
    b.effective? n = some w → (v ≤ w ↔ ¬ (b.Exceeds m ∧ b.max ≤ Scalar.ofInt n))
  extremal : b.Extremal ↔ ∀ n, Submittable n → ¬ b.Exceeds n
  moderate : b.max ≤ highest → b.Extremal

theorem graded (valid : b.isValid = true) : b.Graded where
  weighed := weighed valid
  least _ _ := lowest_le valid
  greatest _ _ := le_highest_iff valid
  ordered _ _ _ _ := le_weight_iff valid
  extremal := extremal_iff valid
  moderate h := (extremal_iff valid).2 fun _ _ => not_exceeds_of_le h

def wide : PriorityBounds Float := ⟨Scalar.ofInt 1, Scalar.ofInt 2000000⟩

theorem graded_wide : wide.isValid = true ∧ wide.Graded :=
  ⟨by decide, graded (by decide)⟩

/-- A job of priority 1500000 weighs more than one of priority 2000000. -/
theorem not_extremal_wide : wide.isValid = true ∧ ¬ wide.Extremal := by
  refine ⟨by decide, fun extremal => ?_⟩
  have inOrder := extremal.ordered 1500000 2000000 (by decide) (by decide) (by decide)
    (Scalar.ofInt 1500000) highest rfl rfl
  exact absurd inOrder (by decide)

end PriorityBounds

end Matchmaker
