import Matchmaker.Proofs.Random.Choice
import Matchmaker.Proofs.Scalar.Extended
import Matchmaker.Proofs.Scalar.Positive
import Mathlib.Algebra.Order.BigOperators.Group.List
import Mathlib.Order.Interval.Set.Defs
import Mathlib.Algebra.Order.Field.Basic
import Mathlib.Tactic.Linarith
import Mathlib.Tactic.Positivity

/-!
What a weighted choice comes to. It draws one word if there is a weight, and takes the index of a
weight: with doubles as well, since their sum is above zero and the loop remembers the last weight
that it has passed. With exact weights every roll below the sum falls into the slice of one weight,
as long as that weight, and the remembered one is never needed.
-/
namespace Matchmaker

/-- Weights add up to a number above zero, and no terms to none. -/
class Scalar.Cumulative (α : Type) [Scalar α] : Prop where
  emptySum_le : (Scalar.emptySum : α) ≤ Scalar.zero
  zero_lt_total {terms : List α} : terms ≠ [] → (∀ x ∈ terms, Scalar.isWeight x = true) →
    Scalar.zero < Scalar.total terms
  not_le {x : α} : Scalar.zero < x → ¬ x ≤ Scalar.zero

instance : Scalar.Cumulative Float where
  emptySum_le := (Double.le_iff _ _).2 ⟨.eq, rfl, rfl⟩
  zero_lt_total := Double.zero_lt_total
  not_le {x} above le := by
    obtain ⟨o, compared, below⟩ := (Double.le_iff _ _).1 le
    rw [Double.compare_swap, (Double.lt_iff _ _).1 above] at compared
    cases compared
    cases below

namespace Extended

/-- What a term adds: nothing unless it is a weight. -/
def weightOf (x : Extended) : ℚ := if Scalar.isWeight x then x.toRat else 0

def weightSum (terms : List Extended) : ℚ := (terms.map weightOf).sum

def sumBefore (weights : List Extended) (i : Nat) : ℚ := weightSum (weights.take i)

theorem weightOf_number {w : ℚ} (positive : 0 < w) : weightOf (number w) = w :=
  if_pos (isWeight_iff.2 ⟨w, positive, rfl⟩)

theorem weightOf_of_not_isWeight {x : Extended} (h : Scalar.isWeight x = false) : weightOf x = 0 :=
  if_neg (ne_true_of_eq_false h)

theorem weightOf_nonneg (x : Extended) : 0 ≤ weightOf x := by
  unfold weightOf
  split
  · exact (toRat_pos ‹_›).le
  · exact le_rfl

@[simp] theorem weightSum_cons (x : Extended) (terms : List Extended) :
    weightSum (x :: terms) = weightOf x + weightSum terms := List.sum_cons

theorem total_filter_isWeight (terms : List Extended) :
    Scalar.total (terms.filter Scalar.isWeight) = number (weightSum terms) := by
  rw [total_eq fun _ mem => isFinite_of_isWeight (List.mem_filter.1 mem).2]
  congr 1
  induction terms with
  | nil => rfl
  | cons x rest ih =>
    rw [weightSum_cons, ← ih]
    by_cases weight : Scalar.isWeight x = true
    · rw [List.filter_cons_of_pos weight, List.map_cons, List.sum_cons, weightOf, if_pos weight]
    · rw [List.filter_cons_of_neg weight, weightOf, if_neg weight, zero_add]

theorem weightSum_le_of_sublist {weights terms : List Extended} (h : weights.Sublist terms) :
    weightSum weights ≤ weightSum terms := by
  refine (h.map weightOf).sum_le_sum fun q mem => ?_
  obtain ⟨x, -, rfl⟩ := List.mem_map.1 mem
  exact weightOf_nonneg x

variable {weights : List Extended}

theorem sumBefore_mono {i j : Nat} (h : i ≤ j) : sumBefore weights i ≤ sumBefore weights j :=
  weightSum_le_of_sublist (List.take_sublist_take_left h)

theorem sumBefore_le (i : Nat) : sumBefore weights i ≤ weightSum weights :=
  weightSum_le_of_sublist (List.take_sublist i weights)

theorem sumBefore_nonneg (i : Nat) : 0 ≤ sumBefore weights i :=
  sumBefore_mono (Nat.zero_le i)

theorem sumBefore_succ {i : Nat} {w : ℚ} (positive : 0 < w)
    (found : weights[i]? = some (number w)) :
    sumBefore weights (i + 1) = sumBefore weights i + w := by
  rw [sumBefore, sumBefore, weightSum, List.take_add_one, found, List.map_append, List.sum_append]
  exact congrArg (_ + ·) (List.sum_singleton.trans (weightOf_number positive))

end Extended

instance : Scalar.Cumulative Extended where
  emptySum_le := Extended.number_le.2 le_rfl
  zero_lt_total {terms} any weights := by
    have finite := Extended.total_eq fun x mem => Extended.isFinite_of_isWeight (weights x mem)
    rw [finite, Extended.zero_eq, Extended.number_lt]
    refine List.sum_pos _ (fun q mem => ?_) (by rwa [ne_eq, List.map_eq_nil_iff])
    obtain ⟨x, listed, rfl⟩ := List.mem_map.1 mem
    exact Extended.toRat_pos (weights x listed)
  not_le {x} above := by
    cases x with
    | number q => exact fun le => (Extended.number_lt.1 above).not_ge (Extended.number_le.1 le)
    | infinite negative =>
      cases negative with
      | true => cases above
      | false =>
        rintro (below | same)
        · cases below
        · have equal : Extended.infinite false = .number 0 := of_decide_eq_true same
          cases equal
    | undefined => cases above

namespace Random

variable {α : Type} [Scalar α]

/-! ### One word for an index -/

theorem pickAt_of_no_weight {roll : α} {weights : List α} {i : Nat} {before : α}
    {last : Option Nat} (unweighted : ∀ w ∈ weights, Scalar.isWeight w = false) :
    pickAt roll weights i before last = last := by
  induction weights generalizing i with
  | nil => rfl
  | cons w rest ih =>
    obtain ⟨here, later⟩ := List.forall_mem_cons.1 unweighted
    rw [pickAt, if_neg (ne_true_of_eq_false here), ih later]

theorem pickAt_isWeight (roll : α) {weights : List α} (i : Nat) (before : α) (last : Option Nat)
    (any : ∃ w ∈ weights, Scalar.isWeight w = true) :
    ∃ k w, pickAt roll weights i before last = some (i + k) ∧ weights[k]? = some w ∧
      Scalar.isWeight w = true := by
  induction weights generalizing i before last with
  | nil => obtain ⟨w, mem, -⟩ := any; cases mem
  | cons w rest ih =>
    -- an index that is found in the rest
    have later (before : α) (last : Option Nat) (any : ∃ w ∈ rest, Scalar.isWeight w = true) :
        ∃ k w', pickAt roll rest (i + 1) before last = some (i + k) ∧ (w :: rest)[k]? = some w' ∧
          Scalar.isWeight w' = true := by
      obtain ⟨k, w', picked, found, weight⟩ := ih (i + 1) before last any
      exact ⟨k + 1, w', by rw [picked, Nat.add_right_comm, Nat.add_assoc], found, weight⟩
    unfold pickAt
    by_cases weight : Scalar.isWeight w = true
    · rw [if_pos weight]
      split
      · exact ⟨0, w, rfl, rfl, weight⟩
      · by_cases more : ∃ w ∈ rest, Scalar.isWeight w = true
        · exact later _ _ more
        · have unweighted : ∀ w ∈ rest, Scalar.isWeight w = false := by simpa using more
          exact ⟨0, w, pickAt_of_no_weight unweighted, rfl, weight⟩
    · rw [if_neg weight]
      obtain ⟨w', mem, weight'⟩ := any
      rcases List.mem_cons.1 mem with rfl | mem
      · exact absurd weight' weight
      · exact later _ _ ⟨w', mem, weight'⟩

def rollOf (bound : α) (word : UInt64) : α :=
  Scalar.ofInt (word >>> 12).toNat / Scalar.ofInt (Nat.pow 2 52) * bound

structure Picks (weights : List α) : Prop where
  none_iff : pickWeighted weights = pure none ↔ ∀ w ∈ weights, Scalar.isWeight w = false
  /-- One word is drawn if there is a weight, and the index is one of a weight. -/
  index : (∃ w ∈ weights, Scalar.isWeight w = true) →
    Scalar.isFinite (Scalar.total (weights.filter Scalar.isWeight)) = true →
      ∃ index : UInt64 → Nat,
        pickWeighted weights = (Draw.word64.bind fun word => pure (some (index word))) ∧
          ∀ word, ∃ w, weights[index word]? = some w ∧ Scalar.isWeight w = true

section Cumulative

variable [Scalar.Cumulative α] {weights : List α}

theorem zero_lt_total_of_weight (any : ∃ w ∈ weights, Scalar.isWeight w = true) :
    Scalar.zero < Scalar.total (weights.filter Scalar.isWeight) := by
  obtain ⟨w, mem, weight⟩ := any
  exact Scalar.Cumulative.zero_lt_total (List.ne_nil_of_mem (List.mem_filter.2 ⟨mem, weight⟩))
    fun x mem => (List.mem_filter.1 mem).2

theorem pickWeighted_of_no_weight (unweighted : ∀ w ∈ weights, Scalar.isWeight w = false) :
    pickWeighted weights = pure none := by
  have empty : weights.filter Scalar.isWeight = [] :=
    List.filter_eq_nil_iff.2 fun w mem => ne_true_of_eq_false (unweighted w mem)
  unfold pickWeighted
  rw [empty]
  exact if_pos Scalar.Cumulative.emptySum_le

theorem pickWeighted_of_weight (any : ∃ w ∈ weights, Scalar.isWeight w = true) :
    pickWeighted weights = (Draw.below (Scalar.total (weights.filter Scalar.isWeight))).bind
      fun roll => pure (pickAt roll weights 0 Scalar.zero none) :=
  if_neg (Scalar.Cumulative.not_le (zero_lt_total_of_weight any))

theorem pickWeighted_eq (any : ∃ w ∈ weights, Scalar.isWeight w = true)
    (finite : Scalar.isFinite (Scalar.total (weights.filter Scalar.isWeight)) = true) :
    pickWeighted weights = Draw.word64.bind fun word =>
      pure (pickAt (rollOf (Scalar.total (weights.filter Scalar.isWeight)) word) weights 0
        Scalar.zero none) := by
  have weight : Scalar.isWeight (Scalar.total (weights.filter Scalar.isWeight)) = true := by
    rw [Scalar.isWeight, finite, decide_eq_true (zero_lt_total_of_weight any)]
    rfl
  rw [pickWeighted_of_weight any, Draw.below, if_pos weight]
  exact Script.bind_assoc _ _ _

theorem picks (weights : List α) : Picks weights where
  none_iff := by
    refine ⟨fun same => ?_, pickWeighted_of_no_weight⟩
    by_contra some
    have any : ∃ w ∈ weights, Scalar.isWeight w = true := by simpa using some
    rw [pickWeighted_of_weight any, Draw.below] at same
    split at same <;> cases same
  index any finite := by
    choose index w picked found weight using fun word =>
      pickAt_isWeight (rollOf (Scalar.total (weights.filter Scalar.isWeight)) word) 0 Scalar.zero
        none any
    refine ⟨index, ?_, fun word => ⟨w word, found word, weight word⟩⟩
    rw [pickWeighted_eq any finite]
    simp only [picked, Nat.zero_add]

end Cumulative

/-! ### Exact weights -/

/-- The loop of a weighted choice without what it remembers for rolls past its end. -/
def sliceAt (roll : α) : List α → Nat → α → Option Nat
  | [], _, _ => none
  | weight :: rest, i, before =>
    if Scalar.isWeight weight then
      if roll < before + weight then some i else sliceAt roll rest (i + 1) (before + weight)
    else sliceAt roll rest (i + 1) before

theorem pickAt_of_sliceAt {roll : α} {weights : List α} {i j : Nat} {before : α}
    (h : sliceAt roll weights i before = some j) (last : Option Nat) :
    pickAt roll weights i before last = some j := by
  induction weights generalizing i before last with
  | nil => cases h
  | cons w rest ih =>
    unfold sliceAt at h
    unfold pickAt
    split at h
    · split at h
      · rw [if_pos ‹_›, if_pos ‹_›, h]
      · rw [if_pos ‹_›, if_neg ‹_›, ih h]
    · rw [if_neg ‹_›, ih h]

/-- The roll is in the slice of a place: as long as the weight there, after all slices before. -/
def InSlice (weights : List Extended) (roll : ℚ) (i : Nat) : Prop :=
  ∃ w, 0 < w ∧ weights[i]? = some (.number w) ∧ Extended.sumBefore weights i ≤ roll ∧
    roll < Extended.sumBefore weights i + w

theorem InSlice.cons {x : Extended} {rest : List Extended} {roll : ℚ} {i : Nat}
    (h : InSlice rest (roll - Extended.weightOf x) i) : InSlice (x :: rest) roll (i + 1) := by
  obtain ⟨w, positive, found, low, high⟩ := h
  have sums : Extended.sumBefore (x :: rest) (i + 1) =
    Extended.weightOf x + Extended.sumBefore rest i := Extended.weightSum_cons _ _
  exact ⟨w, positive, found, by linarith, by linarith⟩

theorem InSlice.unique {weights : List Extended} {roll : ℚ} {i j : Nat}
    (h : InSlice weights roll i) (h' : InSlice weights roll j) : i = j := by
  -- The slices follow each other.
  have apart {i j : Nat} (h : InSlice weights roll i) (h' : InSlice weights roll j) : ¬ i < j := by
    obtain ⟨w, positive, found, -, high⟩ := h
    obtain ⟨-, -, -, low, -⟩ := h'
    intro less
    rw [← Extended.sumBefore_succ positive found] at high
    exact (low.trans_lt high).not_ge (Extended.sumBefore_mono less)
  exact Nat.le_antisymm (Nat.le_of_not_lt (apart h' h)) (Nat.le_of_not_lt (apart h h'))

theorem sliceAt_number {roll before : ℚ} {weights : List Extended} (i : Nat)
    (above : before ≤ roll) (below : roll < before + Extended.weightSum weights) :
    ∃ k, sliceAt (.number roll) weights i (.number before) = some (i + k) ∧
      InSlice weights (roll - before) k := by
  induction weights generalizing i before with
  | nil => exact absurd above (below.trans_eq (add_zero before)).not_ge
  | cons x rest ih =>
    rw [Extended.weightSum_cons, ← add_assoc] at below
    -- Where a weight is passed the sum before the next one grows by it.
    have later (passed : before + Extended.weightOf x ≤ roll) :
        ∃ k, sliceAt (.number roll) rest (i + 1) (.number (before + Extended.weightOf x)) =
          some (i + k) ∧ InSlice (x :: rest) (roll - before) k := by
      obtain ⟨k, sliced, inside⟩ := ih (i + 1) passed below
      rw [← sub_sub] at inside
      exact ⟨k + 1, by rw [sliced, Nat.add_right_comm, Nat.add_assoc], inside.cons⟩
    unfold sliceAt
    by_cases weight : Scalar.isWeight x = true
    · obtain ⟨w, positive, rfl⟩ := Extended.isWeight_iff.1 weight
      rw [Extended.weightOf_number positive] at later
      rw [if_pos weight, Extended.number_add]
      by_cases here : roll < before + w
      · rw [if_pos (Extended.number_lt.2 here)]
        exact ⟨0, rfl, w, positive, rfl, sub_nonneg.2 above, by
          change roll - before < 0 + w
          linarith⟩
      · rw [if_neg (mt Extended.number_lt.1 here)]
        exact later (not_lt.1 here)
    · rw [Extended.weightOf_of_not_isWeight (eq_false_of_ne_true weight), add_zero] at later
      rw [if_neg weight]
      exact later above

structure Proportional (weights : List Extended) : Prop where
  total : Scalar.total (weights.filter Scalar.isWeight) = .number (Extended.weightSum weights)
  /-- Whatever word is drawn, the roll is below the sum. -/
  draws : (∃ w ∈ weights, Scalar.isWeight w = true) → ∃ roll : UInt64 → ℚ,
    pickWeighted weights = (Draw.word64.bind fun word =>
      pure (pickAt (.number (roll word)) weights 0 Scalar.zero none)) ∧
        ∀ word, 0 ≤ roll word ∧ roll word < Extended.weightSum weights
  /-- The loop stops inside the one slice that holds the roll. -/
  slice : ∀ roll, 0 ≤ roll → roll < Extended.weightSum weights →
    ∃ i, InSlice weights roll i ∧ (∀ j, InSlice weights roll j → j = i) ∧
      sliceAt (.number roll) weights 0 Scalar.zero = some i ∧
        pickAt (.number roll) weights 0 Scalar.zero none = some i
  /-- The rolls for an index are as many as its weight. -/
  rolls : ∀ i w, 0 < w → weights[i]? = some (.number w) →
    {roll | 0 ≤ roll ∧ roll < Extended.weightSum weights ∧
      pickAt (.number roll) weights 0 Scalar.zero none = some i} =
        Set.Ico (Extended.sumBefore weights i) (Extended.sumBefore weights i + w)

theorem slice_of_lt {weights : List Extended} {roll : ℚ} (above : 0 ≤ roll)
    (below : roll < Extended.weightSum weights) :
    ∃ i, InSlice weights roll i ∧ sliceAt (.number roll) weights 0 Scalar.zero = some i := by
  rw [← zero_add (Extended.weightSum weights)] at below
  obtain ⟨i, sliced, inside⟩ := sliceAt_number 0 above below
  rw [sub_zero] at inside
  rw [Nat.zero_add] at sliced
  exact ⟨i, inside, sliced⟩

theorem rollOf_number {total : ℚ} (positive : 0 < total) (word : UInt64) :
    ∃ roll, rollOf (Extended.number total) word = .number roll ∧ 0 ≤ roll ∧ roll < total := by
  have bound : (word >>> 12).toNat < 2 ^ 52 := by
    rw [UInt64.toNat_shiftRight, Nat.shiftRight_eq_div_pow]
    exact Nat.div_lt_of_lt_mul word.toNat_lt
  refine ⟨(word >>> 12).toNat / 2 ^ 52 * total, ?_, by positivity, ?_⟩
  · have size : (((Nat.pow 2 52 : ℕ) : ℤ) : ℚ) = 2 ^ 52 := by norm_num
    have unit : (Scalar.ofInt (word >>> 12).toNat / Scalar.ofInt (Nat.pow 2 52) : Extended) =
        .number ((word >>> 12).toNat / 2 ^ 52) := by
      rw [← size]
      exact Extended.number_div _ (by norm_num)
    rw [rollOf, unit, Extended.number_mul]
  · refine mul_lt_of_lt_one_left positive ?_
    rw [div_lt_one (by positivity)]
    exact_mod_cast bound

theorem proportional (weights : List Extended) : Proportional weights where
  total := Extended.total_filter_isWeight weights
  draws any := by
    have total := Extended.total_filter_isWeight weights
    have positive := zero_lt_total_of_weight any
    rw [total, Extended.zero_eq, Extended.number_lt] at positive
    choose roll rolled bounds using rollOf_number positive
    refine ⟨roll, ?_, bounds⟩
    rw [pickWeighted_eq any (by rw [total]; rfl), total]
    simp only [rolled]
  slice roll above below := by
    obtain ⟨i, inside, sliced⟩ := slice_of_lt above below
    exact ⟨i, inside, fun j => (InSlice.unique · inside), sliced, pickAt_of_sliceAt sliced none⟩
  rolls i w positive found := by
    ext roll
    constructor
    · rintro ⟨above, below, picked⟩
      obtain ⟨j, ⟨w', -, found', low, high⟩, sliced⟩ := slice_of_lt above below
      cases (pickAt_of_sliceAt sliced none).symm.trans picked
      cases found.symm.trans found'
      exact ⟨low, high⟩
    · rintro ⟨low, high⟩
      have above : 0 ≤ roll := (Extended.sumBefore_nonneg i).trans low
      have below : roll < Extended.weightSum weights := by
        rw [← Extended.sumBefore_succ positive found] at high
        exact high.trans_le (Extended.sumBefore_le _)
      obtain ⟨j, inside, sliced⟩ := slice_of_lt above below
      obtain rfl := inside.unique ⟨w, positive, found, low, high⟩
      exact ⟨above, below, pickAt_of_sliceAt sliced none⟩

/-- A weighted choice takes a weight with one word, or nothing without any; with exact weights each
is taken by as many rolls as it is large. -/
theorem picks_by_weight :
    (∀ weights : List Float, Picks weights) ∧
      ∀ weights : List Extended, Picks weights ∧ Proportional weights :=
  ⟨picks, fun weights => ⟨picks weights, proportional weights⟩⟩

end Random

end Matchmaker
