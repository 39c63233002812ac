import Matchmaker.Share.Split
import Matchmaker.Proofs.Scalar.Rational
import Mathlib.Algebra.BigOperators.Ring.List
import Mathlib.Algebra.Order.BigOperators.Group.List
import Mathlib.Tactic.Linarith

/-!
What a split gives to queues, over the exact rationals. A queue in the background competes with
nothing, so one formula covers all queues: the larger of the floor and a part of the share, where a
part of nothing is nothing. What a queue and its rivals get when it gains weight then follows from
the formula alone, also when it leaves the background by it.
-/
namespace Matchmaker

/-! ### Stakes -/

namespace Load

variable {threshold : Option ℚ} {l : Load ℚ} {sum : ℚ}

/-- What a queue competes with: the priorities of its jobs, or nothing in the background. -/
def stake (threshold : Option ℚ) (l : Load ℚ) : ℚ :=
  if isBackground threshold l then 0 else l.sum

theorem stake_nonneg (threshold : Option ℚ) (nonneg : 0 ≤ l.sum) : 0 ≤ l.stake threshold := by
  unfold stake
  split
  · exact le_rfl
  · exact nonneg

theorem isBackground_iff :
    isBackground threshold l = true ↔ ∃ bound ∈ threshold, l.mean ≤ bound := by
  cases threshold <;> simp [isBackground]

theorem mean_le_mean (more : l.sum ≤ sum) : l.mean ≤ { l with sum }.mean := by
  unfold mean
  split
  · exact le_rfl
  · exact div_le_div_of_nonneg_right more (Int.cast_nonneg (Int.natCast_nonneg l.jobs))

theorem stake_le_stake (threshold : Option ℚ) (nonneg : 0 ≤ l.sum) (more : l.sum ≤ sum) :
    l.stake threshold ≤ { l with sum }.stake threshold := by
  by_cases background : isBackground threshold { l with sum }
  · obtain ⟨bound, given, below⟩ := isBackground_iff.1 background
    have before := isBackground_iff.2 ⟨bound, given, (mean_le_mean more).trans below⟩
    rw [stake, stake, if_pos before, if_pos background]
  · rw [stake, stake, if_neg background]
    split
    · exact nonneg.trans more
    · exact more

end Load

/-! ### Parts of a share -/

section

variable {threshold : Option ℚ} {share floor : ℚ} {loads : List (Load ℚ)}

theorem competingTotal_eq (loads : List (Load ℚ)) :
    competingTotal threshold loads = (loads.map (Load.stake threshold)).sum := by
  unfold competingTotal
  rw [Rational.total]
  induction loads with
  | nil => rfl
  | cons l rest ih =>
    by_cases background : isBackground threshold l
    · simpa [background, Load.stake] using ih
    · simpa [background, Load.stake] using ih

theorem stakes_nonneg (nonneg : ∀ l ∈ loads, 0 ≤ l.sum) :
    ∀ stake ∈ loads.map (Load.stake threshold), 0 ≤ stake := by
  intro stake mem
  obtain ⟨l, listed, rfl⟩ := List.mem_map.1 mem
  exact Load.stake_nonneg threshold (nonneg l listed)

theorem competingTotal_nonneg (threshold : Option ℚ) (nonneg : ∀ l ∈ loads, 0 ≤ l.sum) :
    0 ≤ competingTotal threshold loads := by
  rw [competingTotal_eq]
  exact List.sum_nonneg (stakes_nonneg nonneg)

theorem stake_le_competingTotal (nonneg : ∀ l ∈ loads, 0 ≤ l.sum) {l : Load ℚ} (mem : l ∈ loads) :
    l.stake threshold ≤ competingTotal threshold loads := by
  rw [competingTotal_eq]
  exact List.single_le_sum (stakes_nonneg nonneg) _ (List.mem_map_of_mem mem)

theorem competingTotal_perm {loads' : List (Load ℚ)} (perm : loads'.Perm loads) :
    competingTotal threshold loads' = competingTotal threshold loads := by
  rw [competingTotal_eq, competingTotal_eq]
  exact (perm.map _).sum_eq

theorem competingTotal_set {i : Nat} {l l' : Load ℚ} (found : loads[i]? = some l) :
    competingTotal threshold (loads.set i l') =
      competingTotal threshold loads + (l'.stake threshold - l.stake threshold) := by
  obtain ⟨short, rfl⟩ := List.getElem?_eq_some_iff.1 found
  rw [competingTotal_eq, competingTotal_eq, List.map_set, List.sum_set']
  simp [short, neg_add_eq_sub]

theorem slice_eq_max {total : ℚ} (floored : 0 ≤ floor) (nonneg : 0 ≤ total) (l : Load ℚ) :
    slice share total floor threshold l = max (share * l.stake threshold / total) floor := by
  unfold slice Load.stake
  rw [Rational.larger, Rational.zero]
  by_cases background : isBackground threshold l
  · simp [background, floored]
  · rcases nonneg.eq_or_lt with rfl | positive
    · simp [floored]
    · simp [background, positive.not_ge]

theorem getElem?_splitShare (i : Nat) :
    (splitShare loads share threshold floor)[i]? = loads[i]?.map fun l =>
      (l.queue, slice share (competingTotal threshold loads) floor threshold l) :=
  List.getElem?_map

theorem sum_splitShare_le (nonneg : ∀ l ∈ loads, 0 ≤ l.sum) (shared : 0 ≤ share)
    (floored : 0 ≤ floor) :
    ((splitShare loads share threshold floor).map Prod.snd).sum ≤
      share + loads.length * floor := by
  have total := competingTotal_nonneg threshold nonneg
  have each : ∀ l ∈ loads, slice share (competingTotal threshold loads) floor threshold l ≤
      share / competingTotal threshold loads * l.stake threshold + floor := fun l mem => by
    have part := mul_nonneg (div_nonneg shared total)
      (Load.stake_nonneg threshold (nonneg l mem))
    rw [slice_eq_max floored total, mul_div_right_comm]
    exact max_le_add_of_nonneg part floored
  have parts : (loads.map fun l => share / competingTotal threshold loads * l.stake threshold).sum ≤
      share := by
    rw [List.sum_map_mul_left, ← competingTotal_eq]
    rcases total.eq_or_lt with none | some
    · rw [← none]
      simpa using shared
    · exact (div_mul_cancel₀ share some.ne').le
  calc ((splitShare loads share threshold floor).map Prod.snd).sum
      = (loads.map fun l =>
          slice share (competingTotal threshold loads) floor threshold l).sum := by
        rw [splitShare, List.map_map]
        rfl
    _ ≤ (loads.map fun l =>
          share / competingTotal threshold loads * l.stake threshold + floor).sum :=
        List.sum_le_sum each
    _ ≤ share + loads.length * floor := by
        rw [List.sum_map_add]
        simpa using parts

theorem part_le_part {total stake stake' : ℚ} (shared : 0 ≤ share) (nonneg : 0 ≤ stake)
    (within : stake ≤ total) (more : stake ≤ stake') :
    share * stake / total ≤ share * stake' / (total + (stake' - stake)) := by
  rcases (nonneg.trans within).eq_or_lt with rfl | positive
  · rw [div_zero]
    exact div_nonneg (mul_nonneg shared (nonneg.trans more)) (by linarith)
  · have gain := mul_nonneg shared (mul_nonneg (sub_nonneg.2 more) (sub_nonneg.2 within))
    rw [div_le_div_iff₀ positive (by linarith)]
    linarith

theorem part_le_part_of_le {total total' stake : ℚ} (shared : 0 ≤ share) (nonneg : 0 ≤ stake)
    (within : stake ≤ total) (more : total ≤ total') :
    share * stake / total' ≤ share * stake / total := by
  rcases (nonneg.trans within).eq_or_lt with rfl | positive
  · rw [le_antisymm within nonneg, mul_zero, zero_div, zero_div]
  · exact div_le_div_of_nonneg_left (mul_nonneg shared nonneg) positive more

section

variable (nonneg : ∀ l ∈ loads, 0 ≤ l.sum) (shared : 0 ≤ share) (floored : 0 ≤ floor)
  {i : Nat} {l : Load ℚ} (found : loads[i]? = some l) {sum : ℚ} (more : l.sum ≤ sum)

include nonneg found more

theorem nonneg_set : ∀ l' ∈ loads.set i { l with sum }, 0 ≤ l'.sum := by
  intro l' mem
  rcases List.mem_or_eq_of_mem_set mem with mem | rfl
  · exact nonneg l' mem
  · exact (nonneg l (List.mem_of_getElem? found)).trans more

include shared floored

theorem slice_le_slice :
    slice share (competingTotal threshold loads) floor threshold l ≤
      slice share (competingTotal threshold (loads.set i { l with sum })) floor threshold
        { l with sum } := by
  have mem := List.mem_of_getElem? found
  have gain := Load.stake_le_stake threshold (nonneg l mem) more
  rw [slice_eq_max floored (competingTotal_nonneg threshold nonneg),
    slice_eq_max floored (competingTotal_nonneg threshold (nonneg_set nonneg found more)),
    competingTotal_set found]
  exact max_le_max_right floor (part_le_part shared (Load.stake_nonneg threshold (nonneg l mem))
    (stake_le_competingTotal nonneg mem) gain)

theorem slice_le_slice_of_mem {other : Load ℚ} (mem : other ∈ loads) :
    slice share (competingTotal threshold (loads.set i { l with sum })) floor threshold other ≤
      slice share (competingTotal threshold loads) floor threshold other := by
  have gain := Load.stake_le_stake threshold (nonneg l (List.mem_of_getElem? found)) more
  rw [slice_eq_max floored (competingTotal_nonneg threshold nonneg),
    slice_eq_max floored (competingTotal_nonneg threshold (nonneg_set nonneg found more)),
    competingTotal_set found]
  exact max_le_max_right floor (part_le_part_of_le shared
    (Load.stake_nonneg threshold (nonneg other mem)) (stake_le_competingTotal nonneg mem)
    (by linarith))

end

end

/-! ### Splits -/

structure Apportioned (loads : List (Load ℚ)) (share : ℚ) (threshold : Option ℚ) (floor : ℚ) :
    Prop where
  queues : (splitShare loads share threshold floor).map Prod.fst = loads.map Load.queue
  /-- In the background, and where nothing competes, there is the floor. -/
  background : ∀ (i : Nat) (l : Load ℚ), loads[i]? = some l →
    (∃ bound ∈ threshold, l.mean ≤ bound) ∨ competingTotal threshold loads = 0 →
      (splitShare loads share threshold floor)[i]? = some (l.queue, floor)
  foreground : ∀ (i : Nat) (l : Load ℚ), loads[i]? = some l →
    (∀ bound ∈ threshold, bound < l.mean) → competingTotal threshold loads ≠ 0 →
      (splitShare loads share threshold floor)[i]? =
        some (l.queue, max floor (share * l.sum / competingTotal threshold loads))
  bounded : ((splitShare loads share threshold floor).map Prod.snd).sum ≤
    share + loads.length * floor
  /-- Where a queue stands among the others does not matter. -/
  permuted : ∀ loads' : List (Load ℚ), loads'.Perm loads →
    (splitShare loads' share threshold floor).Perm (splitShare loads share threshold floor) ∧
      ∀ i j : Nat, loads'[i]? = loads[j]? → (splitShare loads' share threshold floor)[i]? =
        (splitShare loads share threshold floor)[j]?
  /-- A queue that gains weight does not lose, and no other queue gains. -/
  raised : ∀ (i : Nat) (l : Load ℚ) (sum : ℚ), loads[i]? = some l → l.sum ≤ sum →
    ∀ (j : Nat) (entry : Int × ℚ), (splitShare loads share threshold floor)[j]? = some entry →
      ∃ priority, (splitShare (loads.set i { l with sum }) share threshold floor)[j]? =
          some (entry.1, priority) ∧
        if j = i then entry.2 ≤ priority else priority ≤ entry.2

theorem apportioned_of_nonneg {loads : List (Load ℚ)} (nonneg : ∀ l ∈ loads, 0 ≤ l.sum)
    {share : ℚ} (shared : 0 ≤ share) (threshold : Option ℚ) {floor : ℚ} (floored : 0 ≤ floor) :
    Apportioned loads share threshold floor where
  queues := by
    rw [splitShare, List.map_map]
    rfl
  background i l found idle := by
    rw [getElem?_splitShare, found, Option.map_some]
    unfold slice
    rw [if_pos]
    rcases idle with below | none
    · simp [Load.isBackground_iff.2 below]
    · simp [none]
  foreground i l found above competed := by
    have competes : isBackground threshold l ≠ true := fun background => by
      obtain ⟨bound, given, below⟩ := Load.isBackground_iff.1 background
      exact (above bound given).not_ge below
    have total := competingTotal_nonneg threshold nonneg
    rw [getElem?_splitShare, found, Option.map_some, slice_eq_max floored total, Load.stake,
      if_neg competes, max_comm]
  bounded := sum_splitShare_le nonneg shared floored
  permuted loads' perm := by
    constructor
    · rw [splitShare, splitShare, competingTotal_perm perm]
      exact perm.map _
    · intro i j same
      rw [getElem?_splitShare, getElem?_splitShare, competingTotal_perm perm, same]
  raised i l sum found more j entry listed := by
    rw [getElem?_splitShare] at listed
    obtain ⟨other, there, rfl⟩ := Option.map_eq_some_iff.1 listed
    rw [getElem?_splitShare]
    by_cases same : j = i
    · subst same
      cases found.symm.trans there
      obtain ⟨short, -⟩ := List.getElem?_eq_some_iff.1 found
      rw [List.getElem?_set_self short]
      refine ⟨_, rfl, ?_⟩
      rw [if_pos rfl]
      exact slice_le_slice nonneg shared floored found more
    · rw [List.getElem?_set_ne (Ne.symm same), there]
      refine ⟨_, rfl, ?_⟩
      rw [if_neg same]
      exact slice_le_slice_of_mem nonneg shared floored found more (List.mem_of_getElem? there)

theorem apportioned_mixed :
    Apportioned [⟨1, 3, 3⟩, ⟨2, 1, 1⟩, ⟨3, 1 / 20, 1⟩, ⟨4, 0, 0⟩] 2 (some (1 / 10)) (1 / 1000) :=
  apportioned_of_nonneg (by simp) zero_le_two _ (by norm_num)

end Matchmaker
