import Matchmaker.Proofs.Scalar.Extended
import Matchmaker.Proofs.Usage.Bounds

/-!
What no usage can do to shares. Whatever is held of the windows, also where samples are negative,
infinite or no numbers, shares that are numbers stay numbers, no further from what was expected than
the overall bound allows. All that is divided by is above zero.
-/
namespace Matchmaker

open Extended

theorem HistorySettings.exists_bounds {s : HistorySettings Extended} (h : s.fault? = none) :
    (∃ bound, 1 ≤ bound ∧ s.maxCorrection = number bound) ∧ ∀ w ∈ s.windows,
      (∃ weight, 0 < weight ∧ w.weight = number weight) ∧
        ∃ bound, 1 ≤ bound ∧ w.maxCorrection = number bound := by
  obtain ⟨overall, windows⟩ := fault?_eq_none.1 h
  refine ⟨isBound_iff.1 overall, fun w mem => ?_⟩
  obtain ⟨-, weight, bound⟩ := windows w mem
  exact ⟨isWeight_iff.1 weight, isBound_iff.1 bound⟩

namespace Extended

theorem isWeight_total {xs : List Extended} (h : ∀ x ∈ xs, Scalar.isFinite x = true)
    (enough : ¬ Scalar.total xs ≤ Scalar.zero) : Scalar.isWeight (Scalar.total xs) = true := by
  rw [total_eq h] at enough ⊢
  exact isWeight_iff.2 ⟨_, by simpa using enough, rfl⟩

theorem total_weights {xs : List Extended} (h : ∀ x ∈ xs, Scalar.isWeight x = true)
    (filled : xs ≠ []) : Scalar.isWeight (Scalar.total xs) = true := by
  rw [total_eq fun x mem => isFinite_of_isWeight (h x mem)]
  refine isWeight_iff.2 ⟨_, List.sum_pos _ (fun q mem => ?_) (by simpa using filled), rfl⟩
  obtain ⟨x, present, rfl⟩ := List.mem_map.1 mem
  exact toRat_pos (h x present)

theorem isWeight_div {x y : Extended} (hx : Scalar.isWeight x = true)
    (hy : Scalar.isWeight y = true) : Scalar.isWeight (x / y) = true := by
  obtain ⟨p, positive, rfl⟩ := isWeight_iff.1 hx
  obtain ⟨q, divisor, rfl⟩ := isWeight_iff.1 hy
  exact isWeight_iff.2 ⟨p / q, div_pos positive divisor, number_div p divisor.ne'⟩

theorem one_div_le_self {x : Extended} (h : HistorySettings.isBound x = true) :
    Scalar.one / x ≤ x := by
  obtain ⟨q, large, rfl⟩ := isBound_iff.1 h
  have above : 0 < q := zero_lt_one.trans_le large
  rw [one_eq, number_div 1 above.ne', number_le]
  exact Rational.one_div_le large

end Extended

namespace Correction

variable {s : HistorySettings Extended} {held : HeldUsage Extended}
  {expected shares : Shares Extended} {entities : List String}

/-! ### Divisors -/

theorem isWeight_weights (h : s.fault? = none) (filled : s.windows ≠ []) :
    Scalar.isWeight (Scalar.total (s.windows.map UsageWindow.weight)) = true := by
  refine total_weights (fun weight mem => ?_) (by simpa using filled)
  obtain ⟨w, present, rfl⟩ := List.mem_map.1 mem
  exact isWeight_iff.2 ((HistorySettings.exists_bounds h).2 w present).1

theorem normalizedWindows_eq (h : s.fault? = none) : s.normalizedWindows = s.windows.map fun w =>
    { w with weight := w.weight / Scalar.total (s.windows.map UsageWindow.weight) } := by
  unfold HistorySettings.normalizedWindows
  by_cases filled : s.windows = []
  · simp [filled]
  · obtain ⟨total, positive, same⟩ := isWeight_iff.1 (isWeight_weights h filled)
    exact if_neg (by simpa [same] using positive)

theorem isWeight_counted? {α : Type} [Scalar α] {usage : Usage α} {entity : String} {x : α}
    (h : counted? usage entity = some x) : Scalar.isWeight x = true :=
  (Option.filter_eq_some_iff.1 h).2

theorem enough_iff {usage : Usage Extended} :
    ¬ Scalar.total (entities.filterMap (counted? usage)) ≤ Scalar.zero ↔
      ∃ entity ∈ entities, (counted? usage entity).isSome := by
  have weights : ∀ x ∈ entities.filterMap (counted? usage), Scalar.isWeight x = true := by
    intro x mem
    obtain ⟨entity, -, counted⟩ := List.mem_filterMap.1 mem
    exact isWeight_counted? counted
  by_cases none : entities.filterMap (counted? usage) = []
  · have silent : ∀ entity ∈ entities, counted? usage entity = Option.none := by
      simpa [List.filterMap_eq_nil_iff] using none
    rw [none, show Scalar.total ([] : List Extended) = number 0 from rfl]
    simp +contextual [silent]
  · obtain ⟨q, positive, total⟩ := isWeight_iff.1 (total_weights weights none)
    obtain ⟨x, mem⟩ := List.exists_mem_of_ne_nil _ none
    obtain ⟨entity, among, counted⟩ := List.mem_filterMap.1 mem
    simp only [total, zero_eq, number_le, not_le, positive, true_iff]
    exact ⟨entity, among, by simp [counted]⟩

/-- All that a correction divides by is a number above zero. -/
structure Divisible (s : HistorySettings Extended) (held : HeldUsage Extended)
    (expected : Shares Extended) : Prop where
  overall : Scalar.isWeight s.maxCorrection = true
  weights : s.windows ≠ [] → Scalar.isWeight (Scalar.total (s.windows.map UsageWindow.weight)) = true
  share : ¬ Silent s held expected → Scalar.isWeight (Scalar.total expected.values) = true
  window : ∀ e ∈ evidence expected.keys s.normalizedWindows held,
    Scalar.isWeight e.window.maxCorrection = true ∧ Scalar.isWeight e.total = true ∧
      ∀ entity usage, counted? e.usage entity = some usage → Scalar.isWeight (usage / e.total) = true

theorem isWeight_evidence {windows : List (UsageWindow Extended)} {e : Evidence Extended}
    (h : e ∈ evidence entities windows held) : Scalar.isWeight e.total = true := by
  obtain ⟨-, same, enough⟩ := mem_evidence.1 h
  rw [same] at enough ⊢
  refine isWeight_total (fun x mem => ?_) enough
  obtain ⟨entity, -, counted⟩ := List.mem_filterMap.1 mem
  exact isFinite_of_isWeight (isWeight_counted? counted)

theorem exists_normalized (h : s.fault? = none) {w : UsageWindow Extended}
    (mem : w ∈ s.normalizedWindows) :
    (∃ weight, w.weight = number weight) ∧ ∃ bound, 1 ≤ bound ∧ w.maxCorrection = number bound := by
  rw [normalizedWindows_eq h] at mem
  obtain ⟨original, present, rfl⟩ := List.mem_map.1 mem
  obtain ⟨⟨weight, positive, weighs⟩, bound⟩ := (HistorySettings.exists_bounds h).2 original present
  obtain ⟨total, above, summed⟩ :=
    isWeight_iff.1 (isWeight_weights h (List.ne_nil_of_mem present))
  exact ⟨⟨weight / total, by rw [summed, weighs, number_div weight above.ne']⟩, bound⟩

structure Evidence.Sound (e : Evidence Extended) : Prop where
  weight : ∃ weight, e.window.weight = number weight
  bound : ∃ bound, 1 ≤ bound ∧ e.window.maxCorrection = number bound
  total : Scalar.isWeight e.total = true

theorem evidence_sound (h : s.fault? = none) (entities : List String) (held : HeldUsage Extended) :
    ∀ e ∈ evidence entities s.normalizedWindows held, e.Sound := by
  intro e mem
  obtain ⟨weight, bound⟩ := exists_normalized h (window_mem_of_evidence mem)
  exact ⟨weight, bound, isWeight_evidence mem⟩

theorem divisible (h : s.fault? = none)
    (fine : ∀ x ∈ expected.values, Scalar.isFinite x = true) : Divisible s held expected where
  overall := by
    obtain ⟨bound, large, same⟩ := (HistorySettings.exists_bounds h).1
    exact isWeight_iff.2 ⟨bound, zero_lt_one.trans_le large, same⟩
  weights := isWeight_weights h
  share told := isWeight_total fine fun little => told (.inl little)
  window e mem := by
    obtain ⟨-, ⟨bound, large, same⟩, total⟩ := evidence_sound h _ _ e mem
    exact ⟨isWeight_iff.2 ⟨bound, zero_lt_one.trans_le large, same⟩, total,
      fun _ _ counted => isWeight_div (isWeight_counted? counted) total⟩

/-! ### Factors -/

variable {totalShare share : ℚ} {entity : String}

theorem exists_windowFactor {e : Evidence Extended} (sound : e.Sound) (positive : 0 < totalShare)
    (share : ℚ) (entity : String) :
    ∃ factor, windowFactor e (number totalShare) (number share) entity = some (number factor) := by
  obtain ⟨bound, large, bounded⟩ := sound.bound
  have above : 0 < bound := zero_lt_one.trans_le large
  unfold windowFactor
  split
  · exact ⟨bound, by rw [bounded]⟩
  · rename_i usage counted
    obtain ⟨fraction, fractional, same⟩ :=
      isWeight_iff.1 (isWeight_div (isWeight_counted? counted) sound.total)
    rw [same, bounded, one_eq, number_div _ positive.ne', number_div _ fractional.ne',
      number_div _ above.ne']
    exact ⟨_, clamp?_number (Rational.one_div_le large) _⟩

theorem exists_factorSum {found : List (Evidence Extended)} (positive : 0 < totalShare)
    (h : ∀ e ∈ found, e.Sound) (share : ℚ) (entity : String) (start : ℚ) :
    ∃ sum, factorSum (number totalShare) (number share) entity (number start) found =
      some (number sum) := by
  induction found generalizing start with
  | nil => exact ⟨start, rfl⟩
  | cons e rest ih =>
    have sound := h e List.mem_cons_self
    obtain ⟨weight, weighs⟩ := sound.weight
    obtain ⟨factor, computed⟩ :=
      exists_windowFactor sound positive share entity
    rw [factorSum, computed]
    simp only [Option.bind_eq_bind, Option.bind_some, weighs, number_mul, number_add]
    exact ih (fun e mem => h e (List.mem_cons_of_mem _ mem)) _

variable {found : List (Evidence Extended)} {bound sum : ℚ}

theorem corrected_eq (large : 1 ≤ bound) (bounded : s.maxCorrection = number bound)
    (summed : factorSum (number totalShare) (number share) entity Scalar.zero found =
      some (number sum)) :
    corrected s found (number totalShare) entity (number share) =
      some (number (share * min bound (max (1 / bound) sum))) := by
  have above : 0 < bound := zero_lt_one.trans_le large
  rw [corrected, summed]
  simp only [Option.bind_eq_bind, Option.bind_some, bounded, one_eq, number_div 1 above.ne',
    clamp?_number (Rational.one_div_le large), number_mul]

theorem near_clamped (large : 1 ≤ bound) (nonneg : 0 ≤ share) (sum : ℚ) :
    Near bound share (share * min bound (max (1 / bound) sum)) := by
  exact .mul nonneg (le_min (Rational.one_div_le large) (le_max_left _ _)) (min_le_left _ _)

/-! ### Corrections -/

/-- No window holds usage that counts, of any entity. -/
def Idle (s : HistorySettings Extended) (held : HeldUsage Extended) (expected : Shares Extended) :
    Prop :=
  ∀ window usage, (window, some usage) ∈ s.windows.zip held →
    ∀ entity ∈ expected, ∀ x, usage[entity]? = some x → Scalar.isWeight x = false

theorem silent_of_idle (h : s.fault? = none) (idle : Idle s held expected) :
    Silent s held expected := by
  refine .inr (List.eq_nil_iff_forall_not_mem.2 fun e mem => ?_)
  rw [normalizedWindows_eq h, evidence_map] at mem
  obtain ⟨e, mem, -⟩ := List.mem_map.1 mem
  obtain ⟨paired, same, enough⟩ := mem_evidence.1 mem
  rw [same] at enough
  obtain ⟨entity, among, counts⟩ := enough_iff.1 enough
  obtain ⟨x, counted⟩ := Option.isSome_iff_exists.1 counts
  obtain ⟨sampled, positive⟩ := Option.filter_eq_some_iff.1 counted
  rw [idle _ _ paired entity (Std.ExtTreeMap.mem_keys.1 among) x sampled] at positive
  cases positive

structure Limited (bound : ℚ) (expected shares : Shares Extended) : Prop where
  entities : ∀ entity, entity ∈ shares ↔ entity ∈ expected
  near : ∀ (entity : String) x, expected[entity]? = some (number x) →
    ∃ y, shares[entity]? = some (number y) ∧ Near bound x y
  positive : ∀ (entity : String) x, 0 < x → expected[entity]? = some (number x) →
    ∃ y, 0 < y ∧ shares[entity]? = some (number y)
  zero : ∀ entity : String, expected[entity]? = some (number 0) → shares[entity]? = some (number 0)

theorem Near.pos {bound x y : ℚ} (large : 1 ≤ bound) (h : Near bound x y) (positive : 0 < x) :
    0 < y :=
  (div_pos positive (zero_lt_one.trans_le large)).trans_le h.lower

theorem Near.eq_zero {bound y : ℚ} (h : Near bound 0 y) : y = 0 :=
  le_antisymm (by simpa using h.upper) (by simpa using h.lower)

theorem Limited.of_near {bound : ℚ} (large : 1 ≤ bound)
    (entities : ∀ entity, entity ∈ shares ↔ entity ∈ expected)
    (near : ∀ (entity : String) x, expected[entity]? = some (number x) →
      ∃ y, shares[entity]? = some (number y) ∧ Near bound x y) : Limited bound expected shares where
  entities := entities
  near := near
  positive entity x positive known := by
    obtain ⟨y, there, close⟩ := near entity x known
    exact ⟨y, close.pos large positive, there⟩
  zero entity known := by
    obtain ⟨y, there, close⟩ := near entity 0 known
    rwa [close.eq_zero] at there

/-- Shares that are numbers and not negative can be corrected by whatever usage is held. -/
theorem limited_of_fault? (h : s.fault? = none)
    (fine : ∀ x ∈ expected.values, ShareTable.isShare x = true)
    (held : HeldUsage Extended) :
    ∃ bound shares, 1 ≤ bound ∧ s.maxCorrection = number bound ∧
      corrected? s held expected = some shares ∧ Limited bound expected shares ∧
        Divisible s held expected ∧ (Idle s held expected → shares = expected) := by
  obtain ⟨bound, large, bounded⟩ := (HistorySettings.exists_bounds h).1
  have divisible : Divisible s held expected := divisible h fun x mem => by
    obtain ⟨q, -, same⟩ := isShare_iff.1 (fine x mem)
    exact isFinite_iff.2 ⟨q, same⟩
  have inOrder : s.InOrder := HistorySettings.inOrder_of_bounds (fun _ => one_div_le_self) h
  obtain ⟨shares, computed⟩ := Option.isSome_iff_exists.1 (corrected?_isSome inOrder held expected)
  refine ⟨bound, shares, large, bounded, computed, .of_near large (mem_corrected? computed) ?_,
    divisible, fun idle => ?_⟩
  · intro entity x known
    obtain ⟨q, nonneg, same⟩ := isShare_iff.1 (fine _ (mem_values.2 ⟨entity, known⟩))
    cases same
    by_cases silent : Silent s held expected
    · cases (corrected?_of_silent silent).symm.trans computed
      exact ⟨x, known, .refl large nonneg⟩
    · obtain ⟨total, positive, same⟩ := isWeight_iff.1 (divisible.share silent)
      obtain ⟨sum, summed⟩ := exists_factorSum positive
        (evidence_sound h expected.keys held) x entity 0
      refine ⟨_, ?_, near_clamped large nonneg sum⟩
      rw [getElem?_corrected? computed silent, known, Option.bind_some, same,
        corrected_eq large bounded summed]
  · cases (corrected?_of_silent (silent_of_idle h idle)).symm.trans computed
    rfl

end Correction

namespace Limits

def settings : HistorySettings Extended where
  enabled := true
  period := 600
  maxCorrection := number 3
  windows := [⟨3600, number 1, number 2⟩, ⟨86400, number 1, number 4⟩]

/-- The first window holds one sample that counts, the other was not fetched. -/
def held : HeldUsage Extended :=
  [some (.ofList [("a", undefined), ("b", number 30), ("c", infinite false), ("d", number (-1))]),
    none]

def expected : Shares Extended := .ofList [("a", number 1), ("b", number 2), ("c", number 0)]

end Limits

open Correction Limits in
theorem limited_mixed : settings.fault? = none ∧
    (∀ x ∈ expected.values, ShareTable.isShare x = true) ∧
      ∃ bound shares, 1 ≤ bound ∧ settings.maxCorrection = number bound ∧
        corrected? settings held expected = some shares ∧ Limited bound expected shares ∧
          Divisible settings held expected ∧ (Idle settings held expected → shares = expected) :=
  ⟨by decide +kernel, by decide +kernel,
    limited_of_fault? (by decide +kernel) (by decide +kernel) held⟩

/-- Half of the weight tells nothing, so that who ran nothing gets no more than expected. -/
example : (Correction.corrected? Limits.settings Limits.held Limits.expected).map (·.toList) =
    some [("a", number 1), ("b", number (2 / 3)), ("c", number 0)] := by decide +kernel

end Matchmaker
