import Matchmaker.Proofs.Usage.Limits
import Mathlib.Algebra.BigOperators.Ring.List

/-!
Usage in proportion to the shares. Where every window that tells something agrees with them, all
shares are scaled alike, so that proportions are kept. As weights are taken over all windows, those
that tell nothing hold the common factor below one, though never below the overall bound.
-/
namespace Matchmaker

open Extended

namespace Correction

section

variable {α : Type} [Scalar α]

def tells (expected : Shares α) (usage : Usage α) : Bool :=
  expected.keys.any fun entity => (counted? usage entity).isSome

/-- Every entity has the part of the usage that it has of the shares. -/
def Fair (expected : Shares α) (usage : Usage α) : Prop :=
  ∀ entry ∈ expected.toList, (counted? usage entry.1).getD Scalar.zero /
      Scalar.total (expected.keys.filterMap (counted? usage)) =
    entry.2 / Scalar.total expected.values

instance [DecidableEq α] (expected : Shares α) (usage : Usage α) :
    Decidable (Fair expected usage) :=
  inferInstanceAs (Decidable (∀ entry ∈ expected.toList, _ = _))

def AllFair (s : HistorySettings α) (held : HeldUsage α) (expected : Shares α) : Prop :=
  ∀ paired ∈ s.windows.zip held, ∀ usage ∈ paired.2,
    tells expected usage = true → Fair expected usage

instance [DecidableEq α] (s : HistorySettings α) (held : HeldUsage α) (expected : Shares α) :
    Decidable (AllFair s held expected) :=
  inferInstanceAs (Decidable (∀ paired ∈ s.windows.zip held, ∀ usage ∈ paired.2, _))

/-- The windows that tell something. -/
def telling (s : HistorySettings α) (held : HeldUsage α) (expected : Shares α) :
    List (UsageWindow α) :=
  ((s.windows.zip held).filter fun (_, usage) => usage.any (tells expected)).map Prod.fst

/-- The part of the weight that tells something, unless the overall bound is nearer to one. -/
def commonFactor (s : HistorySettings α) (held : HeldUsage α) (expected : Shares α) : α :=
  let told := telling s held expected
  if told.isEmpty then Scalar.one
  else Scalar.larger (Scalar.one / s.maxCorrection)
    (Scalar.total (told.map UsageWindow.weight) / Scalar.total (s.windows.map UsageWindow.weight))

theorem telling_sublist (s : HistorySettings α) (held : HeldUsage α) (expected : Shares α) :
    (telling s held expected).Sublist s.windows := by
  have zipped (windows : List (UsageWindow α)) (held : HeldUsage α) :
      ((windows.zip held).map Prod.fst).Sublist windows := by
    induction windows generalizing held with
    | nil => simp
    | cons w rest ih => cases held <;> simp [ih]
  exact (List.filter_sublist.map Prod.fst).trans (zipped _ _)

end

variable {s : HistorySettings Extended} {held : HeldUsage Extended}
  {expected shares : Shares Extended}

theorem tells_iff {usage : Usage Extended} : tells expected usage = true ↔
    ¬ Scalar.total (expected.keys.filterMap (counted? usage)) ≤ Scalar.zero := by
  rw [enough_iff, tells, List.any_eq_true]

theorem map_window_evidence : (evidence expected.keys s.windows held).map Evidence.window =
    telling s held expected := by
  rw [telling, ← List.filterMap_eq_filter, List.map_filterMap, evidence, List.map_filterMap]
  congr 1
  funext paired
  obtain ⟨w, usage⟩ := paired
  cases usage with
  | none => rfl
  | some usage =>
    by_cases told : tells expected usage = true
    · simp [-zero_eq, if_neg (tells_iff.1 told), told, Option.guard]
    · have little := not_not.1 (mt tells_iff.2 told)
      simp [-zero_eq, if_pos little, told, Option.guard]

/-! ### The common factor -/

def part (s : HistorySettings Extended) (windows : List (UsageWindow Extended)) : ℚ :=
  (windows.map (·.weight.toRat)).sum / (s.windows.map (·.weight.toRat)).sum

theorem weight_pos (h : s.fault? = none) {w : UsageWindow Extended} (mem : w ∈ s.windows) :
    0 < w.weight.toRat :=
  toRat_pos ((HistorySettings.fault?_eq_none.1 h).2 w mem).2.1

theorem sum_weights_pos (h : s.fault? = none) (filled : s.windows ≠ []) :
    0 < (s.windows.map (·.weight.toRat)).sum := by
  refine List.sum_pos _ (fun q mem => ?_) (by simpa using filled)
  obtain ⟨w, present, rfl⟩ := List.mem_map.1 mem
  exact weight_pos h present

theorem sum_weights_le {few all : List (UsageWindow Extended)} (among : few.Sublist all)
    (positive : ∀ w ∈ all, 0 < w.weight.toRat) :
    (few.map (·.weight.toRat)).sum ≤ (all.map (·.weight.toRat)).sum := by
  refine (among.map _).sum_le_sum fun q mem => ?_
  obtain ⟨w, present, rfl⟩ := List.mem_map.1 mem
  exact (positive w present).le

theorem eq_of_sum_weights {few all : List (UsageWindow Extended)} (among : few.Sublist all)
    (positive : ∀ w ∈ all, 0 < w.weight.toRat)
    (same : (few.map (·.weight.toRat)).sum = (all.map (·.weight.toRat)).sum) : few = all := by
  induction among with
  | slnil => rfl
  | cons w among _ =>
    have rest := sum_weights_le among fun w mem => positive w (List.mem_cons_of_mem _ mem)
    have here := positive w List.mem_cons_self
    rw [List.map_cons, List.sum_cons] at same
    exact absurd same (rest.trans_lt (lt_add_of_pos_left _ here)).ne
  | cons_cons w _ ih =>
    simp only [List.map_cons, List.sum_cons, add_right_inj] at same
    rw [ih (fun w mem => positive w (List.mem_cons_of_mem _ mem)) same]

theorem total_weight (h : s.fault? = none) {windows : List (UsageWindow Extended)}
    (among : windows.Sublist s.windows) : Scalar.total (windows.map UsageWindow.weight) =
      number (windows.map (·.weight.toRat)).sum := by
  rw [total_eq, List.map_map]
  · rfl
  · intro x mem
    obtain ⟨w, present, rfl⟩ := List.mem_map.1 mem
    exact isFinite_of_isWeight ((HistorySettings.fault?_eq_none.1 h).2 w (among.subset present)).2.1

theorem part_le_one (h : s.fault? = none) {windows : List (UsageWindow Extended)}
    (among : windows.Sublist s.windows) : part s windows ≤ 1 := by
  refine div_le_one_of_le₀ (sum_weights_le among fun w => weight_pos h) (List.sum_nonneg ?_)
  intro q mem
  obtain ⟨w, present, rfl⟩ := List.mem_map.1 mem
  exact (weight_pos h present).le

theorem part_eq_one_iff (h : s.fault? = none) (filled : s.windows ≠ [])
    {windows : List (UsageWindow Extended)} (among : windows.Sublist s.windows) :
    part s windows = 1 ↔ windows = s.windows := by
  rw [part, div_eq_one_iff_eq (sum_weights_pos h filled).ne']
  refine ⟨eq_of_sum_weights among fun w => weight_pos h, ?_⟩
  rintro rfl
  rfl

theorem commonFactor_eq (h : s.fault? = none) {bound : ℚ} (large : 1 ≤ bound)
    (bounded : s.maxCorrection = number bound) (held : HeldUsage Extended)
    (expected : Shares Extended) : commonFactor s held expected = number
      (if telling s held expected = [] then 1
        else max (1 / bound) (part s (telling s held expected))) := by
  have among := telling_sublist s held expected
  unfold commonFactor
  by_cases none : telling s held expected = []
  · simp [none]
  · have filled : s.windows ≠ [] := fun nil => none (List.sublist_nil.1 (nil ▸ among))
    have above : bound ≠ 0 := (zero_lt_one.trans_le large).ne'
    simp only [List.isEmpty_iff, none, if_false, bounded, one_eq, number_div 1 above,
      total_weight h among, total_weight h (List.Sublist.refl _),
      number_div _ (sum_weights_pos h filled).ne', larger_number, part]

theorem scale_le_one (h : s.fault? = none) {bound : ℚ} (large : 1 ≤ bound)
    {windows : List (UsageWindow Extended)} (among : windows.Sublist s.windows) :
    (if windows = [] then 1 else max (1 / bound) (part s windows)) ≤ 1 := by
  split
  · exact le_rfl
  · exact max_le (div_le_self zero_le_one large) (part_le_one h among)

/-! ### Fair usage -/

variable {totalShare share : ℚ} {entity : String}

/-- Who has some share and ran in proportion to it is neither favoured nor held back. -/
theorem windowFactor_of_fair {e : Evidence Extended} (sound : e.Sound) (positive : 0 < totalShare)
    (given : share ≠ 0) (fair : (counted? e.usage entity).getD Scalar.zero / e.total =
      number share / number totalShare) :
    windowFactor e (number totalShare) (number share) entity = some (number 1) := by
  obtain ⟨bound, large, bounded⟩ := sound.bound
  have above : 0 < bound := zero_lt_one.trans_le large
  have below : 1 / bound ≤ 1 := div_le_self zero_le_one large
  have fraction : share / totalShare ≠ 0 := div_ne_zero given positive.ne'
  rw [number_div share positive.ne'] at fair
  unfold windowFactor
  cases counted : counted? e.usage entity with
  | none =>
    obtain ⟨total, divisor, same⟩ := isWeight_iff.1 sound.total
    rw [counted, Option.getD_none, zero_eq, same, number_div 0 divisor.ne', zero_div] at fair
    exact absurd (number.inj fair).symm fraction
  | some usage =>
    rw [counted, Option.getD_some] at fair
    simp only [fair, bounded, one_eq, number_div share positive.ne', number_div _ fraction,
      number_div 1 above.ne', clamp?_number (below.trans large), div_self fraction,
      max_eq_right below, min_eq_right large]

theorem factorSum_of_fair {found : List (Evidence Extended)}
    (h : ∀ e ∈ found, e.Sound ∧
      windowFactor e (number totalShare) (number share) entity = some (number 1)) (start : ℚ) :
    factorSum (number totalShare) (number share) entity (number start) found =
      some (number (start + (found.map (·.window.weight.toRat)).sum)) := by
  induction found generalizing start with
  | nil => simp [factorSum]
  | cons e rest ih =>
    obtain ⟨sound, neutral⟩ := h e List.mem_cons_self
    obtain ⟨weight, weighs⟩ := sound.weight
    rw [factorSum, neutral]
    simp only [Option.bind_eq_bind, Option.bind_some, weighs, number_mul, number_add, one_mul]
    rw [ih fun e mem => h e (List.mem_cons_of_mem _ mem)]
    simp [weighs, add_assoc]

theorem sum_normalized (h : s.fault? = none) (filled : s.windows ≠ []) :
    ((evidence expected.keys s.normalizedWindows held).map (·.window.weight.toRat)).sum =
      part s (telling s held expected) := by
  have all : Scalar.total (s.windows.map UsageWindow.weight) =
      number (s.windows.map (·.weight.toRat)).sum := total_weight h (List.Sublist.refl _)
  have scaled : ∀ e ∈ evidence expected.keys s.windows held,
      (e.window.weight / Scalar.total (s.windows.map UsageWindow.weight)).toRat =
        e.window.weight.toRat * ((s.windows.map (·.weight.toRat)).sum)⁻¹ := by
    intro e mem
    obtain ⟨⟨weight, -, weighs⟩, -⟩ :=
      (HistorySettings.exists_bounds h).2 _ (window_mem_of_evidence mem)
    rw [all, weighs, number_div weight (sum_weights_pos h filled).ne', toRat_number, toRat_number,
      div_eq_mul_inv]
  rw [normalizedWindows_eq h, evidence_map, List.map_map, part, ← map_window_evidence,
    List.map_map, div_eq_mul_inv, ← List.sum_map_mul_right]
  exact congrArg List.sum (List.map_congr_left scaled)

theorem corrected_of_fair (h : s.fault? = none) (filled : s.windows ≠ []) {bound : ℚ}
    (large : 1 ≤ bound) (bounded : s.maxCorrection = number bound) (positive : 0 < totalShare)
    (same : Scalar.total expected.values = number totalShare)
    (fair : AllFair s held expected) (known : expected[entity]? = some (number share)) :
    corrected s (evidence expected.keys s.normalizedWindows held) (number totalShare) entity
        (number share) =
      some (number (share * max (1 / bound) (part s (telling s held expected)))) := by
  have sound := evidence_sound h expected.keys held
  by_cases nothing : share = 0
  · -- Who is due nothing counts as favoured where it ran nothing, but of nothing.
    obtain ⟨sum, summed⟩ := exists_factorSum positive sound share entity 0
    rw [corrected_eq large bounded summed, nothing, zero_mul, zero_mul]
  · have neutral : ∀ e ∈ evidence expected.keys s.normalizedWindows held, e.Sound ∧
        windowFactor e (number totalShare) (number share) entity = some (number 1) := by
      intro e mem
      refine ⟨sound e mem, windowFactor_of_fair (sound e mem) positive nothing ?_⟩
      rw [normalizedWindows_eq h, evidence_map] at mem
      obtain ⟨original, present, rfl⟩ := List.mem_map.1 mem
      obtain ⟨paired, total, enough⟩ := mem_evidence.1 present
      rw [total] at enough
      have proportional := fair _ paired _ rfl (tells_iff.2 enough) _
        (Std.ExtTreeMap.mem_toList_iff_getElem?_eq_some.2 known)
      rwa [← total, same] at proportional
    have summed := factorSum_of_fair neutral 0
    have small : part s (telling s held expected) ≤ 1 := part_le_one h (telling_sublist _ _ _)
    have below : 1 / bound ≤ 1 := div_le_self zero_le_one large
    rw [sum_normalized h filled, zero_add] at summed
    rw [corrected_eq large bounded summed, min_eq_right ((max_le below small).trans large)]

/-- All shares are scaled by one factor, which leaves them as they are only if no window or every
window tells something, or if the overall bound allows no correction. -/
structure Scaled (s : HistorySettings Extended) (held : HeldUsage Extended)
    (expected : Shares Extended) : Prop where
  shares : corrected? s held expected =
    some (expected.map fun _ share => share * commonFactor s held expected)
  atLeast : Scalar.one / s.maxCorrection ≤ commonFactor s held expected
  atMost : commonFactor s held expected ≤ Scalar.one
  unchanged_iff : corrected? s held expected = some expected ↔
    telling s held expected = [] ∨ telling s held expected = s.windows ∨
      s.maxCorrection = Scalar.one

theorem silent_iff (h : s.fault? = none) (positive : Scalar.zero < Scalar.total expected.values)
    (finite : ∀ x ∈ expected.values, Scalar.isFinite x = true) :
    Silent s held expected ↔ telling s held expected = [] := by
  have enough : ¬ Scalar.total expected.values ≤ Scalar.zero := by
    rw [total_eq finite] at positive ⊢
    simpa using positive
  rw [Silent, or_iff_right enough, normalizedWindows_eq h, evidence_map, ← map_window_evidence,
    List.map_eq_nil_iff, List.map_eq_nil_iff]

theorem corrected?_of_fair (h : s.fault? = none)
    (finite : ∀ x ∈ expected.values, Scalar.isFinite x = true)
    (positive : Scalar.zero < Scalar.total expected.values)
    (fair : AllFair s held expected) : corrected? s held expected =
    some (expected.map fun _ share => share * commonFactor s held expected) := by
  obtain ⟨bound, large, bounded⟩ := (HistorySettings.exists_bounds h).1
  have inOrder : s.InOrder := HistorySettings.inOrder_of_bounds (fun _ => one_div_le_self) h
  obtain ⟨shares, computed⟩ := Option.isSome_iff_exists.1 (corrected?_isSome inOrder held expected)
  have total := total_eq finite
  rw [total, zero_eq, number_lt] at positive
  rw [computed, commonFactor_eq h large bounded]
  congr 1
  refine Std.ExtTreeMap.ext_getElem? fun entity => ?_
  rw [Std.ExtTreeMap.getElem?_map]
  by_cases none : telling s held expected = []
  · cases (corrected?_of_silent ((silent_iff h (by simpa [total]) finite).2 none)).symm.trans computed
    cases known : expected[entity]? with
    | none => rfl
    | some x =>
      obtain ⟨share, rfl⟩ := isFinite_iff.1 (finite x (mem_values.2 ⟨entity, known⟩))
      simp [none]
  · have told : ¬ Silent s held expected := mt (silent_iff h (by simpa [total]) finite).1 none
    have filled : s.windows ≠ [] := fun nil => none (List.sublist_nil.1 (nil ▸ telling_sublist _ _ _))
    rw [getElem?_corrected? computed told, total]
    cases known : expected[entity]? with
    | none => rfl
    | some x =>
      obtain ⟨share, rfl⟩ := isFinite_iff.1 (finite x (mem_values.2 ⟨entity, known⟩))
      rw [Option.bind_some, corrected_of_fair h filled large bounded positive total fair known]
      simp [none]

theorem map_mul_eq_iff (finite : ∀ x ∈ expected.values, Scalar.isFinite x = true)
    (positive : Scalar.zero < Scalar.total expected.values) {factor : ℚ} :
    (expected.map fun _ share => share * number factor) = expected ↔ factor = 1 := by
  constructor
  · intro same
    rw [total_eq finite, zero_eq, number_lt] at positive
    obtain ⟨x, mem, given⟩ : ∃ x ∈ expected.values, x.toRat ≠ 0 := by
      by_contra all
      push Not at all
      refine positive.ne' (List.sum_eq_zero fun q mem => ?_)
      obtain ⟨x, present, rfl⟩ := List.mem_map.1 mem
      exact all x present
    obtain ⟨share, rfl⟩ := isFinite_iff.1 (finite x mem)
    obtain ⟨entity, known⟩ := mem_values.1 mem
    have there := Std.ExtTreeMap.getElem?_map (f := fun _ x => x * number factor) (t := expected)
      (k := entity)
    rw [same, known, Option.map_some, number_mul, Option.some.injEq, number.injEq] at there
    exact (mul_eq_left₀ given).1 there.symm
  · rintro rfl
    refine Std.ExtTreeMap.ext_getElem? fun entity => ?_
    rw [Std.ExtTreeMap.getElem?_map]
    cases known : expected[entity]? with
    | none => rfl
    | some x =>
      obtain ⟨share, rfl⟩ := isFinite_iff.1 (finite x (mem_values.2 ⟨entity, known⟩))
      simp

theorem scale_eq_one_iff (h : s.fault? = none) {bound : ℚ} (large : 1 ≤ bound)
    {windows : List (UsageWindow Extended)} (among : windows.Sublist s.windows) :
    (if windows = [] then 1 else max (1 / bound) (part s windows)) = 1 ↔
      windows = [] ∨ windows = s.windows ∨ bound = 1 := by
  by_cases none : windows = []
  · simp [none]
  · have filled : s.windows ≠ [] := fun nil => none (List.sublist_nil.1 (nil ▸ among))
    have above : 0 < bound := zero_lt_one.trans_le large
    have below : 1 / bound ≤ 1 := div_le_self zero_le_one large
    have reciprocal : 1 / bound = 1 ↔ bound = 1 := by
      rw [div_eq_one_iff_eq above.ne', eq_comm]
    rw [if_neg none, or_iff_right none, ← part_eq_one_iff h filled among, ← reciprocal]
    have small := part_le_one h among
    constructor
    · intro same
      rcases max_choice (1 / bound) (part s windows) with first | second
      · exact .inr (first.symm.trans same)
      · exact .inl (second.symm.trans same)
    · rintro (whole | whole)
      · rw [whole, max_eq_right below]
      · rw [whole, max_eq_left small]

theorem le_scale {bound : ℚ} (large : 1 ≤ bound) (windows : List (UsageWindow Extended)) :
    1 / bound ≤ if windows = [] then 1 else max (1 / bound) (part s windows) := by
  split
  · exact div_le_self zero_le_one large
  · exact le_max_left _ _

theorem scaled_of_fair (h : s.fault? = none)
    (finite : ∀ x ∈ expected.values, Scalar.isFinite x = true)
    (positive : Scalar.zero < Scalar.total expected.values)
    (fair : AllFair s held expected) : Scaled s held expected := by
  obtain ⟨bound, large, bounded⟩ := (HistorySettings.exists_bounds h).1
  have among := telling_sublist s held expected
  have factor := commonFactor_eq h large bounded held expected
  have shares := corrected?_of_fair h finite positive fair
  refine ⟨shares, ?_, ?_, ?_⟩
  · rw [factor, bounded, one_eq, number_div 1 (zero_lt_one.trans_le large).ne', number_le]
    exact le_scale large _
  · rw [factor, one_eq, number_le]
    exact scale_le_one h large among
  · rw [shares, factor, Option.some.injEq, map_mul_eq_iff finite positive,
      scale_eq_one_iff h large among, bounded, one_eq, number.injEq]

end Correction

namespace Fairness

def expected : Shares Extended := .ofList [("a", number 1), ("b", number 1)]

def held : HeldUsage Extended := [some (.ofList [("a", number 10), ("b", number 10)]), none]

end Fairness

open Correction Fairness in
theorem scaled_equals : Limits.settings.fault? = none ∧
    (∀ x ∈ expected.values, Scalar.isFinite x = true) ∧
      Scalar.zero < Scalar.total expected.values ∧ AllFair Limits.settings held expected ∧
        Scaled Limits.settings held expected :=
  ⟨by decide +kernel, by decide +kernel, by decide +kernel, by decide +kernel,
    scaled_of_fair (by decide +kernel) (by decide +kernel) (by decide +kernel) (by decide +kernel)⟩

/-- Usage that agrees with the shares can still move them. -/
theorem exists_fair_changed : ¬ ∀ (s : HistorySettings Extended) (held : HeldUsage Extended)
    (expected : Shares Extended), s.fault? = none → s.windows ≠ [] →
      (∀ x ∈ expected.values, Scalar.isFinite x = true) →
        Scalar.zero < Scalar.total expected.values → Correction.AllFair s held expected →
          Correction.corrected? s held expected = some expected := by
  intro unchanged
  have same := unchanged Limits.settings Fairness.held Fairness.expected (by decide +kernel)
    (by decide +kernel) (by decide +kernel) (by decide +kernel) (by decide +kernel)
  have halved : (Correction.corrected? Limits.settings Fairness.held Fairness.expected).map
      (·.toList) = some [("a", number (1 / 2)), ("b", number (1 / 2))] := by decide +kernel
  rw [same] at halved
  revert halved
  decide +kernel

end Matchmaker
