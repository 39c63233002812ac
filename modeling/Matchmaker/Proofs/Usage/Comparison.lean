import Matchmaker.Proofs.Usage.Limits
import Mathlib.Algebra.BigOperators.Ring.List

/-!
How corrected shares compare. Of entities with one share, who ran less is not given less; and only
proportions count, so that usage, weights and shares can be measured in any unit.
-/
namespace Matchmaker

open Extended

namespace Extended

variable {unit : ℚ} (positive : 0 < unit)

include positive in
theorem isWeight_mul_number (x : Extended) :
    Scalar.isWeight (x * number unit) = Scalar.isWeight x := by
  cases x with
  | number q =>
    rw [Bool.eq_iff_iff, isWeight_iff, isWeight_iff]
    simp [positive]
  | infinite negative =>
    change Scalar.isWeight (if unit = 0 then undefined else infinite _) = false
    rw [if_neg positive.ne']
    rfl
  | undefined => rfl

theorem mul_number_div (x y : Extended) (hx : Scalar.isFinite x = true)
    (hy : Scalar.isFinite y = true) (positive : 0 < unit) :
    x * number unit / (y * number unit) = x / y := by
  obtain ⟨p, rfl⟩ := isFinite_iff.1 hx
  obtain ⟨q, rfl⟩ := isFinite_iff.1 hy
  rw [number_mul, number_mul]
  by_cases zero : q = 0
  · rw [zero, zero_mul]
    rfl
  · rw [number_div _ (mul_ne_zero zero positive.ne'), number_div _ zero,
      mul_div_mul_right _ _ positive.ne']

theorem mul_number_one (x : Extended) : x * number 1 = x := by
  cases x with
  | number q => rw [number_mul, mul_one]
  | infinite negative => cases negative <;> rfl
  | undefined => rfl

theorem isFinite_total {xs : List Extended} (finite : ∀ x ∈ xs, Scalar.isFinite x = true) :
    Scalar.isFinite (Scalar.total xs) = true := by
  rw [total_eq finite]
  rfl

theorem total_mul_number {xs : List Extended} (finite : ∀ x ∈ xs, Scalar.isFinite x = true)
    (unit : ℚ) : Scalar.total (xs.map (· * number unit)) = Scalar.total xs * number unit := by
  have scaled : ∀ x ∈ xs, Scalar.isFinite (x * number unit) = true ∧
      (x * number unit).toRat = x.toRat * unit := fun x mem => by
    obtain ⟨q, rfl⟩ := isFinite_iff.1 (finite x mem)
    exact ⟨rfl, rfl⟩
  rw [total_eq (by simpa using fun x mem => (scaled x mem).1), total_eq finite, List.map_map,
    number_mul, ← List.sum_map_mul_right]
  exact congrArg (number ·.sum) (List.map_congr_left fun x mem => (scaled x mem).2)

end Extended

namespace Correction

variable {s : HistorySettings Extended} {held : HeldUsage Extended}
  {expected shares : Shares Extended} {entities : List String} {entity : String}

/-! ### What windows tell -/

section

variable {α : Type} [Scalar α]

def Evidence.fraction? (e : Evidence α) (entity : String) : Option α :=
  (counted? e.usage entity).map (· / e.total)

structure Evidence.Alike (e e' : Evidence α) : Prop where
  window : e'.window = e.window
  fraction : ∀ entity, e'.fraction? entity = e.fraction? entity

theorem windowFactor_eq (e : Evidence α) (totalShare share : α) (entity : String) :
    windowFactor e totalShare share entity = match e.fraction? entity with
      | none => some e.window.maxCorrection
      | some fraction => Scalar.clamp? (share / totalShare / fraction)
          (Scalar.one / e.window.maxCorrection) e.window.maxCorrection := by
  unfold windowFactor Evidence.fraction?
  cases counted? e.usage entity <;> rfl

theorem Evidence.Alike.windowFactor {e e' : Evidence α} (h : e.Alike e') (totalShare share : α)
    (entity : String) :
    Correction.windowFactor e' totalShare share entity =
      Correction.windowFactor e totalShare share entity := by
  rw [windowFactor_eq, windowFactor_eq, h.window, h.fraction]

theorem factorSum_congr {totalShare totalShare' share share' : α} {found found' : List (Evidence α)}
    (h : List.Forall₂ (fun e e' => e'.window.weight = e.window.weight ∧
      windowFactor e' totalShare' share' entity = windowFactor e totalShare share entity)
        found found') (start : α) :
    factorSum totalShare' share' entity start found' =
      factorSum totalShare share entity start found := by
  induction h generalizing start with
  | nil => rfl
  | cons first _ ih =>
    obtain ⟨weight, factor⟩ := first
    simp only [factorSum, weight, factor, ih]

theorem corrected?_alike {settings : HistorySettings α} {held held' : HeldUsage α}
    {expected : Shares α} (h : List.Forall₂ Evidence.Alike
      (evidence expected.keys settings.normalizedWindows held)
      (evidence expected.keys settings.normalizedWindows held')) :
    corrected? settings held' expected = corrected? settings held expected := by
  have empty : (evidence expected.keys settings.normalizedWindows held').isEmpty =
      (evidence expected.keys settings.normalizedWindows held).isEmpty := by
    rw [Bool.eq_iff_iff, List.isEmpty_iff_length_eq_zero, List.isEmpty_iff_length_eq_zero,
      h.length_eq]
  have same (totalShare share : α) (entity : String) :
      corrected settings (evidence expected.keys settings.normalizedWindows held') totalShare
          entity share =
        corrected settings (evidence expected.keys settings.normalizedWindows held) totalShare
          entity share := by
    unfold corrected
    rw [factorSum_congr (h.imp fun e e' alike =>
      ⟨congrArg UsageWindow.weight alike.window, alike.windowFactor totalShare share entity⟩)]
  simp only [corrected?, empty, same]

end

/-! ### Units -/

section

variable {unit : ℚ}

def inUnit (unit : ℚ) (amounts : Std.ExtTreeMap String Extended) :
    Std.ExtTreeMap String Extended :=
  amounts.map fun _ x => x * number unit

theorem values_inUnit (unit : ℚ) (amounts : Std.ExtTreeMap String Extended) :
    (inUnit unit amounts).values = amounts.values.map (· * number unit) := by
  simp [values_eq_map_snd, inUnit]

theorem getElem?_inUnit (unit : ℚ) (amounts : Std.ExtTreeMap String Extended) (key : String) :
    (inUnit unit amounts)[key]? = amounts[key]?.map (· * number unit) :=
  Std.ExtTreeMap.getElem?_map

theorem inUnit_one (amounts : Std.ExtTreeMap String Extended) : inUnit 1 amounts = amounts := by
  simp [inUnit, mul_number_one]

variable (positive : 0 < unit)

include positive

theorem counted?_inUnit (usage : Usage Extended) (entity : String) :
    counted? (inUnit unit usage) entity = (counted? usage entity).map (· * number unit) := by
  unfold counted?
  rw [getElem?_inUnit]
  cases usage[entity]? with
  | none => rfl
  | some x =>
    simp only [Option.map_some, Option.filter_some, isWeight_mul_number positive]
    split <;> rfl

omit positive in
theorem isFinite_counted (entities : List String) (usage : Usage Extended) :
    ∀ x ∈ entities.filterMap (counted? usage), Scalar.isFinite x = true := by
  intro x mem
  obtain ⟨entity, -, counted⟩ := List.mem_filterMap.1 mem
  exact isFinite_of_isWeight (isWeight_counted? counted)

theorem total_inUnit (entities : List String) (usage : Usage Extended) :
    Scalar.total (entities.filterMap (counted? (inUnit unit usage))) =
      Scalar.total (entities.filterMap (counted? usage)) * number unit := by
  rw [← total_mul_number (isFinite_counted entities usage) unit, List.map_filterMap]
  simp only [counted?_inUnit positive]

theorem windowEvidence_inUnit (entities : List String) (window : UsageWindow Extended)
    (usage : Usage Extended) : List.Forall₂ Evidence.Alike
      (windowEvidence entities window usage).toList
      (windowEvidence entities window (inUnit unit usage)).toList := by
  have enough : Scalar.total (entities.filterMap (counted? (inUnit unit usage))) ≤ Scalar.zero ↔
      Scalar.total (entities.filterMap (counted? usage)) ≤ Scalar.zero := by
    rw [← not_iff_not, enough_iff, enough_iff]
    simp only [counted?_inUnit positive, Option.isSome_map]
  by_cases little : Scalar.total (entities.filterMap (counted? usage)) ≤ Scalar.zero
  · simp only [windowEvidence, if_pos little, if_pos (enough.2 little)]
    exact .nil
  · simp only [windowEvidence, if_neg little, if_neg (mt enough.1 little)]
    refine .cons ⟨rfl, fun entity => ?_⟩ .nil
    unfold Evidence.fraction?
    rw [counted?_inUnit positive, total_inUnit positive, Option.map_map]
    refine Option.map_congr fun x counted => ?_
    exact mul_number_div x _ (isFinite_of_isWeight (isWeight_counted? counted))
      (isFinite_total (isFinite_counted entities usage)) positive

end

/-- Usage of one window held in different units. -/
def Remeasured (usage usage' : Option (Usage Extended)) : Prop :=
  ∃ unit > 0, usage' = usage.map (inUnit unit)

theorem evidence_alike (entities : List String) (windows : List (UsageWindow Extended))
    {held held' : HeldUsage Extended}
    (h : List.Forall₂ Remeasured held held') :
    List.Forall₂ Evidence.Alike (evidence entities windows held)
      (evidence entities windows held') := by
  induction windows generalizing held held' with
  | nil => exact .nil
  | cons window rest ih =>
    cases h with
    | nil => simp [evidence]
    | @cons usage _ _ _ first later =>
      obtain ⟨unit, positive, rfl⟩ := first
      rw [evidence_cons, evidence_cons]
      refine List.rel_append ?_ (ih later)
      cases usage with
      | none => exact .nil
      | some usage => exact windowEvidence_inUnit positive entities window usage

theorem forall₂_modify {unit : ℚ} (positive : 0 < unit) (held : HeldUsage Extended) (i : Nat) :
    List.Forall₂ Remeasured held (held.modify i (Option.map (inUnit unit))) := by
  have itself (usage : Option (Usage Extended)) : Remeasured usage usage :=
    ⟨1, zero_lt_one, by cases usage <;> simp [inUnit_one]⟩
  induction held generalizing i with
  | nil => simp
  | cons usage rest ih =>
    cases i with
    | zero => exact .cons ⟨unit, positive, rfl⟩ (List.forall₂_same.2 fun usage _ => itself usage)
    | succ i => exact .cons (itself usage) (ih i)

/-! ### Weights and shares in another unit -/

def reweigh (unit : ℚ) (s : HistorySettings Extended) : HistorySettings Extended :=
  { s with windows := s.windows.map fun w => { w with weight := w.weight * number unit } }

theorem normalizedWindows_reweigh (h : s.fault? = none) {unit : ℚ} (positive : 0 < unit) :
    (reweigh unit s).normalizedWindows = s.normalizedWindows := by
  have sound : (reweigh unit s).fault? = none := by
    rw [HistorySettings.fault?_eq_none] at h ⊢
    refine ⟨h.1, fun w mem => ?_⟩
    obtain ⟨original, present, rfl⟩ := List.mem_map.1 mem
    obtain ⟨span, weight, bound⟩ := h.2 original present
    exact ⟨span, (isWeight_mul_number positive _).trans weight, bound⟩
  have finite : ∀ x ∈ s.windows.map UsageWindow.weight, Scalar.isFinite x = true := by
    intro x mem
    obtain ⟨w, present, rfl⟩ := List.mem_map.1 mem
    exact isFinite_of_isWeight ((HistorySettings.fault?_eq_none.1 h).2 w present).2.1
  have total : Scalar.total ((reweigh unit s).windows.map UsageWindow.weight) =
      Scalar.total (s.windows.map UsageWindow.weight) * number unit := by
    rw [← total_mul_number finite unit, reweigh, List.map_map, List.map_map]
    rfl
  rw [normalizedWindows_eq sound, normalizedWindows_eq h, total, reweigh, List.map_map]
  refine List.map_congr_left fun w mem => ?_
  have weight := mul_number_div w.weight _ (finite _ (List.mem_map_of_mem mem))
    (isFinite_total finite) positive
  simp only [Function.comp_apply, weight]

theorem corrected?_reweigh (h : s.fault? = none) {unit : ℚ} (positive : 0 < unit)
    (held : HeldUsage Extended) (expected : Shares Extended) :
    corrected? (reweigh unit s) held expected = corrected? s held expected := by
  unfold corrected? corrected
  rw [normalizedWindows_reweigh h positive]
  rfl

section

variable {totalShare share unit : ℚ}

theorem corrected_inUnit (h : s.fault? = none) (total : 0 < totalShare) (positive : 0 < unit)
    {found : List (Evidence Extended)} (sound : ∀ e ∈ found, e.Sound) :
    corrected s found (number totalShare * number unit) entity (number share * number unit) =
      (corrected s found (number totalShare) entity (number share)).map (· * number unit) := by
  obtain ⟨bound, large, bounded⟩ := (HistorySettings.exists_bounds h).1
  obtain ⟨sum, summed⟩ := exists_factorSum total sound share entity 0
  have same : factorSum (number totalShare * number unit) (number share * number unit) entity
      Scalar.zero found = some (number sum) := by
    refine (factorSum_congr (List.forall₂_same.2 fun e _ => ⟨rfl, ?_⟩) _).trans summed
    rw [windowFactor_eq, windowFactor_eq, mul_number_div _ _ rfl rfl positive]
  rw [number_mul, number_mul] at same ⊢
  rw [corrected_eq large bounded summed, corrected_eq large bounded same, Option.map_some,
    number_mul, mul_right_comm]

theorem corrected?_inUnit (h : s.fault? = none)
    (finite : ∀ x ∈ expected.values, Scalar.isFinite x = true) (held : HeldUsage Extended)
    (positive : 0 < unit) :
    corrected? s held (inUnit unit expected) = (corrected? s held expected).map (inUnit unit) := by
  have inOrder : s.InOrder := HistorySettings.inOrder_of_bounds (fun _ => one_div_le_self) h
  obtain ⟨shares, computed⟩ := Option.isSome_iff_exists.1 (corrected?_isSome inOrder held expected)
  obtain ⟨shares', computed'⟩ := Option.isSome_iff_exists.1
    (corrected?_isSome inOrder held (inUnit unit expected))
  have keys : (inUnit unit expected).keys = expected.keys := Std.ExtTreeMap.keys_map
  have total : Scalar.total (inUnit unit expected).values =
      Scalar.total expected.values * number unit := by
    rw [values_inUnit, total_mul_number finite]
  have silent : Silent s held (inUnit unit expected) ↔ Silent s held expected := by
    rw [Silent, Silent, keys, total, total_eq finite, number_mul, zero_eq, number_le, number_le,
      ← not_lt, mul_pos_iff_of_pos_right positive, not_lt]
  rw [computed, computed', Option.map_some]
  congr 1
  refine Std.ExtTreeMap.ext_getElem? fun entity => ?_
  by_cases untold : Silent s held expected
  · cases (corrected?_of_silent untold).symm.trans computed
    cases (corrected?_of_silent (silent.2 untold)).symm.trans computed'
    rfl
  · have divisible : Divisible s held expected := divisible h finite
    obtain ⟨whole, above, same⟩ := isWeight_iff.1 (divisible.share untold)
    rw [getElem?_corrected? computed' (mt silent.1 untold), keys, total, getElem?_inUnit,
      getElem?_inUnit, getElem?_corrected? computed untold, same]
    cases known : expected[entity]? with
    | none => rfl
    | some x =>
      obtain ⟨share, rfl⟩ := isFinite_iff.1 (finite x (mem_values.2 ⟨entity, known⟩))
      exact corrected_inUnit h above positive (evidence_sound h expected.keys held)

end

/-! ### Who ran less -/

/-- Usage that does not count is none. -/
def ran (usage : Usage Extended) (entity : String) : Extended :=
  (counted? usage entity).getD Scalar.zero

theorem isWeight_normalized (h : s.fault? = none) {w : UsageWindow Extended}
    (mem : w ∈ s.normalizedWindows) : Scalar.isWeight w.weight = true := by
  rw [normalizedWindows_eq h] at mem
  obtain ⟨original, present, rfl⟩ := List.mem_map.1 mem
  exact isWeight_div ((HistorySettings.fault?_eq_none.1 h).2 original present).2.1
    (isWeight_weights h (List.ne_nil_of_mem present))

section

variable {totalShare : ℚ} {a b : String}

theorem clamped_le_clamped {bound p q total x : ℚ} (above : 0 < bound) (ranFirst : 0 < p)
    (less : p ≤ q) (total_pos : 0 < total) :
    min bound (max (1 / bound) (x / (q / total))) ≤
      min bound (max (1 / bound) (x / (p / total))) := by
  refine min_le_min_left bound ?_
  rcases le_total 0 x with nonneg | negative
  · exact max_le_max_left _ (div_le_div_of_nonneg_left nonneg (div_pos ranFirst total_pos)
      (div_le_div_of_nonneg_right less total_pos.le))
  · -- Below zero nothing but the lower bound is left.
    have fraction : 0 ≤ q / total := div_nonneg (ranFirst.le.trans less) total_pos.le
    have lowest : x / (q / total) ≤ 1 / bound :=
      (div_nonpos_of_nonpos_of_nonneg negative fraction).trans (one_div_pos.2 above).le
    rw [max_eq_left lowest]
    exact le_max_left _ _

theorem windowFactor_le {e : Evidence Extended} (sound : e.Sound) (positive : 0 < totalShare)
    (share : ℚ) (less : ran e.usage a ≤ ran e.usage b) :
    ∃ x y, windowFactor e (number totalShare) (number share) a = some (number x) ∧
      windowFactor e (number totalShare) (number share) b = some (number y) ∧ y ≤ x := by
  obtain ⟨bound, large, bounded⟩ := sound.bound
  obtain ⟨total, total_pos, same⟩ := isWeight_iff.1 sound.total
  have above : 0 < bound := zero_lt_one.trans_le large
  have factor {usage : ℚ} (counts : 0 < usage) {entity : String}
      (counted : counted? e.usage entity = some (number usage)) :
      windowFactor e (number totalShare) (number share) entity = some (number
        (min bound (max (1 / bound) (share / totalShare / (usage / total))))) := by
    rw [windowFactor, counted]
    simp only [same, bounded, one_eq, number_div _ positive.ne', number_div _ total_pos.ne',
      number_div _ (div_pos counts total_pos).ne', number_div _ above.ne',
      clamp?_number (Rational.one_div_le large)]
  have idle {entity : String} (silent : counted? e.usage entity = none) :
      windowFactor e (number totalShare) (number share) entity = some (number bound) := by
    rw [windowFactor, silent, bounded]
  unfold ran at less
  cases first : counted? e.usage a with
  | none =>
    cases second : counted? e.usage b with
    | none => exact ⟨bound, bound, idle first, idle second, le_rfl⟩
    | some usage =>
      obtain ⟨q, counts, rfl⟩ := isWeight_iff.1 (isWeight_counted? second)
      exact ⟨bound, _, idle first, factor counts second, min_le_left _ _⟩
  | some usage =>
    obtain ⟨p, counts, rfl⟩ := isWeight_iff.1 (isWeight_counted? first)
    cases second : counted? e.usage b with
    | none =>
      rw [first, second, Option.getD_some, Option.getD_none, zero_eq, number_le] at less
      exact absurd counts less.not_gt
    | some usage =>
      obtain ⟨q, counts', rfl⟩ := isWeight_iff.1 (isWeight_counted? second)
      rw [first, second, Option.getD_some, Option.getD_some, number_le] at less
      exact ⟨_, _, factor counts first, factor counts' second,
        clamped_le_clamped above counts less total_pos⟩

theorem factorSum_le {found : List (Evidence Extended)} (positive : 0 < totalShare) (share : ℚ)
    (h : ∀ e ∈ found, e.Sound ∧ Scalar.isWeight e.window.weight = true ∧
      ran e.usage a ≤ ran e.usage b) {start start' : ℚ} (ahead : start' ≤ start) :
    ∃ x y, factorSum (number totalShare) (number share) a (number start) found =
        some (number x) ∧
      factorSum (number totalShare) (number share) b (number start') found = some (number y) ∧
        y ≤ x := by
  induction found generalizing start start' with
  | nil => exact ⟨start, start', rfl, rfl, ahead⟩
  | cons e rest ih =>
    obtain ⟨sound, weighs, less⟩ := h e List.mem_cons_self
    obtain ⟨weight, above, same⟩ := isWeight_iff.1 weighs
    obtain ⟨x, y, first, second, factors⟩ := windowFactor_le sound positive share less
    have further : start' + y * weight ≤ start + x * weight :=
      add_le_add ahead (mul_le_mul_of_nonneg_right factors above.le)
    simp only [factorSum, first, second, Option.bind_eq_bind, Option.bind_some, same, number_mul,
      number_add]
    exact ih (fun e mem => h e (List.mem_cons_of_mem _ mem)) further

end

/-- In no window did the first entity run more than the second. -/
def RanLess (s : HistorySettings Extended) (held : HeldUsage Extended) (a b : String) : Prop :=
  ∀ paired ∈ s.windows.zip held, ∀ usage ∈ paired.2, ran usage a ≤ ran usage b

instance (s : HistorySettings Extended) (held : HeldUsage Extended) (a b : String) :
    Decidable (RanLess s held a b) :=
  inferInstanceAs (Decidable (∀ paired ∈ s.windows.zip held, ∀ usage ∈ paired.2, _))

theorem RanLess.evidence {a b : String} (less : RanLess s held a b) (h : s.fault? = none)
    (entities : List String) :
    ∀ e ∈ evidence entities s.normalizedWindows held, ran e.usage a ≤ ran e.usage b := by
  intro e mem
  rw [normalizedWindows_eq h, evidence_map] at mem
  obtain ⟨original, present, rfl⟩ := List.mem_map.1 mem
  exact less _ (mem_evidence.1 present).1 _ rfl

theorem corrected_le (h : s.fault? = none)
    (finite : ∀ x ∈ expected.values, Scalar.isFinite x = true)
    (computed : corrected? s held expected = some shares) {a b : String} {share : ℚ}
    (first : expected[a]? = some (number share)) (second : expected[b]? = some (number share))
    (less : RanLess s held a b) :
    ∃ x y, shares[a]? = some (number x) ∧ shares[b]? = some (number y) ∧
      (0 ≤ share → y ≤ x) ∧ (share ≤ 0 → x ≤ y) := by
  by_cases untold : Silent s held expected
  · cases (corrected?_of_silent untold).symm.trans computed
    exact ⟨share, share, first, second, fun _ => le_rfl, fun _ => le_rfl⟩
  · obtain ⟨bound, large, bounded⟩ := (HistorySettings.exists_bounds h).1
    have divisible : Divisible s held expected := divisible h finite
    obtain ⟨total, above, same⟩ := isWeight_iff.1 (divisible.share untold)
    obtain ⟨x, y, summed, summed', sums⟩ := factorSum_le above share
      (fun e mem => ⟨evidence_sound h expected.keys held e mem,
        isWeight_normalized h (window_mem_of_evidence mem), less.evidence h expected.keys e mem⟩)
      (le_refl 0)
    have factors : min bound (max (1 / bound) y) ≤ min bound (max (1 / bound) x) :=
      min_le_min_left bound (max_le_max_left _ sums)
    refine ⟨_, _, ?_, ?_, fun nonneg => mul_le_mul_of_nonneg_left factors nonneg,
      fun negative => mul_le_mul_of_nonpos_left factors negative⟩
    · rw [getElem?_corrected? computed untold, first, Option.bind_some, same,
        corrected_eq large bounded summed]
    · rw [getElem?_corrected? computed untold, second, Option.bind_some, same,
        corrected_eq large bounded summed']

structure Comparable (s : HistorySettings Extended) (held : HeldUsage Extended)
    (expected : Shares Extended) : Prop where
  answers : (corrected? s held expected).isSome
  ordered : ∀ shares, corrected? s held expected = some shares → ∀ (a b : String) (share : ℚ),
    expected[a]? = some (number share) → expected[b]? = some (number share) → RanLess s held a b →
      ∃ x y, shares[a]? = some (number x) ∧ shares[b]? = some (number y) ∧
        (0 ≤ share → y ≤ x) ∧ (share ≤ 0 → x ≤ y)
  usage : ∀ (unit : ℚ) (i : Nat), 0 < unit →
    corrected? s (held.modify i (Option.map (inUnit unit))) expected = corrected? s held expected
  weights : ∀ unit, 0 < unit →
    corrected? (reweigh unit s) held expected = corrected? s held expected
  shares : ∀ unit, 0 < unit →
    corrected? s held (inUnit unit expected) = (corrected? s held expected).map (inUnit unit)

theorem comparable_of_fault? (h : s.fault? = none)
    (finite : ∀ x ∈ expected.values, Scalar.isFinite x = true) (held : HeldUsage Extended) :
    Comparable s held expected where
  answers :=
    corrected?_isSome (HistorySettings.inOrder_of_bounds (fun _ => one_div_le_self) h) held expected
  ordered _ computed _ _ _ first second less := corrected_le h finite computed first second less
  usage _ i positive := corrected?_alike (evidence_alike _ _ (forall₂_modify positive held i))
  weights _ positive := corrected?_reweigh h positive held expected
  shares _ positive := corrected?_inUnit h finite held positive

end Correction

namespace Comparison

def even : Shares Extended := .ofList [("a", number 2), ("b", number 2), ("c", number 1)]

def mixed : HeldUsage Extended :=
  [some (.ofList [("a", undefined), ("b", number 10)]),
    some (.ofList [("a", number 2), ("b", number 4)])]

end Comparison

open Correction Limits in
theorem comparable_mixed :
    (settings.fault? = none ∧ ∀ x ∈ Comparison.even.values, Scalar.isFinite x = true) ∧
      (Comparison.even["a"]? = some (number 2) ∧ Comparison.even["b"]? = some (number 2) ∧
        RanLess settings Comparison.mixed "a" "b" ∧
        (corrected? settings Comparison.mixed Comparison.even).map (·.toList) =
          some [("a", number (16 / 5)), ("b", number (11 / 10)), ("c", number 3)]) ∧
      Comparable settings Comparison.mixed Comparison.even := by
  have fine : settings.fault? = none ∧
      ∀ x ∈ Comparison.even.values, Scalar.isFinite x = true := by decide +kernel
  refine ⟨fine, ?_, comparable_of_fault? fine.1 fine.2 Comparison.mixed⟩
  decide +kernel

namespace Comparison

def expected : Shares Extended := .ofList [("a", number (-1)), ("b", number (-1)), ("c", number 3)]

def held : HeldUsage Extended := [some (.ofList [("b", number 10)]), none]

end Comparison

/-- Who owes a share and ran less is left with the lower share. -/
theorem exists_less_lower : ¬ ∀ (s : HistorySettings Extended) (held : HeldUsage Extended)
    (expected shares : Shares Extended) (a b : String) (share x y : ℚ), s.fault? = none →
      (∀ x ∈ expected.values, Scalar.isFinite x = true) →
        expected[a]? = some (number share) → expected[b]? = some (number share) →
          Correction.RanLess s held a b → Correction.corrected? s held expected = some shares →
            shares[a]? = some (number x) → shares[b]? = some (number y) → y ≤ x := by
  intro ordered
  have moved : (Correction.corrected? Limits.settings Comparison.held Comparison.expected).map
      (·.toList) = some [("a", number (-1)), ("b", number (-1 / 3)), ("c", number 3)] := by
    decide +kernel
  obtain ⟨shares, computed, listed⟩ := Option.map_eq_some_iff.1 moved
  have first : shares["a"]? = some (number (-1)) :=
    Std.ExtTreeMap.mem_toList_iff_getElem?_eq_some.1 (by simp [listed])
  have second : shares["b"]? = some (number (-1 / 3)) :=
    Std.ExtTreeMap.mem_toList_iff_getElem?_eq_some.1 (by simp [listed])
  have higher := ordered Limits.settings Comparison.held Comparison.expected shares "a" "b" (-1) _ _
    (by decide +kernel) (by decide +kernel) (by decide +kernel) (by decide +kernel)
    (by decide +kernel) computed first second
  exact absurd higher (by decide +kernel)

end Matchmaker
