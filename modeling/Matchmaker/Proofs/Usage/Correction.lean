import Matchmaker.Proofs.Scalar.Reciprocal
import Matchmaker.Proofs.Tables
import Matchmaker.Usage.Correction

/-!
Usage can always be taken into account: with settings that are not at fault no bound of the
correction is below its reciprocal, so that each factor can be clamped. A correction is of the same
entities, and of the usage held it only sees what there is of each window.
-/
namespace Matchmaker

namespace Scalar

variable {α : Type} [Scalar α]

theorem clamp?_isSome {x lo hi : α} (h : lo ≤ hi) : (clamp? x lo hi).isSome := by
  rw [clamp?, if_pos h]
  rfl

end Scalar

namespace HistorySettings

variable {α : Type} [Scalar α]

/-- A factor can be clamped between each bound and its reciprocal. -/
structure InOrder (s : HistorySettings α) : Prop where
  overall : Scalar.one / s.maxCorrection ≤ s.maxCorrection
  window : ∀ w ∈ s.windows, Scalar.one / w.maxCorrection ≤ w.maxCorrection

theorem InOrder.normalized {s : HistorySettings α} (h : s.InOrder) :
    ∀ w ∈ s.normalizedWindows, Scalar.one / w.maxCorrection ≤ w.maxCorrection := by
  intro w mem
  rw [normalizedWindows] at mem
  split at mem
  · cases mem
  · obtain ⟨original, present, rfl⟩ := List.mem_map.1 mem
    exact h.window original present

theorem windowFault?_eq_none {w : UsageWindow α} : windowFault? w = none ↔
    w.span ≠ 0 ∧ Scalar.isWeight w.weight = true ∧ isBound w.maxCorrection = true := by
  unfold windowFault?
  split
  · simp [*]
  · split
    · simp_all
    · split <;> simp_all

theorem fault?_eq_none {s : HistorySettings α} : s.fault? = none ↔
    isBound s.maxCorrection = true ∧ ∀ w ∈ s.windows,
      w.span ≠ 0 ∧ Scalar.isWeight w.weight = true ∧ isBound w.maxCorrection = true := by
  unfold fault?
  split <;> simp_all [windowFault?_eq_none]

theorem inOrder_of_bounds (bound : ∀ x : α, isBound x = true → Scalar.one / x ≤ x)
    {s : HistorySettings α} (h : s.fault? = none) : s.InOrder := by
  obtain ⟨overall, windows⟩ := fault?_eq_none.1 h
  exact ⟨bound _ overall, fun w mem => bound _ (windows w mem).2.2⟩

theorem inOrder_of_fault? {s : HistorySettings Float} (h : s.fault? = none) : s.InOrder := by
  refine inOrder_of_bounds (fun x bound => ?_) h
  rw [isBound, Bool.and_eq_true, decide_eq_true_iff] at bound
  exact Reciprocal.one_div_le bound.1 bound.2

end HistorySettings

namespace Correction

variable {α : Type} [Scalar α]

theorem mem_evidence {entities : List String} {windows : List (UsageWindow α)}
    {held : HeldUsage α} {e : Evidence α} : e ∈ evidence entities windows held ↔
      (e.window, some e.usage) ∈ windows.zip held ∧
        e.total = Scalar.total (entities.filterMap (counted? e.usage)) ∧
          ¬ e.total ≤ Scalar.zero := by
  simp only [evidence, List.mem_filterMap, Prod.exists, Option.bind_eq_some_iff,
    Option.ite_none_left_eq_some, Option.some.injEq]
  constructor
  · rintro ⟨w, _, paired, usage, rfl, enough, rfl⟩
    exact ⟨paired, rfl, enough⟩
  · rintro ⟨paired, same, enough⟩
    rw [same] at enough
    exact ⟨e.window, _, paired, e.usage, rfl, enough, by rw [← same]⟩

theorem window_mem_of_evidence {entities : List String} {windows : List (UsageWindow α)}
    {held : HeldUsage α} {e : Evidence α} (h : e ∈ evidence entities windows held) :
    e.window ∈ windows :=
  (List.of_mem_zip (mem_evidence.1 h).1).1

theorem evidence_map (entities : List String) (windows : List (UsageWindow α)) (held : HeldUsage α)
    (f : UsageWindow α → UsageWindow α) : evidence entities (windows.map f) held =
      (evidence entities windows held).map fun e => { e with window := f e.window } := by
  simp only [evidence, List.zip_map_left, List.filterMap_map, List.map_filterMap]
  congr 1
  funext ⟨w, usage⟩
  cases usage with
  | none => rfl
  | some usage =>
    simp only [Function.comp_apply, Prod.map_apply, id_eq, Option.bind_some]
    split <;> rfl

theorem windowFactor_isSome {e : Evidence α} (totalShare share : α) (entity : String)
    (h : Scalar.one / e.window.maxCorrection ≤ e.window.maxCorrection) :
    (windowFactor e totalShare share entity).isSome := by
  unfold windowFactor
  split
  · rfl
  · exact Scalar.clamp?_isSome h

theorem factorSum_isSome {found : List (Evidence α)} (totalShare share : α) (entity : String)
    (sum : α)
    (h : ∀ e ∈ found, Scalar.one / e.window.maxCorrection ≤ e.window.maxCorrection) :
    (factorSum totalShare share entity sum found).isSome := by
  induction found generalizing sum with
  | nil => rfl
  | cons e rest ih =>
    obtain ⟨factor, same⟩ := Option.isSome_iff_exists.1
      (windowFactor_isSome totalShare share entity (h e List.mem_cons_self))
    rw [factorSum, same]
    exact ih _ fun e mem => h e (List.mem_cons_of_mem _ mem)

theorem corrected_isSome {settings : HistorySettings α} (h : settings.InOrder)
    {found : List (Evidence α)} (totalShare : α) (entity : String) (share : α)
    (bounded : ∀ e ∈ found, Scalar.one / e.window.maxCorrection ≤ e.window.maxCorrection) :
    (corrected settings found totalShare entity share).isSome := by
  obtain ⟨sum, summed⟩ := Option.isSome_iff_exists.1
    (factorSum_isSome totalShare share entity Scalar.zero bounded)
  obtain ⟨factor, clamped⟩ := Option.isSome_iff_exists.1
    (Scalar.clamp?_isSome (x := sum) h.overall)
  simp [corrected, summed, clamped]

theorem mapM_isSome {β γ : Type} {f : β → Option γ} {items : List β}
    (h : ∀ x ∈ items, (f x).isSome) : (items.mapM f).isSome := by
  induction items with
  | nil => rfl
  | cons x rest ih =>
    obtain ⟨y, here⟩ := Option.isSome_iff_exists.1 (h x List.mem_cons_self)
    obtain ⟨ys, others⟩ := Option.isSome_iff_exists.1
      (ih fun z mem => h z (List.mem_cons_of_mem x mem))
    simp [List.mapM_cons, here, others]

theorem corrected?_isSome {settings : HistorySettings α} (h : settings.InOrder)
    (held : HeldUsage α) (expected : Shares α) : (corrected? settings held expected).isSome := by
  simp only [corrected?]
  split
  · rfl
  · rw [Option.isSome_map]
    refine mapM_isSome fun entry _ => ?_
    rw [Option.isSome_map]
    refine corrected_isSome h _ entry.1 entry.2 fun e mem => ?_
    exact h.normalized e.window (window_mem_of_evidence mem)

/-! ### What a correction sees and what it keeps -/

def windowEvidence (entities : List String) (window : UsageWindow α) (usage : Usage α) :
    Option (Evidence α) :=
  let total := Scalar.total (entities.filterMap (counted? usage))
  if total ≤ Scalar.zero then none else some ⟨window, usage, total⟩

theorem evidence_cons (entities : List String) (window : UsageWindow α)
    (windows : List (UsageWindow α)) (held : HeldUsage α) :
    evidence entities (window :: windows) held =
      (held[0]?.join.bind (windowEvidence entities window)).toList
        ++ evidence entities windows held.tail := by
  rcases held with _ | ⟨_ | usage, rest⟩
  · simp [evidence]
  · simp [evidence]
  · simp only [evidence, windowEvidence, List.zip_cons_cons, List.filterMap_cons, Option.bind_some,
      List.getElem?_cons_zero, Option.join_some, List.tail_cons]
    split <;> simp [*]

theorem evidence_congr (entities : List String) {windows : List (UsageWindow α)}
    {held held' : HeldUsage α} (h : ∀ i < windows.length, held[i]?.join = held'[i]?.join) :
    evidence entities windows held = evidence entities windows held' := by
  induction windows generalizing held held' with
  | nil => rfl
  | cons window rest ih =>
    have first : held[0]?.join = held'[0]?.join := h 0 (Nat.zero_lt_succ _)
    have later : ∀ i < rest.length, held.tail[i]?.join = held'.tail[i]?.join := by
      intro i short
      simpa using h (i + 1) (Nat.succ_lt_succ short)
    rw [evidence_cons, evidence_cons, first, ih later]

theorem corrected?_congr {settings : HistorySettings α} {held held' : HeldUsage α}
    (h : ∀ i < settings.normalizedWindows.length, held[i]?.join = held'[i]?.join)
    (expected : Shares α) :
    corrected? settings held expected = corrected? settings held' expected := by
  unfold corrected?
  rw [evidence_congr _ h]

def Silent (settings : HistorySettings α) (held : HeldUsage α) (expected : Shares α) : Prop :=
  Scalar.total expected.values ≤ Scalar.zero ∨
    evidence expected.keys settings.normalizedWindows held = []

theorem corrected?_of_silent {settings : HistorySettings α} {held : HeldUsage α}
    {expected : Shares α} (h : Silent settings held expected) :
    corrected? settings held expected = some expected := by
  simp only [corrected?, Bool.or_eq_true, decide_eq_true_eq, List.isEmpty_iff]
  exact if_pos h

theorem getElem?_corrected? {settings : HistorySettings α} {held : HeldUsage α}
    {expected shares : Shares α} (h : corrected? settings held expected = some shares)
    (told : ¬ Silent settings held expected) (entity : String) :
    shares[entity]? = expected[entity]?.bind (corrected settings
      (evidence expected.keys settings.normalizedWindows held) (Scalar.total expected.values)
      entity) := by
  simp only [corrected?, Bool.or_eq_true, decide_eq_true_eq, List.isEmpty_iff] at h
  rw [if_neg (show ¬(_ ∨ _) from told)] at h
  exact getElem?_of_mapM h entity

theorem mem_corrected? {settings : HistorySettings α} {held : HeldUsage α}
    {expected shares : Shares α} (h : corrected? settings held expected = some shares)
    (entity : String) : entity ∈ shares ↔ entity ∈ expected := by
  unfold corrected? at h
  dsimp only at h
  split at h
  · cases h
    rfl
  · obtain ⟨entries, computed, rfl⟩ := Option.map_eq_some_iff.1 h
    rw [Std.ExtTreeMap.mem_ofList, List.contains_iff_mem, keys_mapM computed,
      Std.ExtTreeMap.map_fst_toList_eq_keys, Std.ExtTreeMap.mem_keys]

end Correction

end Matchmaker
