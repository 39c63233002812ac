import Std.Data.ExtTreeMap

/-!
Tables by key: what they list, and tables made anew from the entries of another.
-/
namespace Matchmaker

variable {κ β γ : Type} [Ord κ] [Std.TransOrd κ]

theorem values_eq_map_snd (t : Std.ExtTreeMap κ β) : t.values = t.toList.map Prod.snd := by
  obtain ⟨⟨t⟩⟩ := t
  induction t using Quotient.ind with
  | _ t =>
    change t.inner.values = (Std.DTreeMap.Internal.Impl.Const.toList t.inner).map Prod.snd
    rw [Std.DTreeMap.Internal.Impl.values_eq_map_snd,
      Std.DTreeMap.Internal.Impl.Const.toList_eq_toListModel_map, List.map_map]
    rfl

theorem mem_values [Std.LawfulEqOrd κ] {t : Std.ExtTreeMap κ β} {x : β} :
    x ∈ t.values ↔ ∃ key : κ, t[key]? = some x := by
  simp [values_eq_map_snd, Std.ExtTreeMap.mem_toList_iff_getElem?_eq_some]

/-! ### Entries replaced one by one -/

section

omit [Ord κ] [Std.TransOrd κ]

variable {f : κ → β → Option γ} {entries : List (κ × β)} {results : List (κ × γ)}

theorem keys_mapM
    (h : (entries.mapM fun entry => (f entry.1 entry.2).map (entry.1, ·)) = some results) :
    results.map Prod.fst = entries.map Prod.fst := by
  induction entries generalizing results with
  | nil =>
    cases h
    rfl
  | cons entry rest ih =>
    rw [List.mapM_cons] at h
    obtain ⟨first, here, h⟩ := Option.bind_eq_some_iff.1 h
    obtain ⟨others, found, same⟩ := Option.bind_eq_some_iff.1 h
    obtain ⟨value, -, rfl⟩ := Option.map_eq_some_iff.1 here
    cases same
    rw [List.map_cons, List.map_cons, ih found]

theorem mem_mapM
    (h : (entries.mapM fun entry => (f entry.1 entry.2).map (entry.1, ·)) = some results)
    {entry : κ × β} (mem : entry ∈ entries) :
    ∃ value, (entry.1, value) ∈ results ∧ f entry.1 entry.2 = some value := by
  induction entries generalizing results with
  | nil => cases mem
  | cons first rest ih =>
    rw [List.mapM_cons] at h
    obtain ⟨here, found, h⟩ := Option.bind_eq_some_iff.1 h
    obtain ⟨others, later, same⟩ := Option.bind_eq_some_iff.1 h
    obtain ⟨value, computed, rfl⟩ := Option.map_eq_some_iff.1 found
    cases same
    rcases List.mem_cons.1 mem with rfl | mem
    · exact ⟨value, List.mem_cons_self, computed⟩
    · obtain ⟨value, among, computed⟩ := ih later mem
      exact ⟨value, List.mem_cons_of_mem _ among, computed⟩

end

theorem getElem?_of_mapM {f : String → β → Option γ} {t : Std.ExtTreeMap String β}
    {made : Std.ExtTreeMap String γ}
    (h : (t.toList.mapM fun entry => (f entry.1 entry.2).map (entry.1, ·)).map
      (fun entries => Std.ExtTreeMap.ofList entries) = some made) (key : String) :
    made[key]? = t[key]?.bind (f key) := by
  obtain ⟨entries, computed, rfl⟩ := Option.map_eq_some_iff.1 h
  have keys := keys_mapM computed
  cases known : t[key]? with
  | none =>
    have absent : key ∉ t := by simpa using known
    refine Std.ExtTreeMap.getElem?_ofList_of_contains_eq_false ?_
    simpa [keys, Std.ExtTreeMap.map_fst_toList_eq_keys] using absent
  | some x =>
    obtain ⟨y, among, here⟩ := mem_mapM computed
      (Std.ExtTreeMap.mem_toList_iff_getElem?_eq_some.2 known)
    have distinct : entries.Pairwise fun a b => ¬ compare a.1 b.1 = .eq := by
      have listed : t.toList.Pairwise fun a b => ¬ compare a.1 b.1 = .eq :=
        Std.ExtTreeMap.distinct_keys_toList
      rw [← List.pairwise_map (f := Prod.fst) (R := fun a b : String => ¬ compare a b = .eq)]
        at listed ⊢
      rwa [keys]
    rw [Option.bind_some, here]
    exact Std.ExtTreeMap.getElem?_ofList_of_mem Std.ReflCmp.compare_self distinct among

end Matchmaker
