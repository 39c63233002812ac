import Matchmaker.Proofs.Queue.Attribute
import Matchmaker.Proofs.Store.Effect
import Matchmaker.Proofs.Tables
import Mathlib.Data.List.Nodup

/-!
Writing priorities changes nothing else that a recalculation looks at, and what a queue has
afterwards is the last priority written to it.
-/
namespace Matchmaker

namespace Store

variable {α : Type}

/-! ### The last priority -/

theorem lastPriority_append (id : Int) (xs ys : List (Int × α)) (before : α) :
    lastPriority id (xs ++ ys) before = lastPriority id ys (lastPriority id xs before) :=
  List.foldl_append

theorem lastPriority_of_not_mem {id : Int} {priorities : List (Int × α)}
    (h : id ∉ priorities.map Prod.fst) (before : α) :
    lastPriority id priorities before = before := by
  induction priorities generalizing before with
  | nil => rfl
  | cons entry rest ih =>
    rw [List.map_cons, List.mem_cons, not_or] at h
    rw [lastPriority, List.foldl_cons, if_neg (Ne.symm h.1)]
    exact ih h.2 before

theorem lastPriority_of_mem {id : Int} {priorities : List (Int × α)}
    (h : id ∈ priorities.map Prod.fst) (before before' : α) :
    lastPriority id priorities before = lastPriority id priorities before' := by
  induction priorities generalizing before before' with
  | nil => cases h
  | cons entry rest ih =>
    by_cases own : entry.1 = id
    · simp only [lastPriority, List.foldl_cons, own, if_true]
    · have later : id ∈ rest.map Prod.fst := by simpa [Ne.symm own] using h
      simp only [lastPriority, List.foldl_cons, own, if_false]
      exact ih later before before'

theorem lastPriority_mem {id : Int} {priorities : List (Int × α)}
    (h : id ∈ priorities.map Prod.fst) (before : α) :
    (id, lastPriority id priorities before) ∈ priorities := by
  induction priorities generalizing before with
  | nil => cases h
  | cons entry rest ih =>
    rw [lastPriority, List.foldl_cons]
    by_cases later : id ∈ rest.map Prod.fst
    · exact List.mem_cons_of_mem entry (ih later _)
    · have own : entry.1 = id := by simpa [later, eq_comm] using h
      have last : lastPriority id rest entry.2 = entry.2 := lastPriority_of_not_mem later entry.2
      rw [lastPriority] at last
      rw [if_pos own, last, ← own]
      exact List.mem_cons_self

theorem lastPriority_eq {id : Int} {priorities : List (Int × α)} {priority : α}
    (distinct : (priorities.map Prod.fst).Nodup) (mem : (id, priority) ∈ priorities) (before : α) :
    lastPriority id priorities before = priority := by
  have last := lastPriority_mem (List.mem_map_of_mem mem) before
  exact congrArg Prod.snd (List.inj_on_of_nodup_map distinct last mem rfl)

theorem setPriorities_append (s : Store α) (xs ys : List (Int × α)) :
    s.setPriorities (xs ++ ys) = (s.setPriorities xs).setPriorities ys := List.foldl_append

/-! ### What stays -/

theorem queues_setPriorities (s : Store α) (priorities : List (Int × α)) :
    (s.setPriorities priorities).queues =
      s.queues.map fun id q => { q with priority := lastPriority id priorities q.priority } :=
  Std.ExtTreeMap.ext_getElem? fun id => by
    rw [getElem?_queues_setPriorities, Std.ExtTreeMap.getElem?_map]

theorem setPriorities_eq (s : Store α) (priorities : List (Int × α)) :
    s.setPriorities priorities =
      { s with
        queues := s.queues.map fun id q =>
          { q with priority := lastPriority id priorities q.priority } } := by
  have queues := s.queues_setPriorities priorities
  obtain ⟨lastId, index, jobs⟩ := s.setPriorities_rest priorities
  generalize s.setPriorities priorities = t at queues lastId index jobs
  obtain ⟨_, _, _, _⟩ := t
  cases queues
  cases lastId
  cases index
  cases jobs
  rfl

/-- Priorities count by what they leave to the queues that are there. -/
theorem setPriorities_congr {s : Store α} {xs ys : List (Int × α)}
    (h : ∀ (id : Int) (q : StoredQueue α), s.queues[id]? = some q →
      lastPriority id xs q.priority = lastPriority id ys q.priority) :
    s.setPriorities xs = s.setPriorities ys := by
  rw [setPriorities_eq, setPriorities_eq]
  congr 1
  refine Std.ExtTreeMap.ext_getElem? fun id => ?_
  rw [Std.ExtTreeMap.getElem?_map, Std.ExtTreeMap.getElem?_map]
  cases found : s.queues[id]? with
  | none => rfl
  | some q => simp only [Option.map_some, h id q found]

theorem toList_queues_setPriorities (s : Store α) (priorities : List (Int × α)) :
    (s.setPriorities priorities).queues.toList = s.queues.toList.map fun entry =>
      (entry.1, { entry.2 with priority := lastPriority entry.1 priorities entry.2.priority }) := by
  rw [queues_setPriorities, Std.ExtTreeMap.toList_map]

@[simp] theorem groups_setPriorities (s : Store α) (priorities : List (Int × α)) :
    (s.setPriorities priorities).groups = s.groups := by
  simp [groups, values_eq_map_snd, toList_queues_setPriorities, Function.comp_def]

@[simp] theorem ownersIn_setPriorities (s : Store α) (priorities : List (Int × α)) (group : String) :
    (s.setPriorities priorities).ownersIn group = s.ownersIn group := by
  simp [ownersIn, values_eq_map_snd, toList_queues_setPriorities, Function.comp_def]

@[simp] theorem loads_setPriorities [Scalar α] (s : Store α) (priorities : List (Int × α))
    (group : String) (identity : Option String) :
    (s.setPriorities priorities).loads group identity = s.loads group identity := by
  unfold loads effectives
  rw [toList_queues_setPriorities, List.filterMap_map, jobs_setPriorities]
  rfl

/-! ### Groups, owners and loads -/

theorem mem_groups {s : Store α} {group : String} :
    group ∈ s.groups ↔
      ∃ (id : Int) (q : StoredQueue α), s.queues[id]? = some q ∧ q.definition.ownerGroup = group := by
  simp [groups, values_eq_map_snd, Std.ExtTreeMap.mem_toList_iff_getElem?_eq_some]

theorem mem_ownersIn {s : Store α} {group owner : String} :
    owner ∈ s.ownersIn group ↔ ∃ (id : Int) (q : StoredQueue α), s.queues[id]? = some q ∧
      q.definition.ownerGroup = group ∧ q.definition.ownerIdentity = owner := by
  simp [ownersIn, values_eq_map_snd, Std.ExtTreeMap.mem_toList_iff_getElem?_eq_some]

def load [Scalar α] (s : Store α) (id : Int) (q : StoredQueue α) : Load α :=
  ⟨id, Scalar.total (s.effectives q.jobs), q.jobs.size⟩

theorem mem_loads_iff [Scalar α] {s : Store α} {group : String} {identity : Option String}
    {l : Load α} :
    l ∈ s.loads group identity ↔
      ∃ (id : Int) (q : StoredQueue α), s.queues[id]? = some q ∧ q.definition.ownerGroup = group ∧
        identity.all (q.definition.ownerIdentity = ·) = true ∧ l = s.load id q := by
  simp only [loads, List.mem_filterMap, Prod.exists,
    Std.ExtTreeMap.mem_toList_iff_getElem?_eq_some, Option.ite_none_right_eq_some,
    Bool.and_eq_true, decide_eq_true_eq, Option.some.injEq, and_assoc, load, eq_comm (a := l)]

theorem mem_loads [Scalar α] {s : Store α} {group : String} {identity : Option String} {id : Int} :
    id ∈ (s.loads group identity).map Load.queue ↔
      ∃ q : StoredQueue α, s.queues[id]? = some q ∧ q.definition.ownerGroup = group ∧
        identity.all (q.definition.ownerIdentity = ·) = true := by
  simp only [List.mem_map, mem_loads_iff]
  constructor
  · rintro ⟨_, ⟨_, q, found, own, admitted, rfl⟩, rfl⟩
    exact ⟨q, found, own, admitted⟩
  · rintro ⟨q, found, own, admitted⟩
    exact ⟨_, ⟨id, q, found, own, admitted, rfl⟩, rfl⟩

theorem nodup_loads [Scalar α] (s : Store α) (group : String) (identity : Option String) :
    ((s.loads group identity).map Load.queue).Nodup := by
  have distinct : s.queues.toList.Pairwise fun a b => ¬ compare a.1 b.1 = .eq :=
    Std.ExtTreeMap.distinct_keys_toList
  refine List.pairwise_map.2 (distinct.filterMap _ ?_)
  intro a a' apart l mem l' mem'
  simp only [Option.ite_none_right_eq_some, Option.some.injEq] at mem mem'
  rw [← mem.2, ← mem'.2]
  simpa using apart

theorem disjoint_loads [Scalar α] (s : Store α) (group : String) {owner owner' : String}
    (h : owner ≠ owner') :
    ((s.loads group (some owner)).map Load.queue).Disjoint
      ((s.loads group (some owner')).map Load.queue) := by
  intro id mem mem'
  obtain ⟨q, found, -, own⟩ := mem_loads.1 mem
  obtain ⟨q', found', -, own'⟩ := mem_loads.1 mem'
  cases found.symm.trans found'
  simp only [Option.all_some, decide_eq_true_eq] at own own'
  exact h (own.symm.trans own')

end Store

end Matchmaker
