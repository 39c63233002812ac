import Matchmaker.Proofs.Broker.Weights
import Matchmaker.Proofs.Scalar.Classified

/-!
Classes of priorities. Written out, with each priority as often as its class has jobs, the classes
of some priorities are those priorities again in another order. So nothing is lost in counting them,
and what is added up over the classes is added up over the jobs.
-/
namespace Matchmaker.PriorityClass

variable {α : Type}

def expand (classes : List (PriorityClass α)) : List α :=
  classes.flatMap fun c => List.replicate c.jobs c.priority

@[simp] theorem expand_cons (c : PriorityClass α) (classes : List (PriorityClass α)) :
    expand (c :: classes) = List.replicate c.jobs c.priority ++ expand classes :=
  List.flatMap_cons

theorem length_expand (classes : List (PriorityClass α)) :
    (expand classes).length = (classes.map PriorityClass.jobs).sum := by
  simp only [expand, List.length_flatMap, List.length_replicate]

theorem sum_expand (classes : List (PriorityClass ℚ)) :
    (expand classes).sum = (classes.map contribution).sum := by
  induction classes with
  | nil => rfl
  | cons c rest ih =>
    have jobs : (Scalar.ofInt c.jobs : ℚ) = c.jobs := Int.cast_natCast c.jobs
    rw [expand_cons, List.sum_append, ih, List.sum_replicate, nsmul_eq_mul, List.map_cons,
      List.sum_cons, contribution, jobs, mul_comm]

variable [Scalar α]

structure Sound (classes : List (PriorityClass α)) : Prop where
  ascending : classes.Pairwise fun c d => c.priority < d.priority
  weights : ∀ c ∈ classes, Scalar.isWeight c.priority = true
  populated : ∀ c ∈ classes, 0 < c.jobs

theorem sound_cons {c : PriorityClass α} {classes : List (PriorityClass α)} :
    Sound (c :: classes) ↔ (∀ d ∈ classes, c.priority < d.priority) ∧
      Scalar.isWeight c.priority = true ∧ 0 < c.jobs ∧ Sound classes := by
  constructor
  · rintro ⟨ascending, weights, populated⟩
    obtain ⟨first, later⟩ := List.pairwise_cons.1 ascending
    obtain ⟨weight, weights⟩ := List.forall_mem_cons.1 weights
    obtain ⟨some, populated⟩ := List.forall_mem_cons.1 populated
    exact ⟨first, weight, some, later, weights, populated⟩
  · rintro ⟨first, weight, some, later, weights, populated⟩
    exact ⟨.cons first later, List.forall_mem_cons.2 ⟨weight, weights⟩,
      List.forall_mem_cons.2 ⟨some, populated⟩⟩

variable [Scalar.Classified α] {priority : α} {priorities : List α}
  {classes : List (PriorityClass α)}

theorem Sound.insert (h : Sound classes) (weight : Scalar.isWeight priority = true) :
    Sound (insert priority classes) := by
  induction classes with
  | nil => exact sound_cons.2 ⟨nofun, weight, Nat.one_pos, h⟩
  | cons c rest ih =>
    obtain ⟨first, own, some, later⟩ := sound_cons.1 h
    unfold PriorityClass.insert
    split
    · rename_i classed
      have below := Scalar.Classified.lt_of_compareClass weight own classed
      refine sound_cons.2 ⟨List.forall_mem_cons.2 ⟨below, fun d mem => ?_⟩, weight, Nat.one_pos, h⟩
      exact Scalar.Classified.trans below (first d mem)
    · exact sound_cons.2 ⟨first, own, Nat.succ_pos _, later⟩
    · rename_i classed
      refine sound_cons.2 ⟨fun d mem => ?_, own, some, ih later⟩
      rcases priority_of_mem_insert mem with same | old
      · exact same ▸ Scalar.Classified.gt_of_compareClass weight own classed
      · obtain ⟨d', mem', same⟩ := List.mem_map.1 old
        exact same ▸ first d' mem'

theorem expand_insert (weight : Scalar.isWeight priority = true)
    (weights : ∀ c ∈ classes, Scalar.isWeight c.priority = true) :
    (expand (insert priority classes)).Perm (priority :: expand classes) := by
  induction classes with
  | nil => exact .refl _
  | cons c rest ih =>
    obtain ⟨own, others⟩ := List.forall_mem_cons.1 weights
    unfold PriorityClass.insert
    split
    · exact .refl _
    · rename_i classed
      rw [Scalar.Classified.eq_of_compareClass weight own classed]
      exact .refl _
    · rw [expand_cons, expand_cons]
      exact ((ih others).append_left _).trans List.perm_middle

theorem sound_foldl (h : Sound classes)
    (weights : ∀ priority ∈ priorities, Scalar.isWeight priority = true) :
    Sound (priorities.foldl (fun classes priority => insert priority classes) classes) ∧
      (expand (priorities.foldl (fun classes priority => insert priority classes) classes)).Perm
        (priorities ++ expand classes) := by
  induction priorities generalizing classes with
  | nil => exact ⟨h, .refl _⟩
  | cons priority rest ih =>
    obtain ⟨weight, others⟩ := List.forall_mem_cons.1 weights
    obtain ⟨sound, perm⟩ := ih (h.insert weight) others
    refine ⟨sound, perm.trans ?_⟩
    exact ((expand_insert weight h.weights).append_left rest).trans List.perm_middle

theorem sound_ofPriorities (weights : ∀ priority ∈ priorities, Scalar.isWeight priority = true) :
    Sound (ofPriorities priorities) := (sound_foldl ⟨.nil, nofun, nofun⟩ weights).1

theorem expand_ofPriorities (weights : ∀ priority ∈ priorities, Scalar.isWeight priority = true) :
    (expand (ofPriorities priorities)).Perm priorities := by
  have empty : expand ([] : List (PriorityClass α)) = [] := rfl
  have perm := (sound_foldl ⟨.nil, nofun, nofun⟩ weights).2
  rwa [empty, List.append_nil] at perm

theorem Sound.countP_expand (h : Sound classes) {c : PriorityClass α} (mem : c ∈ classes) :
    (expand classes).countP (· == c.priority) = c.jobs := by
  induction classes with
  | nil => cases mem
  | cons d rest ih =>
    have weight := h.weights c mem
    obtain ⟨first, own, -, later⟩ := sound_cons.1 h
    rw [expand_cons, List.countP_append, List.countP_replicate]
    rcases List.mem_cons.1 mem with rfl | mem
    · have others : (expand rest).countP (· == c.priority) = 0 := by
        refine List.countP_eq_zero.2 fun priority there same => ?_
        obtain ⟨e, listed, repeated⟩ := List.mem_flatMap.1 there
        obtain rfl := List.eq_of_mem_replicate repeated
        have equal := (Scalar.Classified.beq_iff (later.weights e listed) weight).1 same
        exact Scalar.Classified.irrefl _ (equal ▸ first e listed)
      rw [others, if_pos ((Scalar.Classified.beq_iff own own).2 rfl), Nat.add_zero]
    · have apart : ¬ (d.priority == c.priority) = true := fun same =>
        Scalar.Classified.irrefl _ ((Scalar.Classified.beq_iff own weight).1 same ▸ first c mem)
      rw [if_neg apart, Nat.zero_add, ih later mem]

end Matchmaker.PriorityClass
