import Matchmaker.Proofs.Broker.Sharing
import Matchmaker.Proofs.Concurrency.Endurance
import Matchmaker.Proofs.Queue.Classes

/-!
The jobs of a queue as a match and as a split of a share see them. Classes are counted by comparing
effective priorities in one order, their jobs are found again by another comparison, and loads are
summed up job by job. All of these agree in every run, since the effective priority of every stored
job is a weight: on weights both comparisons come to equality.
-/
namespace Matchmaker

variable {α : Type} [Scalar α]

namespace Store

variable (s : Store α)

/-- The jobs of a set whose effective priority compares as equal to one. -/
def members (jobs : TextSet) (priority : α) : List String :=
  jobs.toList.filter fun job => s.jobs[job]?.any (·.effective == priority)

structure Graded : Prop where
  consistent : s.Consistent
  weights : ∀ (job : String) (record : Job α), s.jobs[job]? = some record →
    Scalar.isWeight record.effective = true

variable {s} {id : Int} {q : StoredQueue α} {jobs : TextSet} {priority : α}

theorem priorityClasses_of_found (found : s.queues[id]? = some q) :
    s.priorityClasses id = PriorityClass.ofPriorities (s.effectives q.jobs) := by
  rw [priorityClasses, found]

theorem jobsWithPriority_of_found (found : s.queues[id]? = some q) (limit : Nat) :
    s.jobsWithPriority id priority limit = (s.members q.jobs priority).take limit := by
  rw [jobsWithPriority, found]
  rfl

omit [Scalar α] in
theorem countJobs_of_found (found : s.queues[id]? = some q) : s.countJobs id = q.jobs.size := by
  rw [countJobs, found]
  rfl

theorem pairwise_members : (s.members jobs priority).Pairwise (· < ·) := by
  have ordered : jobs.toList.Pairwise fun a b => compare a b = .lt := Std.ExtTreeSet.ordered_toList
  exact List.Pairwise.filter _ (ordered.imp compareOfLessAndEq_eq_lt.1)

theorem length_members :
    (s.members jobs priority).length = (s.effectives jobs).countP (· == priority) := by
  rw [members, ← List.countP_eq_length_filter, effectives, List.countP_filterMap]
  congr 1
  funext job
  cases s.jobs[job]? <;> rfl

namespace Graded

variable (h : s.Graded)
include h

theorem stored (found : s.queues[id]? = some q) {job : String} (mem : job ∈ q.jobs) :
    ∃ record, s.jobs[job]? = some record := by
  obtain ⟨record, stored, -⟩ := (h.consistent.member id job).1 ⟨q, found, mem⟩
  exact ⟨record, stored⟩

theorem isWeight_of_mem (mem : priority ∈ s.effectives jobs) :
    Scalar.isWeight priority = true := by
  obtain ⟨job, -, record, stored, rfl⟩ := mem_effectives.1 mem
  exact h.weights job record stored

theorem length_effectives (found : s.queues[id]? = some q) :
    (s.effectives q.jobs).length = q.jobs.size := by
  rw [effectives, List.filterMap_length_eq_length.2, Std.ExtTreeSet.length_toList]
  intro job mem
  obtain ⟨record, stored⟩ := h.stored found (Std.ExtTreeSet.mem_toList.1 mem)
  rw [stored]
  rfl

variable [Scalar.Classified α]

theorem mem_members (weight : Scalar.isWeight priority = true) {job : String} :
    job ∈ s.members jobs priority ↔
      job ∈ jobs ∧ ∃ record, s.jobs[job]? = some record ∧ record.effective = priority := by
  rw [members, List.mem_filter, Std.ExtTreeSet.mem_toList, Option.any_eq_true]
  refine and_congr_right fun _ => exists_congr fun record => and_congr_right fun stored => ?_
  exact Scalar.Classified.beq_iff (h.weights job record stored) weight

theorem sound (jobs : TextSet) :
    PriorityClass.Sound (PriorityClass.ofPriorities (s.effectives jobs)) :=
  PriorityClass.sound_ofPriorities fun _ => h.isWeight_of_mem

theorem expand (jobs : TextSet) :
    (PriorityClass.expand (PriorityClass.ofPriorities (s.effectives jobs))).Perm
      (s.effectives jobs) :=
  PriorityClass.expand_ofPriorities fun _ => h.isWeight_of_mem

theorem length_members_of_mem {c : PriorityClass α}
    (mem : c ∈ PriorityClass.ofPriorities (s.effectives jobs)) :
    (s.members jobs c.priority).length = c.jobs := by
  rw [length_members, ← (h.expand jobs).countP_eq, (h.sound jobs).countP_expand mem]

theorem perm_members (found : s.queues[id]? = some q) :
    ((PriorityClass.ofPriorities (s.effectives q.jobs)).flatMap fun c =>
      s.members q.jobs c.priority).Perm q.jobs.toList := by
  have sound := h.sound q.jobs
  refine (List.perm_ext_iff_of_nodup ?_ q.jobs.nodup_toList).2 fun job => ?_
  · refine List.nodup_flatMap.2 ⟨fun c _ => q.jobs.nodup_toList.filter _, ?_⟩
    refine sound.ascending.imp_of_mem fun {c d} mem mem' below job here there => ?_
    -- A job has one effective priority, so that it is not listed for two classes.
    obtain ⟨-, record, stored, same⟩ := (h.mem_members (sound.weights c mem)).1 here
    obtain ⟨-, record', stored', same'⟩ := (h.mem_members (sound.weights d mem')).1 there
    cases stored.symm.trans stored'
    rw [← same, same'] at below
    exact Scalar.Classified.irrefl _ below
  · rw [List.mem_flatMap, Std.ExtTreeSet.mem_toList]
    constructor
    · rintro ⟨c, mem, listed⟩
      exact ((h.mem_members (sound.weights c mem)).1 listed).1
    · intro mem
      obtain ⟨record, stored⟩ := h.stored found mem
      have effective := mem_effectives.2 ⟨job, mem, record, stored, rfl⟩
      obtain ⟨c, classed, repeated⟩ := List.mem_flatMap.1 ((h.expand q.jobs).mem_iff.2 effective)
      have same := List.eq_of_mem_replicate repeated
      exact ⟨c, classed, (h.mem_members (sound.weights c classed)).2 ⟨mem, record, stored, same⟩⟩

end Graded

/-- What a match and a split of a share see of a queue. -/
structure Views (s : Store α) (id : Int) (q : StoredQueue α) : Prop where
  ascending : (s.priorityClasses id).Pairwise fun c d => c.priority < d.priority
  populated : ∀ c ∈ s.priorityClasses id, 0 < c.jobs
  /-- For a class the first of its jobs are found, in their order, and nothing else. -/
  listed : ∀ c ∈ s.priorityClasses id, ∃ members : List String, members.Pairwise (· < ·) ∧
    members.length = c.jobs ∧
    (∀ job, job ∈ members ↔
      job ∈ q.jobs ∧ ∃ record, s.jobs[job]? = some record ∧ record.effective = c.priority) ∧
    ∀ limit, s.jobsWithPriority id c.priority limit = members.take limit
  /-- Together the classes have the jobs of the queue, each of them once. -/
  partition : ((s.priorityClasses id).flatMap fun c =>
    s.jobsWithPriority id c.priority c.jobs).Perm q.jobs.toList
  populations : ((s.priorityClasses id).map PriorityClass.jobs).sum = s.countJobs id
  loads : ∀ group identity, ∀ l ∈ s.loads group identity, l.queue = id → l.jobs = s.countJobs id
  loaded : ∀ identity : Option String, identity.all (q.definition.ownerIdentity = ·) = true →
    ∃ l ∈ s.loads q.definition.ownerGroup identity, l.queue = id

theorem load_of_mem_loads {group : String} {identity : Option String} {l : Load α}
    (found : s.queues[id]? = some q) (mem : l ∈ s.loads group identity) (own : l.queue = id) :
    l = s.load id q := by
  obtain ⟨id', q', found', -, -, rfl⟩ := mem_loads_iff.1 mem
  obtain rfl : id' = id := own
  cases found.symm.trans found'
  rfl

theorem Graded.views [Scalar.Classified α] (h : s.Graded) (found : s.queues[id]? = some q) :
    s.Views id q := by
  have classes := priorityClasses_of_found found
  have sound := h.sound q.jobs
  have count := countJobs_of_found found
  have members {c : PriorityClass α} (mem : c ∈ s.priorityClasses id) :
      (s.members q.jobs c.priority).length = c.jobs := by
    rw [classes] at mem
    exact h.length_members_of_mem mem
  constructor
  · rw [classes]
    exact sound.ascending
  · rw [classes]
    exact sound.populated
  · intro c mem
    refine ⟨s.members q.jobs c.priority, pairwise_members, members mem, fun job => ?_,
      jobsWithPriority_of_found found⟩
    rw [classes] at mem
    exact h.mem_members (sound.weights c mem)
  · have whole : (s.priorityClasses id).flatMap (fun c => s.jobsWithPriority id c.priority c.jobs) =
        (s.priorityClasses id).flatMap fun c => s.members q.jobs c.priority := by
      refine List.flatMap_congr fun c mem => ?_
      rw [jobsWithPriority_of_found found, ← members mem, List.take_length]
    rw [whole, classes]
    exact h.perm_members found
  · rw [classes, ← PriorityClass.length_expand, (h.expand q.jobs).length_eq,
      h.length_effectives found, count]
  · intro group identity l mem own
    rw [load_of_mem_loads found mem own, count]
    rfl
  · intro identity admitted
    exact ⟨_, mem_loads_iff.2 ⟨id, q, found, rfl, admitted, rfl⟩, rfl⟩

end Store

theorem Store.Graded.sum_contributions {s : Store ℚ} {id : Int} {q : StoredQueue ℚ} (h : s.Graded)
    (found : s.queues[id]? = some q) {group : String} {identity : Option String} {l : Load ℚ}
    (mem : l ∈ s.loads group identity) (own : l.queue = id) :
    ((s.priorityClasses id).map PriorityClass.contribution).sum = l.sum := by
  rw [load_of_mem_loads found mem own, priorityClasses_of_found found, ← PriorityClass.sum_expand,
    (h.expand q.jobs).sum_eq]
  exact (Rational.total _).symm

/-! ### Runs -/

theorem Store.drawable_rational (s : Store ℚ) : s.Drawable where
  total _ := (le_or_gt _ _).imp_right fun above => (Rational.isWeight _).2 above
  found _ _ _ := beq_self_eq_true _

theorem Broker.Validated.clamps_rational {b : Broker ℚ} (valid : b.Validated) : b.Clamps where
  inOrder settings mem := HistorySettings.inOrder_of_rational (valid.history settings mem)
  effective submitted none := by
    have bounds := valid.sound.bounds
    simp only [PriorityBounds.isValid, Bool.and_eq_true, decide_eq_true_eq] at bounds
    obtain ⟨effective, clamped⟩ := PriorityBounds.exists_effective_of_le bounds.2.le submitted
    rw [clamped] at none
    cases none

theorem System.graded_run [Random.Logarithm α] {b : Broker α} (clamps : b.Clamps)
    (drawable : ∀ s : Store α, s.Weighed b.policy.bounds → s.Drawable)
    (weights : ∀ submitted effective, b.policy.bounds.effective? submitted = some effective →
      Scalar.isWeight effective = true) (moves : List (Move α)) :
    (System.run b moves).store.Graded where
  consistent := System.consistent_run b moves
  weights job record stored :=
    weights _ _ ((System.endures_run clamps drawable moves).weighed job record stored)

/-- With settings that have passed their checks, whatever calls are made and in whatever order they
take turns: the views of every stored queue agree, and over the exact rationals so do the sums of
its weights. -/
theorem views_run [Random.Logarithm ℚ] {b : Broker Float} (valid : b.Validated) {b' : Broker ℚ}
    (valid' : b'.Validated) :
    (∀ (moves : List (Move Float)) (id : Int) (q : StoredQueue Float),
      (System.run b moves).store.queues[id]? = some q → (System.run b moves).store.Views id q) ∧
    ∀ (moves : List (Move ℚ)) (id : Int) (q : StoredQueue ℚ),
      (System.run b' moves).store.queues[id]? = some q →
        (System.run b' moves).store.Views id q ∧
        ∀ group identity, ∀ l ∈ (System.run b' moves).store.loads group identity, l.queue = id →
          (((System.run b' moves).store.priorityClasses id).map PriorityClass.contribution).sum =
            l.sum := by
  refine ⟨fun moves id q found => ?_, fun moves id q found => ?_⟩
  · have graded : (System.run b moves).store.Graded :=
      System.graded_run valid.clamps (fun _ weighed => weighed.drawable valid.sound.bounds)
        (fun _ _ => Double.isWeight_effective valid.sound.bounds) moves
    exact graded.views found
  · have weights {submitted : Int} {effective : ℚ}
        (clamped : b'.policy.bounds.effective? submitted = some effective) :=
      (Rational.isWeight _).2 (PriorityBounds.effective?_pos valid'.sound.bounds clamped)
    have graded : (System.run b' moves).store.Graded :=
      System.graded_run valid'.clamps_rational (fun s _ => s.drawable_rational)
        (fun _ _ => weights) moves
    exact ⟨graded.views found, fun _ _ _ mem own => graded.sum_contributions found mem own⟩

namespace Store.Views

def moves (α : Type) : List (Move α) :=
  .start (.insert "j1" Tidiness.requirements 3) :: Move.turns 0 9 ++
    .start (.insert "j2" Tidiness.requirements 5) :: Move.turns 1 9

end Store.Views

attribute [local instance] Shared.logarithm in
theorem views_run_insertions :
    Broker.standard.Validated ∧ Shared.broker.Validated ∧
      (∃ q, (System.run .standard (Store.Views.moves Float)).store.queues[(1 : Int)]? = some q ∧
        q.jobs.size = 2 ∧ (System.run .standard (Store.Views.moves Float)).store.Views 1 q) ∧
      ∃ q, (System.run Shared.broker (Store.Views.moves ℚ)).store.queues[(1 : Int)]? = some q ∧
        q.jobs.size = 2 ∧ (System.run Shared.broker (Store.Views.moves ℚ)).store.Views 1 q := by
  have views := views_run Broker.validated_standard Shared.validated_broker
  have filled : ((System.run .standard (Store.Views.moves Float)).store.queues[(1 : Int)]?.map
      (·.jobs.size)) = some 2 := by decide +kernel
  have filled' : ((System.run Shared.broker (Store.Views.moves ℚ)).store.queues[(1 : Int)]?.map
      (·.jobs.size)) = some 2 := by decide +kernel
  obtain ⟨q, found, size⟩ := Option.map_eq_some_iff.1 filled
  obtain ⟨q', found', size'⟩ := Option.map_eq_some_iff.1 filled'
  exact ⟨Broker.validated_standard, Shared.validated_broker,
    ⟨q, found, size, views.1 _ 1 q found⟩, q', found', size', (views.2 _ 1 q' found').1⟩

end Matchmaker
