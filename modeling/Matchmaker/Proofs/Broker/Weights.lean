import Matchmaker.Proofs.Broker.Asking
import Matchmaker.Proofs.Broker.Sequence
import Matchmaker.Proofs.Random.Choice
import Matchmaker.Proofs.Scalar.Rounding

/-!
The priorities that stored jobs have. Each is the effective one of what was submitted; so in doubles
it is a number that equals itself, and the weights of all classes of a queue sum up to a number that
can be drawn below.
-/
namespace Matchmaker

variable {α : Type} [Scalar α]

/-- The effective priorities follow from those submitted. -/
def Store.Weighed (bounds : PriorityBounds α) (s : Store α) : Prop :=
  ∀ (job : String) (record : Job α), s.jobs[job]? = some record →
    bounds.effective? record.submitted = some record.effective

def Request.Weighs (bounds : PriorityBounds α) : Request α → Prop
  | store (.addJob _ _ submitted effective) => bounds.effective? submitted = some effective
  | store (.updateJob _ submitted effective) => bounds.effective? submitted = some effective
  | _ => True

variable {bounds : PriorityBounds α}

namespace Request

theorem weighs_of_isApart {q : Request α} (h : q.isApart = true) : q.Weighs bounds := by
  unfold Weighs
  split
  · cases h
  · cases h
  · trivial

theorem weighs_of_isStill {q : Request α} (h : q.isStill = true) : q.Weighs bounds := by
  unfold Weighs
  split
  · cases h
  · cases h
  · trivial

theorem weighs_of_inserts {job : String} {submitted : Int} {effective : α}
    (clamped : bounds.effective? submitted = some effective) {q : Request α}
    (h : q.Inserts job submitted effective) : q.Weighs bounds := by
  unfold Weighs
  split
  · obtain ⟨rfl, rfl, rfl⟩ := h
    exact clamped
  · exact h.elim
  · trivial

end Request

theorem Store.Weighed.effect {s t : Store α} (h : s.Weighed bounds) {call : StoreCall α}
    {answer : Except StoreError call.Answer} (effect : s.Effect call answer t)
    (asked : (Request.store call).Weighs bounds) : t.Weighed bounds := by
  cases effect with
  | added id job submitted effective q absent found =>
    intro other record stored
    rw [Std.ExtTreeMap.getElem?_insert] at stored
    split at stored
    · cases stored
      exact asked
    · exact h other record stored
  | removed job record found =>
    intro other record' stored
    rw [Std.ExtTreeMap.getElem?_erase] at stored
    split at stored
    · cases stored
    · exact h other record' stored
  | updated job submitted effective record found =>
    intro other record' stored
    rw [Std.ExtTreeMap.getElem?_insert] at stored
    split at stored
    · cases stored
      exact asked
    · exact h other record' stored
  | prioritized priorities =>
    intro job record stored
    rw [Store.jobs_setPriorities] at stored
    exact h job record stored
  | _ => exact h

theorem Store.weighed_empty : ({} : Store α).Weighed bounds := by simp [Weighed]

namespace Weights

open Operation

variable {b : Broker α} {β : Type}

abbrev Weighs (b : Broker α) (breaks : Prop) (x : Operation α β) : Prop :=
  x.Within (Request.Weighs b.policy.bounds) breaks

variable {breaks : Prop}

theorem weighs_of_apart {x : Operation α β} (h : x.Within (fun q => q.isApart = true) breaks) :
    Weighs b breaks x := h.mono (fun _ => Request.weighs_of_isApart) id

theorem weighs_of_still {x : Operation α β} (unordered : ¬ b.InOrder → breaks)
    (h : Broker.Still b.InOrder x) : Weighs b breaks x :=
  h.mono (fun _ => Request.weighs_of_isStill) unordered

section Updates

variable (unbounded : ∀ submitted, b.policy.bounds.effective? submitted = none → breaks)
include unbounded

theorem weighs_updateJobs (u : Broker.Updates) (updates : List (String × Int)) :
    Weighs b breaks (b.updateJobs u updates) := by
  induction updates generalizing u with
  | nil => exact within_pure u
  | cons update rest ih =>
    obtain ⟨job, submitted⟩ := update
    refine Within.orAbort_bind (unbounded submitted) fun effective clamped => ?_
    refine Within.bind (within_store clamped) fun home => ?_
    cases home with
    | none => exact ih _
    | some id => exact ih _

theorem weighs_reprioritize (unordered : ¬ b.InOrder → breaks) (updates : List (String × Int)) :
    Weighs b breaks (b.reprioritize updates) := by
  refine Within.bind (weighs_updateJobs unbounded {} updates) fun u => ?_
  refine Within.bind (Broker.within_groupsOf (fun _ => trivial) _) fun groups => ?_
  exact Within.bind (weighs_of_still unordered (b.still_recalculateGroups _)) fun _ => within_pure _

end Updates

variable [Random.Logarithm α]

attribute [local irreducible] Broker.definitionFor

theorem weighs_course (call : BrokerCall)
    (unbounded : ∀ submitted, b.policy.bounds.effective? submitted = none → breaks)
    (unordered : ¬ b.InOrder → breaks) (matching : ∀ resource, call = .takeJob resource → breaks) :
    Weighs b breaks (b.course call) := by
  cases call with
  | insert job requirements submitted =>
    exact Asking.within_insert job submitted unordered requirements (unbounded submitted)
      (fun _ clamped _ => Request.weighs_of_inserts clamped) trivial
  | takeJob resource =>
    -- What a match draws from is in the hands of the store.
    exact (weighs_of_apart (Asking.apart_takeJob resource)).mono (fun _ => id)
      fun _ => matching resource rfl
  | candidates resource => exact weighs_of_apart (Asking.within_candidates resource)
  | delete jobs =>
    exact (weighs_of_apart (Asking.within_delete jobs)).mono (fun _ => id) unordered
  | reprioritize updates => exact weighs_reprioritize unbounded unordered updates
  | recalculate group => exact weighs_of_still unordered (b.still_recalculate group)
  | recalculateAll => exact weighs_of_still unordered b.still_recalculateAll
  | clean => exact weighs_of_still unordered b.still_clean
  | refreshShares => exact weighs_of_still unordered (Broker.still_refreshShares b.InOrder)
  | refreshHistory => exact weighs_of_still unordered (b.still_refreshHistory b.InOrder)
  | sweep => exact weighs_of_still unordered b.still_sweep

theorem weighed_of_reached {s : Store α} (h : b.Reached s) : s.Weighed b.policy.bounds := by
  refine h.induct Store.weighed_empty fun s call weighed => ?_
  have asks : Weighs b True (b.course call) :=
    weighs_course call (fun _ _ => trivial) (fun _ => trivial) fun _ _ => trivial
  exact (asks.leaves weighed fun s call weighed asked =>
    weighed.effect (s.effect_perform call) asked).mono fun _ _ ended => ended.1

end Weights

/-! ### Classes -/

namespace PriorityClass

theorem priority_of_mem_insert {priority : α} {c : PriorityClass α}
    {classes : List (PriorityClass α)} (h : c ∈ insert priority classes) :
    c.priority = priority ∨ c.priority ∈ classes.map PriorityClass.priority := by
  induction classes with
  | nil =>
    cases List.mem_singleton.1 h
    exact .inl rfl
  | cons d rest ih =>
    unfold insert at h
    split at h
    · rcases List.mem_cons.1 h with rfl | old
      · exact .inl rfl
      · exact .inr (List.mem_map_of_mem old)
    · rcases List.mem_cons.1 h with rfl | old
      · exact .inr List.mem_cons_self
      · exact .inr (List.mem_map_of_mem (List.mem_cons_of_mem d old))
    · rcases List.mem_cons.1 h with rfl | later
      · exact .inr List.mem_cons_self
      · exact (ih later).imp_right (List.mem_cons_of_mem d.priority)

theorem priority_of_mem_foldl {c : PriorityClass α} {priorities : List α}
    {classes : List (PriorityClass α)}
    (h : c ∈ priorities.foldl (fun classes priority => insert priority classes) classes) :
    c.priority ∈ priorities ∨ c.priority ∈ classes.map PriorityClass.priority := by
  induction priorities generalizing classes with
  | nil => exact .inr (List.mem_map_of_mem h)
  | cons priority rest ih =>
    rcases ih h with later | here
    · exact .inl (List.mem_cons_of_mem priority later)
    · obtain ⟨d, made, same⟩ := List.mem_map.1 here
      rw [← same]
      exact (priority_of_mem_insert made).imp_left fun own => List.mem_cons.2 (.inl own)

theorem priority_mem {c : PriorityClass α} {priorities : List α} (h : c ∈ ofPriorities priorities) :
    c.priority ∈ priorities := (priority_of_mem_foldl h).resolve_right List.not_mem_nil

theorem ofPriorities_ne_nil {priorities : List α} (h : priorities ≠ []) :
    ofPriorities priorities ≠ [] := by
  have grown (priority : α) (classes : List (PriorityClass α)) : insert priority classes ≠ [] := by
    cases classes with
    | nil => exact List.cons_ne_nil _ _
    | cons d rest =>
      unfold insert
      split <;> exact List.cons_ne_nil _ _
  cases priorities with
  | nil => exact (h rfl).elim
  | cons priority rest =>
    exact List.foldlRecOn (motive := (· ≠ [])) rest _ (grown priority [])
      fun classes _ priority _ => grown priority classes

end PriorityClass

namespace Store

variable {s : Store α}

omit [Scalar α] in
theorem mem_effectives {jobs : TextSet} {effective : α} :
    effective ∈ s.effectives jobs ↔
      ∃ job ∈ jobs, ∃ record, s.jobs[job]? = some record ∧ record.effective = effective := by
  simp only [effectives, List.mem_filterMap, Std.ExtTreeSet.mem_toList, Option.map_eq_some_iff]

/-- A job can be drawn from every queue: the classes have a sum of weights to draw below, and each
class finds its jobs again. -/
structure Drawable (s : Store α) : Prop where
  total : ∀ id : Int, Random.Drawable (Scalar.total
    (((s.priorityClasses id).map PriorityClass.contribution).filter Scalar.isWeight))
  found : ∀ (job : String) (record : Job α), s.jobs[job]? = some record →
    (record.effective == record.effective) = true

end Store

/-! ### Doubles -/

namespace Double

theorem Capped.drawable {limit : Int} {x : Float} (h : Capped limit x) : Random.Drawable x := by
  rcases h with ⟨sign, same⟩ | ⟨m, e, pos, same, -⟩
  · refine .inl ((le_iff x _).2 ⟨.eq, ?_, rfl⟩)
    rw [same]
    rfl
  · have above : Scalar.zero < x := by
      refine (lt_iff _ x).2 ?_
      rw [same]
      rfl
    refine .inr (Bool.and_eq_true_iff.2 ⟨?_, decide_eq_true above⟩)
    change x.toModel.unpack.isFinite = true
    rw [same]
    rfl

end Double

theorem Store.Weighed.drawable {bounds : PriorityBounds Float} {s : Store Float}
    (h : s.Weighed bounds) (valid : bounds.isValid = true) : s.Drawable := by
  have capped {jobs : TextSet} {effective : Float} (mem : effective ∈ s.effectives jobs) :
      Double.Capped 12 effective := by
    obtain ⟨job, -, record, stored, rfl⟩ := mem_effectives.1 mem
    exact Double.capped_effective valid (h job record stored)
  refine ⟨fun id => ?_, fun job record stored => ?_⟩
  · refine (Double.capped_total 900 78 (fun weight mem => ?_) (by decide) (by decide)
      (by decide)).drawable
    obtain ⟨c, made, rfl⟩ := List.mem_map.1 (List.mem_filter.1 mem).1
    have priority : Double.Capped 12 c.priority := by
      unfold priorityClasses at made
      split at made
      · cases made
      · exact capped (PriorityClass.priority_mem made)
    exact priority.mul (Double.capped_ofNat c.jobs) (by decide) (by decide)
  · exact (Double.capped_effective valid (h job record stored)).beq_self

end Matchmaker
