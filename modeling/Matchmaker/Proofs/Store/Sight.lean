import Matchmaker.Proofs.Store.Consistency

/-!
What a look at a store shows, and how long it holds. A queue keeps its definition for good, since its
number is not given again; a job is in the queue that it was added to last.
-/
namespace Matchmaker

def StoreCall.addedTo? {α : Type} (job : String) :
    (call : StoreCall α) → Except StoreError call.Answer → Option Int
  | addJob id name _ _, .ok _ => if name = job then some id else none
  | _, _ => none

theorem StoreCall.addedTo?_of_reads {α : Type} {call : StoreCall α} (h : call.reads = true)
    (job : String) (answer : Except StoreError call.Answer) : call.addedTo? job answer = none := by
  cases call <;> first | rfl | cases h

theorem StoreCall.addedTo?_of_error {α : Type} (call : StoreCall α) (job : String)
    (e : StoreError) : call.addedTo? job (Except.error e) = none := by
  cases call <;> rfl

namespace Store

variable {α : Type} {s t : Store α}

/-- A queue has a definition, unless it is gone; no later queue has its number. -/
def Defines (s : Store α) (id : Int) (d : Definition) : Prop :=
  id ≤ s.lastId ∧ ∀ q, s.queues[id]? = some q → q.definition = d

def HasJob (s : Store α) (id : Int) (d : Definition) (job : String) : Prop :=
  ∃ q, s.queues[id]? = some q ∧ q.definition = d ∧ job ∈ q.jobs

def home? (s : Store α) (job : String) : Option Int := s.jobs[job]?.map Job.queue

/-! ### Sights -/

def candidate (id : Int) (q : StoredQueue α) : Candidate α :=
  ⟨id, q.definition.ownerIdentity, q.definition.ownerGroup, q.definition.cpuTime, q.priority⟩

theorem mem_matching {f : Filter} {c : Candidate α} :
    c ∈ s.matching f ↔ ∃ q, s.queues[c.queue]? = some q ∧ q.enabled = true ∧
      f.admits q.definition = true ∧ c = candidate c.queue q := by
  simp only [matching, List.mem_filterMap, Prod.exists,
    Std.ExtTreeMap.mem_toList_iff_getElem?_eq_some, Option.ite_none_right_eq_some,
    Bool.and_eq_true, Option.some.injEq]
  constructor
  · rintro ⟨id, q, found, ⟨enabled, admitted⟩, rfl⟩
    exact ⟨q, found, enabled, admitted, rfl⟩
  · rintro ⟨q, found, enabled, admitted, same⟩
    exact ⟨c.queue, q, found, ⟨enabled, admitted⟩, same.symm⟩

theorem exists_of_mem_matching {f : Filter} {c : Candidate α} (mem : c ∈ s.matching f) :
    ∃ q, s.queues[c.queue]? = some q ∧ f.admits q.definition = true ∧
      c.ownerIdentity = q.definition.ownerIdentity ∧ c.ownerGroup = q.definition.ownerGroup := by
  obtain ⟨q, found, -, admitted, same⟩ := mem_matching.1 mem
  exact ⟨q, found, admitted, congrArg Candidate.ownerIdentity same,
    congrArg Candidate.ownerGroup same⟩

theorem Consistent.defines (consistent : s.Consistent) {id : Int} {q : StoredQueue α}
    (found : s.queues[id]? = some q) : s.Defines id q.definition := by
  refine ⟨(consistent.numbered id q found).2, fun other here => ?_⟩
  rw [found] at here
  cases here
  rfl

theorem home?_of_mem_jobsWithPriority [Scalar α] {id : Int} {priority : α} {limit : Nat}
    {job : String} (mem : job ∈ s.jobsWithPriority id priority limit)
    (consistent : s.Consistent) : s.home? job = some id := by
  unfold jobsWithPriority at mem
  split at mem
  · cases mem
  · rename_i q found
    have kept := (List.mem_filter.1 (List.mem_of_mem_take mem)).1
    have stored : job ∈ q.jobs := Std.ExtTreeSet.mem_toList.1 kept
    obtain ⟨record, here, own⟩ := (consistent.member id job).1 ⟨q, found, stored⟩
    rw [home?, here, Option.map_some, own]

theorem hasJob_iff {id : Int} {d : Definition} (defines : s.Defines id d) (job : String)
    (consistent : s.Consistent) : s.HasJob id d job ↔ s.home? job = some id := by
  rw [home?, Option.map_eq_some_iff, ← consistent.member]
  constructor
  · rintro ⟨q, found, -, mem⟩
    exact ⟨q, found, mem⟩
  · rintro ⟨q, found, mem⟩
    exact ⟨q, found, defines.2 q found, mem⟩

/-! ### What a call changes -/

variable [Scalar α] {call : StoreCall α} {answer : Except StoreError call.Answer}

theorem Effect.defines (e : s.Effect call answer t) {id : Int} {d : Definition}
    (h : s.Defines id d) : t.Defines id d := by
  obtain ⟨issued, same⟩ := h
  cases e with
  | created d' priority enabled fresh =>
    refine ⟨by change id ≤ s.lastId + 1; omega, fun q found => same q ?_⟩
    have other : s.lastId + 1 ≠ id := by omega
    simpa [Std.ExtTreeMap.getElem?_insert, other] using found
  | switched id' expected new q' found' held =>
    refine ⟨issued, fun q found => ?_⟩
    by_cases own : id' = id
    · subst own
      rw [Std.ExtTreeMap.getElem?_insert_self] at found
      cases found
      exact same q' found'
    · exact same q (by simpa [Std.ExtTreeMap.getElem?_insert, own] using found)
  | added id' job submitted effective q' absent found' =>
    refine ⟨issued, fun q found => ?_⟩
    by_cases own : id' = id
    · subst own
      rw [Std.ExtTreeMap.getElem?_insert_self] at found
      cases found
      exact same q' found'
    · exact same q (by simpa [Std.ExtTreeMap.getElem?_insert, own] using found)
  | removed job record stored =>
    refine ⟨issued, fun q found => ?_⟩
    by_cases own : record.queue = id
    · rw [Std.ExtTreeMap.getElem?_modify, if_pos (Std.LawfulEqOrd.compare_eq_iff_eq.2 own),
        Option.map_eq_some_iff] at found
      obtain ⟨q', found', rfl⟩ := found
      exact same q' (own ▸ found')
    · exact same q (by simpa [Std.ExtTreeMap.getElem?_modify, own] using found)
  | deleted id' q' found' enabled empty =>
    refine ⟨issued, fun q found => same q ?_⟩
    rw [Std.ExtTreeMap.getElem?_erase] at found
    split at found
    · cases found
    · exact found
  | prioritized priorities =>
    refine ⟨by rw [lastId_setPriorities]; exact issued, fun q found => ?_⟩
    rw [getElem?_queues_setPriorities, Option.map_eq_some_iff] at found
    obtain ⟨q', found', rfl⟩ := found
    exact same q' found'
  | _ => exact ⟨issued, same⟩

theorem Effect.home? (e : s.Effect call answer t) {job : String} {id : Int}
    (h : t.home? job = some id) :
    call.addedTo? job answer = some id ∨
      call.addedTo? job answer = none ∧ s.home? job = some id := by
  cases e with
  | read reads => exact .inr ⟨StoreCall.addedTo?_of_reads reads job _, h⟩
  | added id' name submitted effective q absent found =>
    rw [Store.home?, Std.ExtTreeMap.getElem?_insert] at h
    by_cases own : name = job
    · rw [if_pos (Std.LawfulEqOrd.compare_eq_iff_eq.2 own)] at h
      cases h
      exact .inl (if_pos own)
    · rw [if_neg (mt Std.LawfulEqOrd.compare_eq_iff_eq.1 own)] at h
      exact .inr ⟨if_neg own, h⟩
  | removed name record stored =>
    rw [Store.home?, Std.ExtTreeMap.getElem?_erase] at h
    split at h
    · cases h
    · exact .inr ⟨rfl, h⟩
  | updated name submitted effective record stored =>
    rw [Store.home?, Std.ExtTreeMap.getElem?_insert] at h
    by_cases own : name = job
    · subst own
      rw [if_pos (Std.LawfulEqOrd.compare_eq_iff_eq.2 rfl)] at h
      refine .inr ⟨rfl, ?_⟩
      rw [Store.home?, stored]
      exact h
    · rw [if_neg (mt Std.LawfulEqOrd.compare_eq_iff_eq.1 own)] at h
      exact .inr ⟨rfl, h⟩
  | prioritized priorities =>
    rw [Store.home?, jobs_setPriorities] at h
    exact .inr ⟨rfl, h⟩
  | _ => exact .inr ⟨rfl, h⟩

theorem Effect.home?_of_removed {job : String} {id : Int} {answer : Except StoreError (Option Int)}
    (e : s.Effect (.removeJob job) answer t) (removed : answer = .ok (some id)) :
    s.home? job = some id := by
  cases e with
  | read reads => cases reads
  | missing => cases removed
  | removed _ record stored =>
    cases removed
    rw [Store.home?, stored, Option.map_some]

end Store

end Matchmaker
