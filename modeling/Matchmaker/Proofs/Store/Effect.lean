import Matchmaker.Store.Call

/-!
What each call does to a store, by what it finds there. Proofs about stores go by the cases of
`Effect` and do not open the operations again.
-/
namespace Matchmaker

namespace StoreCall

variable {α : Type}

def reads : StoreCall α → Bool
  | create _ _ _ => false
  | setEnabled _ _ _ => false
  | addJob _ _ _ _ => false
  | removeJob _ => false
  | deleteIfEmpty _ => false
  | updateJob _ _ _ => false
  | setPriorities _ => false
  | _ => true

end StoreCall

namespace Store

variable {α : Type}

/-! ### Writing priorities -/

def lastPriority (id : Int) (priorities : List (Int × α)) (before : α) : α :=
  priorities.foldl (fun priority entry => if entry.1 = id then entry.2 else priority) before

theorem mem_queues {s : Store α} {id : Int} :
    id ∈ s.queues ↔ ∃ q : StoredQueue α, s.queues[id]? = some q := by
  rw [Std.ExtTreeMap.mem_iff_isSome_getElem?, Option.isSome_iff_exists]

theorem getElem?_queues_setPriorities (s : Store α) (priorities : List (Int × α)) (id : Int) :
    (s.setPriorities priorities).queues[id]? =
      s.queues[id]?.map fun q => { q with priority := lastPriority id priorities q.priority } := by
  induction priorities generalizing s with
  | nil => simp [setPriorities, lastPriority]
  | cons entry rest ih =>
    have step : s.setPriorities (entry :: rest) =
        { s with queues := s.queues.modify entry.1 fun q =>
          { q with priority := entry.2 } }.setPriorities rest := rfl
    rw [step, ih, Std.ExtTreeMap.getElem?_modify]
    by_cases h : entry.1 = id
    · simp [h, lastPriority, Function.comp_def]
    · simp [h, lastPriority]

theorem mem_queues_setPriorities {s : Store α} {priorities : List (Int × α)} {id : Int} :
    id ∈ (s.setPriorities priorities).queues ↔ id ∈ s.queues := by
  rw [Std.ExtTreeMap.mem_iff_isSome_getElem?, getElem?_queues_setPriorities, Option.isSome_map,
    Std.ExtTreeMap.mem_iff_isSome_getElem?]

theorem setPriorities_rest (s : Store α) (priorities : List (Int × α)) :
    (s.setPriorities priorities).lastId = s.lastId ∧
      (s.setPriorities priorities).byFingerprint = s.byFingerprint ∧
      (s.setPriorities priorities).jobs = s.jobs := by
  induction priorities generalizing s with
  | nil => exact ⟨rfl, rfl, rfl⟩
  | cons entry rest ih => exact ih _

@[simp] theorem lastId_setPriorities (s : Store α) (priorities : List (Int × α)) :
    (s.setPriorities priorities).lastId = s.lastId := (s.setPriorities_rest priorities).1

@[simp] theorem byFingerprint_setPriorities (s : Store α) (priorities : List (Int × α)) :
    (s.setPriorities priorities).byFingerprint = s.byFingerprint :=
  (s.setPriorities_rest priorities).2.1

@[simp] theorem jobs_setPriorities (s : Store α) (priorities : List (Int × α)) :
    (s.setPriorities priorities).jobs = s.jobs := (s.setPriorities_rest priorities).2.2

/-! ### Effects -/

variable [Scalar α]

/-- What a call answers and what it leaves, by what it finds. -/
inductive Effect (s : Store α) :
    (call : StoreCall α) → Except StoreError call.Answer → Store α → Prop where
  | read {call : StoreCall α} (reads : call.reads = true) : Effect s call (s.perform call).1 s
  | created (d : Definition) (priority : α) (enabled : Bool)
      (fresh : s.byFingerprint[d.fingerprint]? = none) :
      Effect s (.create d priority enabled) (.ok (s.lastId + 1))
        { s with
          lastId := s.lastId + 1
          queues := s.queues.insert (s.lastId + 1) ⟨d, d.fingerprint, priority, enabled, ∅⟩
          byFingerprint := s.byFingerprint.insert d.fingerprint (s.lastId + 1) }
  | known (d : Definition) (priority : α) (enabled : Bool)
      (found : s.byFingerprint[d.fingerprint]? ≠ none) :
      Effect s (.create d priority enabled) (.error .duplicateDefinition) s
  | switched (id : Int) (expected new : Bool) (q : StoredQueue α)
      (found : s.queues[id]? = some q) (held : q.enabled = expected) :
      Effect s (.setEnabled id expected new) (.ok true)
        { s with queues := s.queues.insert id { q with enabled := new } }
  | unswitched (id : Int) (expected new : Bool)
      (other : ∀ q, s.queues[id]? = some q → q.enabled ≠ expected) :
      Effect s (.setEnabled id expected new) (.ok false) s
  | added (id : Int) (job : String) (submitted : Int) (effective : α) (q : StoredQueue α)
      (absent : s.jobs[job]? = none) (found : s.queues[id]? = some q) :
      Effect s (.addJob id job submitted effective) (.ok ())
        { s with
          queues := s.queues.insert id { q with jobs := q.jobs.insert job }
          jobs := s.jobs.insert job ⟨id, submitted, effective⟩ }
  | duplicate (id : Int) (job : String) (submitted : Int) (effective : α)
      (stored : s.jobs[job]? ≠ none) :
      Effect s (.addJob id job submitted effective) (.error (.duplicateJob job)) s
  | homeless (id : Int) (job : String) (submitted : Int) (effective : α)
      (absent : s.jobs[job]? = none) (gone : s.queues[id]? = none) :
      Effect s (.addJob id job submitted effective) (.error (.unknownQueue id)) s
  | removed (job : String) (record : Job α) (stored : s.jobs[job]? = some record) :
      Effect s (.removeJob job) (.ok (some record.queue))
        { s with
          jobs := s.jobs.erase job
          queues := s.queues.modify record.queue fun q => { q with jobs := q.jobs.erase job } }
  | missing (job : String) (absent : s.jobs[job]? = none) : Effect s (.removeJob job) (.ok none) s
  | deleted (id : Int) (q : StoredQueue α) (found : s.queues[id]? = some q)
      (enabled : q.enabled = true) (empty : q.jobs = ∅) :
      Effect s (.deleteIfEmpty id) (.ok true)
        { s with
          queues := s.queues.erase id
          byFingerprint := s.byFingerprint.erase q.fingerprint }
  | kept (id : Int) (busy : ∀ q, s.queues[id]? = some q → q.enabled = false ∨ q.jobs ≠ ∅) :
      Effect s (.deleteIfEmpty id) (.ok false) s
  | updated (job : String) (submitted : Int) (effective : α) (record : Job α)
      (stored : s.jobs[job]? = some record) :
      Effect s (.updateJob job submitted effective) (.ok (some record.queue))
        { s with jobs := s.jobs.insert job ⟨record.queue, submitted, effective⟩ }
  | unknown (job : String) (submitted : Int) (effective : α) (absent : s.jobs[job]? = none) :
      Effect s (.updateJob job submitted effective) (.ok none) s
  | prioritized (priorities : List (Int × α)) :
      Effect s (.setPriorities priorities) (.ok ()) (s.setPriorities priorities)

theorem effect_create (s : Store α) (d : Definition) (priority : α) (enabled : Bool) :
    s.Effect (.create d priority enabled) (s.perform (.create d priority enabled)).1
      (s.perform (.create d priority enabled)).2 := by
  cases found : s.byFingerprint[d.fingerprint]? with
  | none =>
    simp only [perform, create, Std.ExtTreeMap.contains_eq_isSome_getElem?, found,
      Option.isSome_none, Bool.false_eq_true, if_false, attempt]
    exact .created d priority enabled found
  | some id =>
    simp only [perform, create, Std.ExtTreeMap.contains_eq_isSome_getElem?, found,
      Option.isSome_some, if_true, attempt]
    exact .known d priority enabled (by simp [found])

theorem effect_setEnabled (s : Store α) (id : Int) (expected new : Bool) :
    s.Effect (.setEnabled id expected new) (s.perform (.setEnabled id expected new)).1
      (s.perform (.setEnabled id expected new)).2 := by
  cases found : s.queues[id]? with
  | none =>
    simp only [perform, setEnabled, found]
    exact .unswitched id expected new (by simp [found])
  | some q =>
    by_cases held : q.enabled = expected
    · simp only [perform, setEnabled, found, held, if_true]
      exact .switched id expected new q found held
    · simp only [perform, setEnabled, found, held, if_false]
      exact .unswitched id expected new (by simpa [found] using held)

theorem effect_addJob (s : Store α) (id : Int) (job : String) (submitted : Int) (effective : α) :
    s.Effect (.addJob id job submitted effective)
      (s.perform (.addJob id job submitted effective)).1
      (s.perform (.addJob id job submitted effective)).2 := by
  cases stored : s.jobs[job]? with
  | some record =>
    simp only [perform, addJob, Std.ExtTreeMap.contains_eq_isSome_getElem?, stored,
      Option.isSome_some, if_true, Except.map, attempt]
    exact .duplicate id job submitted effective (by simp [stored])
  | none =>
    cases found : s.queues[id]? with
    | none =>
      simp only [perform, addJob, Std.ExtTreeMap.contains_eq_isSome_getElem?, stored, found,
        Option.isSome_none, Bool.false_eq_true, if_false, Except.map, attempt]
      exact .homeless id job submitted effective stored found
    | some q =>
      simp only [perform, addJob, Std.ExtTreeMap.contains_eq_isSome_getElem?, stored, found,
        Option.isSome_none, Bool.false_eq_true, if_false, Except.map, attempt]
      exact .added id job submitted effective q stored found

theorem effect_deleteIfEmpty (s : Store α) (id : Int) :
    s.Effect (.deleteIfEmpty id) (s.perform (.deleteIfEmpty id)).1
      (s.perform (.deleteIfEmpty id)).2 := by
  cases found : s.queues[id]? with
  | none =>
    simp only [perform, deleteIfEmpty, found]
    exact .kept id (by simp [found])
  | some q =>
    by_cases idle : (q.enabled && q.jobs.isEmpty) = true
    · simp only [perform, deleteIfEmpty, found, idle, if_true]
      rw [Bool.and_eq_true, Std.ExtTreeSet.isEmpty_iff] at idle
      exact .deleted id q found idle.1 idle.2
    · simp only [perform, deleteIfEmpty, found, idle]
      refine .kept id fun other h => ?_
      obtain rfl : q = other := Option.some.inj (found.symm.trans h)
      rw [Bool.and_eq_true, Std.ExtTreeSet.isEmpty_iff] at idle
      cases enabled : q.enabled with
      | false => exact .inl rfl
      | true => exact .inr fun empty => idle ⟨enabled, empty⟩

theorem effect_perform (s : Store α) (call : StoreCall α) :
    s.Effect call (s.perform call).1 (s.perform call).2 := by
  cases call with
  | create d priority enabled => exact s.effect_create d priority enabled
  | setEnabled id expected new => exact s.effect_setEnabled id expected new
  | addJob id job submitted effective => exact s.effect_addJob id job submitted effective
  | deleteIfEmpty id => exact s.effect_deleteIfEmpty id
  | removeJob job =>
    cases stored : s.jobs[job]? with
    | none =>
      simp only [perform, removeJob, stored]
      exact .missing job stored
    | some record =>
      simp only [perform, removeJob, stored]
      exact .removed job record stored
  | updateJob job submitted effective =>
    cases stored : s.jobs[job]? with
    | none =>
      simp only [perform, updateJob, stored]
      exact .unknown job submitted effective stored
    | some record =>
      simp only [perform, updateJob, stored]
      exact .updated job submitted effective record stored
  | setPriorities priorities => exact .prioritized priorities
  | _ => exact .read rfl

theorem perform_deleteIfEmpty {s : Store α} {id : Int} {q : StoredQueue α}
    (found : s.queues[id]? = some q) (enabled : q.enabled = true) (empty : q.jobs = ∅) :
    s.perform (.deleteIfEmpty id) = (.ok true, { s with
      queues := s.queues.erase id
      byFingerprint := s.byFingerprint.erase q.fingerprint }) := by
  simp [perform, deleteIfEmpty, found, enabled, empty]

end Store

end Matchmaker
