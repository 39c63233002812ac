import Matchmaker.Proofs.Store.Effect

/-!
What holds of a store after any calls: the index of fingerprints and the queues agree, the queues
and the records of jobs agree, and no number is given to two queues. A call that fails or reports
that nothing was done has changed nothing.
-/
namespace Matchmaker

namespace StoreCall

variable {α : Type}

/-- Whether an answer is a failure or says that nothing was done; looking does nothing. -/
def isFruitless : (call : StoreCall α) → Except StoreError call.Answer → Bool
  | _, .error _ => true
  | create _ _ _, .ok _ => false
  | setEnabled _ _ _, .ok changed => !(show Bool from changed)
  | addJob _ _ _ _, .ok _ => false
  | removeJob _, .ok home => (show Option Int from home).isNone
  | deleteIfEmpty _, .ok deleted => !(show Bool from deleted)
  | updateJob _ _ _, .ok home => (show Option Int from home).isNone
  | setPriorities _, .ok _ => false
  | _, .ok _ => true

def newId? : (call : StoreCall α) → Except StoreError call.Answer → Option Int
  | create _ _ _, .ok id => some (show Int from id)
  | _, _ => none

theorem newId?_of_reads {call : StoreCall α} (h : call.reads = true)
    (answer : Except StoreError call.Answer) : call.newId? answer = none := by
  cases call <;> first | rfl | cases h

end StoreCall

namespace Store

variable {α : Type}

structure Consistent (s : Store α) : Prop where
  /-- The index leads exactly to the queues with a fingerprint. -/
  indexed : ∀ (fingerprint : String) (id : Int), s.byFingerprint[fingerprint]? = some id ↔
    ∃ q : StoredQueue α, s.queues[id]? = some q ∧ q.fingerprint = fingerprint
  fingerprinted : ∀ (id : Int) (q : StoredQueue α), s.queues[id]? = some q →
    q.fingerprint = q.definition.fingerprint
  /-- A job is in the set of a queue exactly when its record names the queue. -/
  member : ∀ (id : Int) (job : String),
    (∃ q : StoredQueue α, s.queues[id]? = some q ∧ job ∈ q.jobs) ↔
      ∃ record : Job α, s.jobs[job]? = some record ∧ record.queue = id
  numbered : ∀ (id : Int) (q : StoredQueue α), s.queues[id]? = some q → 1 ≤ id ∧ id ≤ s.lastId
  counted : 0 ≤ s.lastId

theorem consistent_empty : Consistent ({} : Store α) where
  indexed := by simp
  fingerprinted := by simp
  member := by simp
  numbered := by simp
  counted := Int.le_refl 0

namespace Consistent

variable {s t : Store α} (h : s.Consistent)

include h

theorem indexed_own {id : Int} {q : StoredQueue α} (found : s.queues[id]? = some q) :
    s.byFingerprint[q.fingerprint]? = some id := (h.indexed _ _).2 ⟨q, found, rfl⟩

theorem ext (consistent : t.Consistent) (lastId : s.lastId = t.lastId)
    (queues : ∀ id : Int, s.queues[id]? = t.queues[id]?)
    (jobs : ∀ job : String, s.jobs[job]? = t.jobs[job]?) : s = t := by
  have index : s.byFingerprint = t.byFingerprint := by
    refine Std.ExtTreeMap.ext_getElem? fun fingerprint => Option.ext fun id => ?_
    rw [h.indexed, consistent.indexed, queues]
  have queues := Std.ExtTreeMap.ext_getElem? queues
  have jobs := Std.ExtTreeMap.ext_getElem? jobs
  obtain ⟨_, _, _, _⟩ := s
  obtain ⟨_, _, _, _⟩ := t
  cases lastId
  cases queues
  cases jobs
  cases index
  rfl

theorem unique {id id' : Int} {q q' : StoredQueue α} (found : s.queues[id]? = some q)
    (found' : s.queues[id']? = some q') (same : q.definition = q'.definition) : id = id' := by
  have here := h.indexed_own found
  have there := h.indexed_own found'
  rw [h.fingerprinted id q found, same, ← h.fingerprinted id' q' found', there] at here
  exact (Option.some.inj here).symm

theorem home {job : String} {record : Job α} (stored : s.jobs[job]? = some record) :
    ∃ q : StoredQueue α, s.queues[record.queue]? = some q ∧ job ∈ q.jobs :=
  (h.member _ _).2 ⟨record, stored, rfl⟩

theorem next_unused : s.queues[s.lastId + 1]? = none := by
  cases found : s.queues[s.lastId + 1]? with
  | none => rfl
  | some q =>
    have bounds := h.numbered _ q found
    omega

theorem of_named (ids : t.lastId = s.lastId) (index : t.byFingerprint = s.byFingerprint)
    (names : ∀ id : Int, (t.queues[id]?.map fun q => (q.definition, q.fingerprint)) =
      s.queues[id]?.map fun q => (q.definition, q.fingerprint))
    (member : ∀ (id : Int) (job : String),
      (∃ q : StoredQueue α, t.queues[id]? = some q ∧ job ∈ q.jobs) ↔
        ∃ record : Job α, t.jobs[job]? = some record ∧ record.queue = id) : t.Consistent := by
  -- Used in both directions: the two stores have the same named queues.
  have named {u v : Store α} {id : Int} {q : StoredQueue α} (found : u.queues[id]? = some q)
      (same : (u.queues[id]?.map fun q => (q.definition, q.fingerprint)) =
        v.queues[id]?.map fun q => (q.definition, q.fingerprint)) :
      ∃ p : StoredQueue α, v.queues[id]? = some p ∧ p.definition = q.definition ∧
        p.fingerprint = q.fingerprint := by
    rw [found, Option.map_some, eq_comm, Option.map_eq_some_iff] at same
    obtain ⟨p, there, equal⟩ := same
    exact ⟨p, there, (Prod.mk.inj equal).1, (Prod.mk.inj equal).2⟩
  constructor
  · intro fingerprint id
    rw [index, h.indexed]
    constructor
    · rintro ⟨p, there, own⟩
      obtain ⟨q, found, -, same⟩ := named there (names id).symm
      exact ⟨q, found, same.trans own⟩
    · rintro ⟨q, found, own⟩
      obtain ⟨p, there, -, same⟩ := named found (names id)
      exact ⟨p, there, same.trans own⟩
  · intro id q found
    obtain ⟨p, there, definition, same⟩ := named found (names id)
    rw [← definition, ← same]
    exact h.fingerprinted id p there
  · exact member
  · intro id q found
    obtain ⟨p, there, -⟩ := named found (names id)
    rw [ids]
    exact h.numbered id p there
  · rw [ids]
    exact h.counted

theorem congr (ids : t.lastId = s.lastId) (index : t.byFingerprint = s.byFingerprint)
    (records : ∀ job : String, (t.jobs[job]?.map Job.queue) = s.jobs[job]?.map Job.queue)
    (queues : ∀ id : Int,
      (t.queues[id]?.map fun q => (q.definition, q.fingerprint, q.jobs)) =
        s.queues[id]?.map fun q => (q.definition, q.fingerprint, q.jobs)) : t.Consistent := by
  refine h.of_named ids index (fun id => ?_) fun id job => ?_
  · have same := congrArg (Option.map fun parts => (parts.1, parts.2.1)) (queues id)
    rw [Option.map_map, Option.map_map] at same
    exact same
  · have same := queues id
    have record := records job
    have here := h.member id job
    grind

theorem create {d : Definition} (priority : α) (enabled : Bool)
    (fresh : s.byFingerprint[d.fingerprint]? = none) :
    Consistent { s with
      lastId := s.lastId + 1
      queues := s.queues.insert (s.lastId + 1) ⟨d, d.fingerprint, priority, enabled, ∅⟩
      byFingerprint := s.byFingerprint.insert d.fingerprint (s.lastId + 1) } := by
  have unused := h.next_unused
  have counted := h.counted
  have unlisted (id : Int) : ¬ ∃ q : StoredQueue α, s.queues[id]? = some q ∧
      q.fingerprint = d.fingerprint := by
    rw [← h.indexed, fresh]
    nofun
  constructor
  · intro fingerprint id
    have here := h.indexed fingerprint id
    simp only [Std.ExtTreeMap.getElem?_insert, Std.LawfulEqOrd.compare_eq_iff_eq]
    by_cases own : d.fingerprint = fingerprint <;> by_cases new : s.lastId + 1 = id
    · simp [own, new]
    · subst own
      simpa [new] using unlisted id
    · subst new
      rw [unused] at here
      simpa [own] using here
    · simpa [own, new] using here
  · intro id q found
    rw [Std.ExtTreeMap.getElem?_insert] at found
    split at found
    · cases found
      rfl
    · exact h.fingerprinted id q found
  · intro id job
    have here := h.member id job
    simp only [Std.ExtTreeMap.getElem?_insert, Std.LawfulEqOrd.compare_eq_iff_eq]
    by_cases new : s.lastId + 1 = id
    · subst new
      rw [unused] at here
      simpa using here
    · simpa [new] using here
  · intro id q found
    rw [Std.ExtTreeMap.getElem?_insert] at found
    split at found
    · rename_i new
      rw [← Std.LawfulEqOrd.compare_eq_iff_eq.1 new]
      exact ⟨by omega, Int.le_refl _⟩
    · have bounds := h.numbered id q found
      exact ⟨bounds.1, by change id ≤ s.lastId + 1; omega⟩
  · change 0 ≤ s.lastId + 1
    omega

theorem add {id : Int} {job : String} {q : StoredQueue α} (submitted : Int) (effective : α)
    (absent : s.jobs[job]? = none) (found : s.queues[id]? = some q) :
    Consistent { s with
      queues := s.queues.insert id { q with jobs := q.jobs.insert job }
      jobs := s.jobs.insert job ⟨id, submitted, effective⟩ } := by
  refine h.of_named rfl rfl (fun other => ?_) fun other name => ?_
  · rw [Std.ExtTreeMap.getElem?_insert]
    split
    · rename_i own
      rw [← Std.LawfulEqOrd.compare_eq_iff_eq.1 own, found]
      rfl
    · rfl
  · have here := h.member other name
    simp only [Std.ExtTreeMap.getElem?_insert, Std.LawfulEqOrd.compare_eq_iff_eq]
    by_cases own : id = other <;> by_cases same : job = name
    · simp [own, same]
    · subst own
      rw [found] at here
      simpa [same] using here
    · subst same
      rw [absent] at here
      simpa [own] using here
    · simpa [own, same] using here

theorem remove {job : String} {record : Job α} (stored : s.jobs[job]? = some record) :
    Consistent { s with
      jobs := s.jobs.erase job
      queues := s.queues.modify record.queue fun q => { q with jobs := q.jobs.erase job } } := by
  refine h.of_named rfl rfl (fun id => ?_) fun id name => ?_
  · rw [Std.ExtTreeMap.getElem?_modify]
    split
    · rename_i own
      rw [Std.LawfulEqOrd.compare_eq_iff_eq.1 own, Option.map_map]
      rfl
    · rfl
  · have here := h.member id name
    simp only [Std.ExtTreeMap.getElem?_modify, Std.ExtTreeMap.getElem?_erase,
      Std.LawfulEqOrd.compare_eq_iff_eq]
    by_cases own : record.queue = id <;> by_cases same : job = name
    · simp [own, same]
    · subst own
      obtain ⟨q, found, -⟩ := h.home stored
      rw [found] at here
      simpa [found, same] using here
    · subst same
      rw [stored] at here
      simpa [own] using here
    · simpa [own, same] using here

theorem delete {id : Int} {q : StoredQueue α} (found : s.queues[id]? = some q)
    (empty : q.jobs = ∅) :
    Consistent { s with
      queues := s.queues.erase id
      byFingerprint := s.byFingerprint.erase q.fingerprint } := by
  have own := h.indexed_own found
  have still {other : Int} {p : StoredQueue α} (present : (s.queues.erase id)[other]? = some p) :
      s.queues[other]? = some p := by
    rw [Std.ExtTreeMap.getElem?_erase] at present
    split at present
    · cases present
    · exact present
  constructor
  · intro fingerprint other
    have here := h.indexed fingerprint other
    simp only [Std.ExtTreeMap.getElem?_erase, Std.LawfulEqOrd.compare_eq_iff_eq]
    by_cases gone : id = other <;> by_cases same : q.fingerprint = fingerprint
    · simp [gone, same]
    · subst gone
      rw [found] at here
      simpa [same] using here
    · subst same
      -- No other queue has this fingerprint, so that the index forgets only the removed one.
      rw [own] at here
      simpa [gone] using here
    · simpa [gone, same] using here
  · exact fun other p present => h.fingerprinted other p (still present)
  · intro other job
    have here := h.member other job
    simp only [Std.ExtTreeMap.getElem?_erase, Std.LawfulEqOrd.compare_eq_iff_eq]
    by_cases gone : id = other
    · subst gone
      rw [found] at here
      simpa [empty] using here
    · simpa [gone] using here
  · exact fun other p present => h.numbered other p (still present)
  · exact h.counted

end Consistent

variable [Scalar α]

theorem Effect.consistent {s t : Store α} {call : StoreCall α}
    {answer : Except StoreError call.Answer} (e : s.Effect call answer t) (h : s.Consistent) :
    t.Consistent := by
  cases e with
  | read | known | unswitched | duplicate | homeless | missing | kept | unknown => exact h
  | created d priority enabled fresh => exact h.create priority enabled fresh
  | switched id expected new q found held =>
    refine h.congr rfl rfl (fun _ => rfl) fun other => ?_
    rw [Std.ExtTreeMap.getElem?_insert]
    grind
  | added id job submitted effective q absent found => exact h.add submitted effective absent found
  | removed job record stored => exact h.remove stored
  | deleted id q found enabled empty => exact h.delete found empty
  | updated job submitted effective record stored =>
    refine h.congr rfl rfl (fun other => ?_) fun _ => rfl
    rw [Std.ExtTreeMap.getElem?_insert]
    grind
  | prioritized priorities =>
    refine h.congr (by simp) (by simp) (by simp) fun other => ?_
    rw [getElem?_queues_setPriorities, Option.map_map]
    rfl

/-! ### Numbers of queues -/

theorem Effect.lastId {s t : Store α} {call : StoreCall α}
    {answer : Except StoreError call.Answer} (e : s.Effect call answer t) :
    call.newId? answer = none ∧ t.lastId = s.lastId ∨
      call.newId? answer = some (s.lastId + 1) ∧ t.lastId = s.lastId + 1 := by
  cases e with
  | read reads => exact .inl ⟨StoreCall.newId?_of_reads reads _, rfl⟩
  | created => exact .inr ⟨rfl, rfl⟩
  | prioritized priorities => exact .inl ⟨rfl, lastId_setPriorities s priorities⟩
  | _ => exact .inl ⟨rfl, rfl⟩

theorem Effect.queue_known {s t : Store α} {call : StoreCall α}
    {answer : Except StoreError call.Answer} (e : s.Effect call answer t) {id : Int}
    {q : StoredQueue α} (found : t.queues[id]? = some q) :
    (∃ p : StoredQueue α, s.queues[id]? = some p) ∨ call.newId? answer = some id := by
  cases e with
  | read | known | unswitched | duplicate | homeless | missing | kept | unknown | updated =>
    exact .inl ⟨q, found⟩
  | created d priority enabled fresh =>
    rw [Std.ExtTreeMap.getElem?_insert] at found
    by_cases own : s.lastId + 1 = id
    · exact .inr (congrArg some own)
    · simp only [Std.LawfulEqOrd.compare_eq_iff_eq, own, if_false] at found
      exact .inl ⟨q, found⟩
  | switched | added | removed | deleted | prioritized =>
    simp only [Std.ExtTreeMap.getElem?_insert, Std.ExtTreeMap.getElem?_modify,
      Std.ExtTreeMap.getElem?_erase, getElem?_queues_setPriorities] at found
    grind

theorem Effect.eq_of_fruitless {s t : Store α} {call : StoreCall α}
    {answer : Except StoreError call.Answer} (e : s.Effect call answer t)
    (h : call.isFruitless answer = true) : t = s := by
  cases e with
  | read | known | unswitched | duplicate | homeless | missing | kept | unknown => rfl
  | created | switched | added | removed | deleted | updated | prioritized => cases h

def replay (s : Store α) : List (StoreCall α) → Store α
  | [] => s
  | call :: rest => (s.perform call).2.replay rest

def issued (s : Store α) : List (StoreCall α) → List Int
  | [] => []
  | call :: rest => (call.newId? (s.perform call).1).toList ++ (s.perform call).2.issued rest

theorem consistent_replay {s : Store α} (h : s.Consistent) (calls : List (StoreCall α)) :
    (s.replay calls).Consistent := by
  induction calls generalizing s with
  | nil => exact h
  | cons call rest ih => exact ih ((s.effect_perform call).consistent h)

theorem lastId_replay (s : Store α) (calls : List (StoreCall α)) :
    (s.replay calls).lastId = s.lastId + (s.issued calls).length := by
  induction calls generalizing s with
  | nil => simp [replay, issued]
  | cons call rest ih =>
    rw [replay, issued, ih, List.length_append]
    rcases (s.effect_perform call).lastId with ⟨new, last⟩ | ⟨new, last⟩
    · rw [new, last]
      simp
    · rw [new, last, Option.toList_some, List.length_singleton]
      omega

theorem lt_of_mem_issued {s : Store α} {calls : List (StoreCall α)} {id : Int}
    (h : id ∈ s.issued calls) : s.lastId < id ∧ id ≤ (s.replay calls).lastId := by
  induction calls generalizing s with
  | nil => cases h
  | cons call rest ih =>
    have later := lastId_replay (s.perform call).2 rest
    rw [issued, List.mem_append, Option.mem_toList] at h
    rw [replay]
    rcases (s.effect_perform call).lastId with ⟨new, last⟩ | ⟨new, last⟩
    · rw [new] at h
      rcases h with h | h
      · cases h
      · have bounds := ih h
        omega
    · rw [new] at h
      rcases h with h | h
      · cases h
        omega
      · have bounds := ih h
        omega

theorem pairwise_issued (s : Store α) (calls : List (StoreCall α)) :
    (s.issued calls).Pairwise (· < ·) := by
  induction calls generalizing s with
  | nil => exact .nil
  | cons call rest ih =>
    rw [issued]
    rcases (s.effect_perform call).lastId with ⟨new, -⟩ | ⟨new, last⟩
    · simpa [new] using ih _
    · rw [new]
      refine .cons (fun id mem => ?_) (ih _)
      have bounds := lt_of_mem_issued mem
      omega

theorem mem_issued_of_queue {s : Store α} {calls : List (StoreCall α)} {id : Int}
    {q : StoredQueue α} (found : (s.replay calls).queues[id]? = some q) :
    (∃ p : StoredQueue α, s.queues[id]? = some p) ∨ id ∈ s.issued calls := by
  induction calls generalizing s with
  | nil => exact .inl ⟨q, found⟩
  | cons call rest ih =>
    rw [issued, List.mem_append, Option.mem_toList]
    rcases ih found with ⟨p, earlier⟩ | later
    · rcases (s.effect_perform call).queue_known earlier with before | new
      · exact .inl before
      · exact .inr (.inl new)
    · exact .inr (.inr later)

/-- Whatever calls are made on an empty store, its parts agree, each stored job is in one queue, and
queues are numbered from one in the order of their creation: no number is given out again, and the
greatest one is the count of creations. A call that reports nothing done changes nothing. -/
theorem replay_invariants (calls : List (StoreCall α)) :
    let s := ({} : Store α).replay calls
    let given := ({} : Store α).issued calls
    s.Consistent ∧
      (∀ (job : String) (record : Job α), s.jobs[job]? = some record → ∀ id : Int,
        (∃ q : StoredQueue α, s.queues[id]? = some q ∧ job ∈ q.jobs) ↔ id = record.queue) ∧
      (given.Pairwise (· < ·) ∧ s.lastId = given.length ∧
        (∀ id ∈ given, 1 ≤ id ∧ id ≤ s.lastId) ∧
        ∀ (id : Int) (q : StoredQueue α), s.queues[id]? = some q → id ∈ given) ∧
      ∀ call : StoreCall α,
        call.isFruitless (s.perform call).1 = true → (s.perform call).2 = s := by
  intro s given
  have consistent : s.Consistent := consistent_replay consistent_empty calls
  refine ⟨consistent, fun job record stored id => ?_, ⟨pairwise_issued _ calls, ?_, ?_, ?_⟩, ?_⟩
  · rw [consistent.member, stored]
    simp [eq_comm]
  · simpa using lastId_replay ({} : Store α) calls
  · intro id mem
    exact lt_of_mem_issued mem
  · intro id q found
    rcases mem_issued_of_queue found with ⟨p, before⟩ | mem
    · simp at before
    · exact mem
  · intro call fruitless
    exact (s.effect_perform call).eq_of_fruitless fruitless

end Store

end Matchmaker
