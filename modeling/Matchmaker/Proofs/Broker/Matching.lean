import Matchmaker.Proofs.Broker.Fulfilment
import Matchmaker.Proofs.Broker.Tidiness
import Matchmaker.Proofs.Broker.Weights

/-!
What a match comes to where nothing fails, whatever is drawn. A job is handed out exactly when a
queue is admitted, from an admitted queue with the most CPU time; nothing else changes, except that
a queue left without jobs is removed and its group recalculated, by the settings and the usage that
there are.
-/
namespace Matchmaker

variable {α : Type} [Scalar α]

def Store.withoutJob (s : Store α) (job : String) (id : Int) : Store α :=
  { s with
    jobs := s.jobs.erase job
    queues := s.queues.modify id fun q => { q with jobs := q.jobs.erase job } }

def Store.withoutQueue (s : Store α) (job : String) (id : Int) (fingerprint : String) : Store α :=
  { s with
    jobs := s.jobs.erase job
    queues := s.queues.erase id
    byFingerprint := s.byFingerprint.erase fingerprint }

structure Left (b : Broker α) (w : World α (Store α)) (job : String) (id : Int)
    (q : StoredQueue α) (t : Store α) : Prop where
  others : (∃ other ∈ q.jobs, other ≠ job) → t = w.store.withoutJob job id
  last : (∀ other ∈ q.jobs, other = job) →
    Recalculated b { w with store := w.store.withoutQueue job id q.fingerprint }
      q.definition.ownerGroup t

/-- A job of an admitted queue with the most CPU time is handed out. -/
structure Matched (b : Broker α) (f : Filter) (w : World α (Store α)) (m : MatchedJob)
    (q : StoredQueue α) (t : Store α) : Prop where
  found : w.store.queues[m.queue]? = some q
  admitted : f.admits q.definition = true
  most : ∀ (id : Int) (p : StoredQueue α), w.store.queues[id]? = some p →
    f.admits p.definition = true → p.definition.cpuTime ≤ q.definition.cpuTime
  job : m.job ∈ q.jobs
  ownerIdentity : m.ownerIdentity = q.definition.ownerIdentity
  ownerGroup : m.ownerGroup = q.definition.ownerGroup
  left : Left b w m.job m.queue q t

/-- What a match of a filter makes of the store of a world, and how it ends. -/
structure Takes (b : Broker α) (f : Filter) (w : World α (Store α)) (t : Store α)
    (r : Operation.Ending (Option MatchedJob)) : Prop where
  returns : ∃ outcome, r = some (.ok outcome)
  matched_iff : (∃ m, r = some (.ok (some m))) ↔
    ∃ (id : Int) (q : StoredQueue α), w.store.queues[id]? = some q ∧ f.admits q.definition = true
  unmatched : r = some (.ok none) → t = w.store
  matched : ∀ m, r = some (.ok (some m)) → ∃ q, Matched b f w m q t

namespace Matching

open Operation

variable {may : (q : Request α) → q.Answer → Prop} {s : Store α} {b : Broker α}

/-! ### Taking a job -/

theorem perform_removeJob {job : String} {id : Int} (stored : s.home? job = some id) :
    s.perform (.removeJob job) = (.ok (some id), s.withoutJob job id) := by
  obtain ⟨record, found, rfl⟩ := Option.map_eq_some_iff.1 stored
  simp only [Store.perform, Store.removeJob, found]
  rfl

theorem leaves_takeAny {id : Int} {batch : List String} (filled : batch ≠ [])
    (homes : ∀ job ∈ batch, s.home? job = some id) :
    (Broker.takeAny batch).Leaves may
      (fun t r => ∃ job ∈ batch, r = some (.ok (some job)) ∧ t = s.withoutJob job id) s := by
  obtain ⟨first, rest, rfl⟩ := List.exists_cons_of_ne_nil filled
  rw [Broker.takeAny]
  refine leaves_bind (leaves_choose_of_returns (Random.index_returns (Nat.succ_ne_zero _))
    fun i below => ?_)
  have mem : (first :: rest)[i] ∈ first :: rest := List.getElem_mem below
  refine leaves_bind (leaves_orAbort ?_)
  rw [List.getElem?_eq_getElem below]
  -- Nobody else is at work: the first job that is tried is still there.
  refine leaves_bind (leaves_store _ (perform_removeJob (homes _ mem)) ?_)
  exact leaves_pure ⟨_, mem, rfl, rfl⟩

section

variable {id : Int} {q : StoredQueue α}

theorem priorityClasses_ne_nil (found : s.queues[id]? = some q) (filled : q.jobs ≠ ∅)
    (consistent : s.Consistent) : s.priorityClasses id ≠ [] := by
  obtain ⟨job, mem⟩ := TextSet.exists_mem filled
  obtain ⟨record, stored, -⟩ := (consistent.member id job).1 ⟨q, found, mem⟩
  have weight := Store.mem_effectives.2 ⟨job, mem, record, stored, rfl⟩
  rw [Store.priorityClasses, found]
  exact PriorityClass.ofPriorities_ne_nil (List.ne_nil_of_mem weight)

theorem mem_of_mem_jobsWithPriority (found : s.queues[id]? = some q) {priority : α} {limit : Nat}
    {job : String} (mem : job ∈ s.jobsWithPriority id priority limit) : job ∈ q.jobs := by
  rw [Store.jobsWithPriority, found] at mem
  exact Std.ExtTreeSet.mem_toList.1 (List.mem_filter.1 (List.mem_of_mem_take mem)).1

theorem jobsWithPriority_ne_nil (found : s.queues[id]? = some q) (drawable : s.Drawable)
    {c : PriorityClass α} (listed : c ∈ s.priorityClasses id) {limit : Nat} (positive : limit ≠ 0) :
    s.jobsWithPriority id c.priority limit ≠ [] := by
  rw [Store.priorityClasses, found] at listed
  obtain ⟨job, mem, record, stored, same⟩ :=
    Store.mem_effectives.1 (PriorityClass.priority_mem listed)
  have kept : job ∈ q.jobs.toList.filter
      fun job => s.jobs[job]?.any (·.effective == c.priority) := by
    refine List.mem_filter.2 ⟨Std.ExtTreeSet.mem_toList.2 mem, ?_⟩
    rw [stored, ← same]
    exact drawable.found job record stored
  rw [Store.jobsWithPriority, found]
  intro none
  rcases List.take_eq_nil_iff.1 none with zero | empty
  · exact positive zero
  · exact List.ne_nil_of_mem kept empty

end

theorem leaves_takeFrom {c : Candidate α} {q : StoredQueue α}
    (found : s.queues[c.queue]? = some q) (filled : q.jobs ≠ ∅) (consistent : s.Consistent)
    (drawable : s.Drawable) (size : b.policy.batchSize ≠ 0) :
    (b.takeFrom c).Leaves may
      (fun t r => ∃ job ∈ q.jobs, r = some (.ok (some job)) ∧ t = s.withoutJob job c.queue) s := by
  have total := drawable.total c.queue
  have batch {chosen : PriorityClass α} (mem : chosen ∈ s.priorityClasses c.queue) :=
    jobsWithPriority_ne_nil found drawable mem size
  refine leaves_bind (leaves_store (.priorityClasses c.queue) rfl ?_)
  cases listed : s.priorityClasses c.queue with
  | nil => exact absurd listed (priorityClasses_ne_nil found filled consistent)
  | cons first rest =>
    rw [listed] at total batch
    have picked := Random.pickWeighted_getD_returns (List.cons_ne_nil _ _) total
    refine leaves_bind (leaves_choose_of_returns picked fun winner inside => ?_)
    have bound : winner.getD 0 < (first :: rest).length := by simpa using inside
    refine leaves_bind (leaves_orAbort ?_)
    rw [List.getElem?_eq_getElem bound]
    have chosen := List.getElem_mem bound
    refine leaves_bind (leaves_store (.jobsWithPriority ..) rfl ?_)
    refine (leaves_takeAny (batch chosen) fun job mem =>
      Store.home?_of_mem_jobsWithPriority mem consistent).mono ?_
    rintro t r ⟨job, mem, taken⟩
    exact ⟨job, mem_of_mem_jobsWithPriority found mem, taken⟩

/-! ### After a job was taken -/

variable {id : Int} {job : String} {q : StoredQueue α}

omit [Scalar α] in
theorem getElem?_withoutJob (found : s.queues[id]? = some q) (job : String) :
    (s.withoutJob job id).queues[id]? = some { q with jobs := q.jobs.erase job } := by
  rw [Store.withoutJob, Std.ExtTreeMap.getElem?_modify_self, found, Option.map_some]

omit [Scalar α] in
theorem countJobs_withoutJob (found : s.queues[id]? = some q) (job : String) :
    (s.withoutJob job id).countJobs id = (q.jobs.erase job).size := by
  rw [Store.countJobs, getElem?_withoutJob found, Option.map_some, Option.getD_some]

theorem perform_deleteIfEmpty (found : s.queues[id]? = some q) (enabled : q.enabled = true)
    (last : q.jobs.erase job = ∅) :
    (s.withoutJob job id).perform (.deleteIfEmpty id) =
      (.ok true, s.withoutQueue job id q.fingerprint) := by
  have idle : (q.enabled && (q.jobs.erase job).isEmpty) = true := by
    rw [enabled, last]
    rfl
  have erased : (s.withoutJob job id).queues.erase id = s.queues.erase id := by
    refine Std.ExtTreeMap.ext_getElem? fun other => ?_
    rw [Std.ExtTreeMap.getElem?_erase, Std.ExtTreeMap.getElem?_erase]
    split
    · rfl
    · rename_i different
      rw [Store.withoutJob, Std.ExtTreeMap.getElem?_modify, if_neg different]
  simp only [Store.perform, Store.deleteIfEmpty, getElem?_withoutJob found, idle, if_true, erased]
  rfl

omit [Scalar α] in
theorem erase_eq_empty (last : ∀ other ∈ q.jobs, other = job) : q.jobs.erase job = ∅ := by
  refine Std.ExtTreeSet.eq_empty_iff_forall_not_mem.2 fun other mem => ?_
  rw [Std.ExtTreeSet.mem_erase] at mem
  exact mem.1 (Std.LawfulEqOrd.compare_eq_iff_eq.2 (last other mem.2).symm)

omit [Scalar α] in
theorem erase_ne_empty {other : String} (mem : other ∈ q.jobs) (different : other ≠ job) :
    q.jobs.erase job ≠ ∅ := fun empty => by
  have left : other ∈ q.jobs.erase job :=
    Std.ExtTreeSet.mem_erase.2 ⟨fun same => different
      (Std.LawfulEqOrd.compare_eq_iff_eq.1 same).symm, mem⟩
  rw [empty] at left
  exact Std.ExtTreeSet.not_mem_empty left

/-! ### Matches -/

variable {w : World α (Store α)}

theorem leaves_cleanUpAfter (inOrder : b.InOrder) {c : Candidate α}
    (found : w.store.queues[c.queue]? = some q) (enabled : q.enabled = true)
    (own : c.ownerGroup = q.definition.ownerGroup) :
    (b.cleanUpAfter c).Leaves w.Tells
      (fun t r => r = some (.ok ()) ∧ Left b w job c.queue q t)
      (w.store.withoutJob job c.queue) := by
  refine leaves_bind (leaves_tryStore (.countJobs c.queue) ?_)
  have performed : (w.store.withoutJob job c.queue).perform (.countJobs c.queue) =
      (.ok (q.jobs.erase job).size, w.store.withoutJob job c.queue) := by
    rw [← countJobs_withoutJob found job]
    rfl
  rw [performed]
  by_cases last : ∀ other ∈ q.jobs, other = job
  · have none := erase_eq_empty last
    rw [Std.ExtTreeSet.eq_empty_iff_size_eq_zero.1 none]
    refine leaves_bind (leaves_tryStore (.deleteIfEmpty c.queue) ?_)
    rw [perform_deleteIfEmpty found enabled none]
    refine leaves_bind (leaves_record (leaves_attempt ?_))
    refine (Fulfilment.leaves_recalculate inOrder w _ _).mono ?_
    rintro t _ ⟨n, rfl, recalculated⟩
    refine ⟨rfl, fun ⟨other, mem, different⟩ => (different (last other mem)).elim, fun _ => ?_⟩
    rw [← own]
    exact recalculated
  · obtain ⟨other, left⟩ := Classical.not_forall.1 last
    obtain ⟨mem, different⟩ := Classical.not_imp.1 left
    cases size : (q.jobs.erase job).size with
    | zero =>
      have none := Std.ExtTreeSet.eq_empty_iff_size_eq_zero.2 size
      exact absurd none (erase_ne_empty mem different)
    | succ n => exact leaves_pure ⟨rfl, fun _ => rfl, fun last => (different (last other mem)).elim⟩

variable {f : Filter} (tidy : w.store.Tidy) (consistent : w.store.Consistent)
  (drawable : w.store.Drawable) (sound : b.policy.Sound) (inOrder : b.InOrder)

include tidy consistent drawable sound inOrder

theorem leaves_takeFirst {ranked : List (Candidate α)}
    (leads : Random.Leads (w.store.matching f) ranked) :
    (b.takeFirst ranked).Leaves w.Tells
      (fun t r => ∃ m, r = some (.ok (some m)) ∧ ∃ q, Matched b f w m q t) w.store := by
  obtain ⟨c, rest, rfl, listed, most⟩ := leads
  obtain ⟨q, found, enabled, admitted, same⟩ := Store.mem_matching.1 listed
  have own : c.ownerGroup = q.definition.ownerGroup := congrArg Candidate.ownerGroup same
  refine leaves_bind ((leaves_takeFrom found (tidy.filled c.queue q found) consistent drawable
    sound.batchSize).mono ?_)
  rintro _ _ ⟨job, mem, rfl, rfl⟩
  refine leaves_bind ((leaves_cleanUpAfter inOrder found enabled own).mono ?_)
  rintro t _ ⟨rfl, left⟩
  refine leaves_pure ⟨_, rfl, q, found, admitted, fun id p here fits => ?_, mem,
    congrArg Candidate.ownerIdentity same, own, left⟩
  have other := most (Store.candidate id p)
    (Store.mem_matching.2 ⟨p, here, tidy.enabled id p here, fits, rfl⟩)
  rw [same] at other
  exact other

variable [Random.Logarithm α]

theorem leaves_extract : (b.extract f).Leaves w.Tells (Takes b f w) w.store := by
  obtain ⟨attempts, positive⟩ := Nat.exists_eq_succ_of_ne_zero sound.matchAttempts
  rw [Broker.extract, positive]
  refine leaves_bind (leaves_bind (leaves_store (.matching f) rfl ?_))
  cases found : w.store.matching f with
  | nil =>
    refine leaves_choose_of_returns (Random.rank_nil_returns _) ?_
    rintro _ rfl
    refine leaves_pure ⟨⟨none, rfl⟩, ⟨nofun, ?_⟩, fun _ => rfl, nofun⟩
    rintro ⟨id, q, here, fits⟩
    have listed : Store.candidate id q ∈ w.store.matching f :=
      Store.mem_matching.2 ⟨q, here, tidy.enabled id q here, fits, rfl⟩
    rw [found] at listed
    cases listed
  | cons c others =>
    have any : c :: others ≠ [] := List.cons_ne_nil c others
    refine leaves_choose_of_returns (Random.rank_returns any sound.candidateLimit) ?_
    rintro ranked leads
    rw [← found] at leads
    have handed := leaves_takeFirst tidy consistent drawable sound inOrder leads
    obtain ⟨first, rest, rfl, -⟩ := leads
    refine leaves_bind (handed.mono ?_)
    rintro t _ ⟨m, rfl, q, matched⟩
    refine leaves_pure ⟨⟨some m, rfl⟩, ⟨fun _ => ?_, fun _ => ⟨m, rfl⟩⟩, nofun, ?_⟩
    · exact ⟨m.queue, q, matched.found, matched.admitted⟩
    · rintro _ ⟨⟩
      exact ⟨q, matched⟩

end Matching

/-- After any calls, a match in which nothing fails comes to this, whatever is drawn. -/
theorem takes_of_reached {b : Broker Float} (valid : b.Validated) {w : World Float (Store Float)}
    (reached : b.Reached w.store) {c : Capabilities} {f : Filter}
    (accepted : b.filterFor c = .ok f) {r : Operation.Ending (Option MatchedJob)} {t : Store Float}
    (plays : (b.takeJob c).run.Plays w.Tells w.store r t) : Takes b f w t r := by
  have sound := valid.sound
  have inOrder := Broker.inOrder_of_checked valid.history
  have midway := Tidiness.midway_of_reached inOrder reached
  have drawable := (Weights.weighed_of_reached reached).drawable sound.bounds
  have taken : (b.takeJob c).Leaves w.Tells (Takes b f w) w.store := by
    rw [Broker.takeJob, accepted]
    refine Operation.leaves_bind ((Matching.leaves_extract midway.tidy midway.consistent drawable
      sound inOrder).mono fun t r takes => ?_)
    obtain ⟨outcome, rfl⟩ := takes.returns
    exact Operation.leaves_bind (Operation.leaves_record (Operation.leaves_pure takes))
  exact taken r t plays

namespace Matching

def served : World Float (Store Float) :=
  Tidiness.world.serve .standard [.insert "j1" Tidiness.requirements 3,
    .insert "j2" ⟨some "bob", some "users", some "prod", some 400, .ofFn fun _ => none⟩ 5]

def resource : Capabilities := { cpuTime := some 500 }

theorem reached_served : Broker.standard.Reached served.store := Broker.reached_serve .empty _

theorem matched_served :
    (served.play (Broker.standard.takeJob resource)).1.bind Except.toOption =
        some (some ⟨"j2", 2, "bob", "users"⟩) ∧
      served.store.queues[(1 : Int)]?.map (fun q => q.priority.toBits) =
        some (Float.toBits (1 / 2)) ∧
      (served.play (Broker.standard.takeJob resource)).2.store.queues[(1 : Int)]?.map
        (fun q => q.priority.toBits) = some (Float.toBits 1) := by
  decide +kernel

end Matching

theorem takes_of_reached_standard :
    Broker.standard.Reached Matching.served.store ∧
      ((Matching.served.play (Broker.standard.takeJob Matching.resource)).1.bind Except.toOption =
          some (some ⟨"j2", 2, "bob", "users"⟩) ∧
        Matching.served.store.queues[(1 : Int)]?.map (fun q => q.priority.toBits) =
          some (Float.toBits (1 / 2)) ∧
        (Matching.served.play (Broker.standard.takeJob Matching.resource)).2.store.queues[
          (1 : Int)]?.map (fun q => q.priority.toBits) = some (Float.toBits 1)) ∧
      ∃ f, Broker.standard.filterFor Matching.resource = .ok f ∧
        Takes .standard f Matching.served
          (Matching.served.play (Broker.standard.takeJob Matching.resource)).2.store
          (Matching.served.play (Broker.standard.takeJob Matching.resource)).1 := by
  have asked := (Asking.apart_takeJob (b := (Broker.standard : Broker Float))
    Matching.resource).mono (fun _ => Request.keepsSources_of_isApart) id
  exact ⟨Matching.reached_served, Matching.matched_served, _, rfl,
    takes_of_reached Broker.validated_standard Matching.reached_served rfl
      (World.plays_told asked Matching.served)⟩

end Matchmaker
