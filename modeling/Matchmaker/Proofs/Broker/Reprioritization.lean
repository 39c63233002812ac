import Matchmaker.Proofs.Broker.Deletion

/-!
What new priorities for a list of jobs leave of a store. A job that is listed more than once gets what
its last entry says. Where a call fails on the way, the same list given again leaves what it would
have left at once: what the entries say does not depend on what was there, and neither do the
priorities of queues.
-/
namespace Matchmaker

open Operation

variable {α : Type}

/-! ### Lists of updates -/

def lastSubmitted? (updates : List (String × Int)) (job : String) : Option Int :=
  updates.reverse.lookup job

theorem lastSubmitted?_append (xs ys : List (String × Int)) (job : String) :
    lastSubmitted? (xs ++ ys) job = (lastSubmitted? ys job).or (lastSubmitted? xs job) := by
  rw [lastSubmitted?, List.reverse_append, List.lookup_append]
  rfl

theorem lastSubmitted?_concat (xs : List (String × Int)) (job other : String) (submitted : Int) :
    lastSubmitted? (xs ++ [(job, submitted)]) other =
      if other = job then some submitted else lastSubmitted? xs other := by
  rw [lastSubmitted?_append]
  by_cases same : other = job
  · simp [lastSubmitted?, same]
  · simp [lastSubmitted?, List.lookup_cons, beq_false_of_ne same, same]

theorem lastSubmitted?_eq_none {updates : List (String × Int)} {job : String} :
    lastSubmitted? updates job = none ↔ job ∉ updates.map Prod.fst := by
  induction updates using List.reverseRecOn with
  | nil => simp [lastSubmitted?]
  | append_singleton updates entry ih =>
    rw [lastSubmitted?_concat, List.map_append, List.mem_append, not_or, ← ih]
    by_cases same : job = entry.1 <;> simp [same]

def Job.amended (record : Job α) (effective : Int → α) (submitted? : Option Int) : Job α :=
  submitted?.elim record fun submitted => ⟨record.queue, submitted, effective submitted⟩

@[simp] theorem Job.amended_none (record : Job α) (effective : Int → α) :
    record.amended effective none = record := rfl

@[simp] theorem Job.amended_some (record : Job α) (effective : Int → α) (submitted : Int) :
    record.amended effective (some submitted) = ⟨record.queue, submitted, effective submitted⟩ := rfl

@[simp] theorem Job.queue_amended (record : Job α) (effective : Int → α) (submitted? : Option Int) :
    (record.amended effective submitted?).queue = record.queue := by
  cases submitted? <;> rfl

namespace Store

/-- The store with the records of jobs as the last entries say. -/
def amend (s : Store α) (effective : Int → α) (updates : List (String × Int)) : Store α :=
  { s with jobs := s.jobs.map fun job record => record.amended effective (lastSubmitted? updates job) }

variable (s : Store α) (effective : Int → α)

theorem getElem?_jobs_amend (updates : List (String × Int)) (job : String) :
    (s.amend effective updates).jobs[job]? =
      s.jobs[job]?.map (·.amended effective (lastSubmitted? updates job)) :=
  Std.ExtTreeMap.getElem?_map

@[simp] theorem home?_amend (updates : List (String × Int)) (job : String) :
    (s.amend effective updates).home? job = s.home? job := by
  simp [home?, getElem?_jobs_amend, Function.comp_def]

@[simp] theorem amend_nil : s.amend effective [] = s := by
  simp [amend, lastSubmitted?]

theorem amend_setPriorities (priorities : List (Int × α)) (updates : List (String × Int)) :
    (s.setPriorities priorities).amend effective updates =
      (s.amend effective updates).setPriorities priorities := by
  rw [setPriorities_eq, setPriorities_eq]
  rfl

theorem amend_amend {done updates : List (String × Int)} (first : done <+: updates) :
    (s.amend effective done).amend effective updates = s.amend effective updates := by
  have jobs : ((s.amend effective done).amend effective updates).jobs =
      (s.amend effective updates).jobs := by
    refine Std.ExtTreeMap.ext_getElem? fun job => ?_
    simp only [getElem?_jobs_amend, Option.map_map]
    refine Option.map_congr fun record _ => ?_
    obtain ⟨rest, rfl⟩ := first
    rw [lastSubmitted?_append]
    cases lastSubmitted? rest job with
    | some submitted => simp
    | none => cases lastSubmitted? done job <;> rfl
  simp only [amend] at jobs ⊢
  rw [jobs]

variable {s} {job : String}

theorem amend_concat_of_none (absent : s.jobs[job]? = none) (done : List (String × Int))
    (submitted : Int) : s.amend effective (done ++ [(job, submitted)]) = s.amend effective done := by
  have jobs : (s.amend effective (done ++ [(job, submitted)])).jobs =
      (s.amend effective done).jobs := by
    refine Std.ExtTreeMap.ext_getElem? fun other => ?_
    rw [getElem?_jobs_amend, getElem?_jobs_amend, lastSubmitted?_concat]
    by_cases same : other = job
    · simp [same, absent]
    · simp [same]
  simp only [amend] at jobs ⊢
  rw [jobs]

theorem amend_concat_of_some {record : Job α} (stored : s.jobs[job]? = some record)
    (done : List (String × Int)) (submitted : Int) :
    s.amend effective (done ++ [(job, submitted)]) = { s.amend effective done with
      jobs := (s.amend effective done).jobs.insert job
        ⟨record.queue, submitted, effective submitted⟩ } := by
  have jobs : (s.amend effective (done ++ [(job, submitted)])).jobs =
      (s.amend effective done).jobs.insert job ⟨record.queue, submitted, effective submitted⟩ := by
    refine Std.ExtTreeMap.ext_getElem? fun other => ?_
    rw [getElem?_jobs_amend, Std.ExtTreeMap.getElem?_insert, getElem?_jobs_amend,
      lastSubmitted?_concat]
    by_cases same : other = job
    · simp [same, stored]
    · simp [same, Ne.symm same]
  simp only [amend] at jobs ⊢
  rw [jobs]

/-! ### The pass over the list -/

/-- What changing priorities has come to, after some of a list. -/
structure Amended (s : Store α) (effective : Int → α) (done : List (String × Int))
    (u : Broker.Updates) (t : Store α) : Prop where
  store : t = s.amend effective done
  counted : u.updated + u.unknown.length = done.length
  unknown : u.unknown = (done.map Prod.fst).filter (· ∉ s.jobs)
  touched : ∀ id : Int, id ∈ u.touched ↔ ∃ job ∈ done.map Prod.fst, s.home? job = some id

theorem amended_nil (s : Store α) : s.Amended effective [] {} s := by
  constructor <;> simp

namespace Amended

variable {effective} {done : List (String × Int)} {u : Broker.Updates} {t : Store α}
  (h : s.Amended effective done u t)
include h

theorem jobs : t.jobs[job]? = s.jobs[job]?.map (·.amended effective (lastSubmitted? done job)) := by
  rw [h.store, getElem?_jobs_amend]

theorem pass (absent : t.jobs[job]? = none) (submitted : Int) :
    s.Amended effective (done ++ [(job, submitted)]) { u with unknown := u.unknown ++ [job] } t := by
  have unknown : s.jobs[job]? = none := by simpa [h.jobs] using absent
  refine ⟨?_, ?_, ?_, fun id => ?_⟩
  · rw [h.store, amend_concat_of_none effective unknown]
  · simp [← h.counted, Nat.add_assoc]
  · have gone : job ∉ s.jobs := by simpa using unknown
    simp [h.unknown, gone]
  · simp [h.touched, home?, unknown]

theorem update {record : Job α} (stored : t.jobs[job]? = some record) (submitted : Int) :
    s.Amended effective (done ++ [(job, submitted)])
      { u with updated := u.updated + 1, touched := u.touched.insert record.queue } { t with
        jobs := t.jobs.insert job ⟨record.queue, submitted, effective submitted⟩ } := by
  rw [h.jobs] at stored
  obtain ⟨original, known, rfl⟩ := Option.map_eq_some_iff.1 stored
  refine ⟨?_, ?_, ?_, fun id => ?_⟩
  · rw [h.store, amend_concat_of_some effective known, Job.queue_amended]
  · simp [← h.counted]
    omega
  · have there : job ∈ s.jobs := Std.ExtTreeMap.mem_iff_isSome_getElem?.2 (by simp [known])
    simp [h.unknown, there]
  · simp [h.touched, home?, known]
    grind

end Amended

def Concerns (s : Store α) (jobs : List String) (group : String) : Prop :=
  ∃ job ∈ jobs, ∃ id : Int, s.home? job = some id ∧
    ∃ q, s.queues[id]? = some q ∧ q.definition.ownerGroup = group

theorem concerns_iff_touches {s : Store α} (consistent : s.Consistent) {jobs : List String}
    {group : String} : s.Concerns jobs group ↔ s.Touches jobs group := by
  have home (job : String) (id : Int) : s.home? job = some id ↔
      ∃ q, s.queues[id]? = some q ∧ job ∈ q.jobs :=
    Option.map_eq_some_iff.trans (consistent.member id job).symm
  simp only [Concerns, Touches, home]
  constructor
  · rintro ⟨job, listed, id, ⟨q', found', mem⟩, q, found, own⟩
    cases found.symm.trans found'
    exact ⟨id, q', found', own, job, listed, mem⟩
  · rintro ⟨id, q, found, own, job, listed, mem⟩
    exact ⟨job, listed, id, ⟨q, found, mem⟩, q, found, own⟩

end Store

namespace World

def amend (w : World α (Store α)) (effective : Int → α) (updates : List (String × Int)) :
    World α (Store α) :=
  { w with store := w.store.amend effective updates }

end World

/-! ### Runs -/

namespace Reprioritization

variable [Scalar α] {s : Store α} {b : Broker α} {effective : Int → α}

/-- A pass over the rest of a list has gone some way, and all the way if it has a result. -/
structure Updating (s : Store α) (effective : Int → α) (done rest : List (String × Int))
    (t t' : Trial α) (r : Ending Broker.Updates) : Prop where
  world : ∃ more, more <+: rest ∧
    t'.world = { t.world with store := s.amend effective (done ++ more) }
  whole : ∀ u, r = some (.ok u) → s.Amended effective (done ++ rest) u t'.world.store
  calm : t.outages = [] → t'.outages = [] ∧ ∃ u, r = some (.ok u)

omit [Scalar α] in
theorem Updating.after {done rest : List (String × Int)} {entry : String × Int} {t t' t'' : Trial α}
    {r : Ending Broker.Updates} (h : Updating s effective (done ++ [entry]) rest t' t'' r)
    (same : { t'.world with store := t.world.store } = t.world)
    (calm : t.outages = [] → t'.outages = []) :
    Updating s effective done (entry :: rest) t t'' r where
  world := by
    obtain ⟨more, first, world⟩ := h.world
    refine ⟨entry :: more, List.cons_prefix_cons.2 ⟨rfl, first⟩, ?_⟩
    rw [List.append_cons, world, ← same]
  whole u ok := by
    rw [List.append_cons]
    exact h.whole u ok
  calm now := h.calm (calm now)

theorem ends_updateJobs (total : ∀ p, b.policy.bounds.effective? p = some (effective p))
    (u : Broker.Updates) (done rest : List (String × Int)) {t : Trial α}
    (h : s.Amended effective done u t.world.store) :
    t.Ends (b.updateJobs u rest) (Updating s effective done rest t) := by
  induction rest generalizing u done t with
  | nil =>
    refine ⟨⟨[], List.prefix_rfl, ?_⟩, fun u' ok => ?_, fun calm => ⟨calm, u, rfl⟩⟩
    · rw [List.append_nil, ← h.store]
      rfl
    · cases ok
      rwa [List.append_nil]
  | cons entry rest ih =>
    obtain ⟨job, submitted⟩ := entry
    -- An early end leaves what the entries before this one left.
    have early (e : StoreError) (out : t.outages ≠ []) :
        Updating s effective done ((job, submitted) :: rest) t ⟨t.world, t.outages.tail⟩
          (some (.error (.store e))) :=
      ⟨⟨[], List.nil_prefix, by rw [List.append_nil, ← h.store]⟩, nofun, fun calm => (out calm).elim⟩
    unfold Broker.updateJobs
    rw [total, show orAbort (some (effective submitted)) =
      (pure (effective submitted) : Operation α α) from rfl, pure_bind]
    cases stored : t.world.store.jobs[job]? with
    | none =>
      have performed : t.world.store.perform (.updateJob job submitted (effective submitted)) =
          (.ok none, t.world.store) := by
        simp [Store.perform, Store.updateJob, stored]
      refine Trial.ends_store_bind performed early ?_
      exact (ih _ _ (t := ⟨t.world, t.outages.tail⟩) (h.pass stored submitted)).mono
        fun t' r others => others.after rfl (by simp +contextual)
    | some record =>
      have performed : t.world.store.perform (.updateJob job submitted (effective submitted)) =
          (.ok (some record.queue), { t.world.store with
            jobs := t.world.store.jobs.insert job
              ⟨record.queue, submitted, effective submitted⟩ }) := by
        simp [Store.perform, Store.updateJob, stored]
      refine Trial.ends_store_bind performed early ?_
      exact (ih _ _ (t := ⟨{ t.world with store := _ }, t.outages.tail⟩)
        (h.update stored submitted)).mono fun t' r others => others.after rfl (by simp +contextual)

structure GroupsFound (ids : List Int) (t t' : Trial α) (r : Ending TextSet) : Prop where
  world : t'.world = t.world
  groups : ∀ groups, r = some (.ok groups) → ∀ group, group ∈ groups ↔
    ∃ id ∈ ids, ∃ q, t.world.store.queues[id]? = some q ∧ q.definition.ownerGroup = group
  calm : t.outages = [] → t'.outages = [] ∧ ∃ groups, r = some (.ok groups)

theorem ends_groupsOf (ids : List Int) (t : Trial α) :
    t.Ends (Broker.groupsOf ids) (GroupsFound ids t) := by
  induction ids generalizing t with
  | nil =>
    refine ⟨rfl, fun groups ok => ?_, fun calm => ⟨calm, _, rfl⟩⟩
    cases ok
    simp
  | cons id rest ih =>
    refine Trial.ends_store_bind rfl (fun e out => ⟨rfl, nofun, fun calm => (out calm).elim⟩) ?_
    have later := ih ⟨t.world, t.outages.tail⟩
    have still : t.outages = [] → t.outages.tail = [] := by simp +contextual
    cases found : t.world.store.queues[id]? with
    | none =>
      rw [Store.queue?, found]
      refine later.mono fun t' r ended => ⟨ended.world, fun groups ok group => ?_,
        fun calm => ended.calm (still calm)⟩
      simp [ended.groups groups ok, found]
    | some q =>
      rw [Store.queue?, found]
      refine later.bind (fun t' r bad ended r' bad' => ?_) fun t' groups ended => ?_
      · refine ⟨ended.world, fun groups ok => (bad' groups ok).elim, fun calm => ?_⟩
        obtain ⟨-, groups, ok⟩ := ended.calm (still calm)
        exact (bad groups ok).elim
      · refine ⟨ended.world, fun all ok group => ?_,
          fun calm => ⟨(ended.calm (still calm)).1, _, rfl⟩⟩
        cases ok
        simp [ended.groups groups rfl, found, StoredQueue.summary]

/-- Some of the list has been written, and the priorities of some groups that are concerned; of none
before all of the list was. -/
structure Begun (b : Broker α) (effective : Int → α) (updates done : List (String × Int))
    (groups : List String) (w w' : World α (Store α)) : Prop where
  first : done <+: updates
  whole : groups ≠ [] → done = updates
  concerned : ∀ group ∈ groups, w.store.Concerns (updates.map Prod.fst) group
  basis : w'.basis = (w.amend effective done).basis
  shares : w'.shares = w.shares
  store : w'.store = (w.store.amend effective done).setPriorities
    (groups.flatMap ((w.amend effective done).priorities b))

theorem begun_of_amend {updates done : List (String × Int)} (first : done <+: updates)
    {w w' : World α (Store α)} (world : w' = w.amend effective done) :
    Begun b effective updates done [] w w' where
  first := first
  whole some := (some rfl).elim
  concerned := nofun
  basis := by rw [world]
  shares := by rw [world]; rfl
  store := by rw [world]; rfl

omit [Scalar α] in
structure Reports (s : Store α) (updates : List (String × Int)) (report : PriorityReport) : Prop where
  counted : report.updated + report.unknown.length = updates.length
  unknown : report.unknown = (updates.map Prod.fst).filter (· ∉ s.jobs)

structure Ended (b : Broker α) (effective : Int → α) (updates : List (String × Int)) (t t' : Trial α)
    (r : Ending PriorityReport) : Prop where
  begun : ∃ done groups, Begun b effective updates done groups t.world t'.world ∧
    ∀ report, r = some (.ok report) → done = updates ∧ ∀ group,
       t.world.store.Concerns (updates.map Prod.fst) group → group ∈ groups
  reports : ∀ report, r = some (.ok report) → Reports t.world.store updates report
  calm : t.outages = [] → t'.outages = [] ∧ ∃ report, r = some (.ok report)

theorem Ended.early {updates done : List (String × Int)} {groups : List String} {t t' : Trial α}
    {r : Ending PriorityReport} (begun : Begun b effective updates done groups t.world t'.world)
    (bad : ∀ report, r ≠ some (.ok report)) (failed : t.outages = [] → False) :
    Ended b effective updates t t' r where
  begun := ⟨done, groups, begun, fun report ok => (bad report ok).elim⟩
  reports report ok := (bad report ok).elim
  calm still := (failed still).elim

theorem ends_recalculation (inOrder : b.InOrder) {updates : List (String × Int)} {u : Broker.Updates}
    {w : World α (Store α)} {t : Trial α} (world : t.world = w.amend effective updates)
    (amended : w.store.Amended effective updates u t.world.store) :
    t.Ends (do
      let groups ← Broker.groupsOf u.touched.toList
      b.recalculateGroups groups.toList
      pure ⟨u.updated, u.unknown⟩) (Ended b effective updates ⟨w, t.outages⟩) := by
  have concerned (group : String) : w.store.Concerns (updates.map Prod.fst) group ↔
      ∃ id ∈ u.touched.toList, ∃ q, t.world.store.queues[id]? = some q ∧
        q.definition.ownerGroup = group := by
    simp only [Std.ExtTreeSet.mem_toList, amended.touched, world]
    constructor
    · rintro ⟨job, listed, id, home, found⟩
      exact ⟨id, ⟨job, listed, home⟩, found⟩
    · rintro ⟨id, ⟨job, listed, home⟩, found⟩
      exact ⟨job, listed, id, home, found⟩
  -- Wherever it ends, some of the groups that were found have been recalculated.
  have written {groups : TextSet} {done : List String} {t₁ t₂ : Trial α} {r : Ending Unit}
      (found : GroupsFound u.touched.toList t t₁ (some (.ok groups)))
      (begun : b.GroupsBegun groups.toList done t₁ t₂ r) :
      Begun b effective updates updates done w t₂.world := by
    refine ⟨List.prefix_rfl, fun _ => rfl, fun group mem => ?_, ?_, ?_, ?_⟩
    · exact (concerned group).2 ((found.groups groups rfl group).1
        (Std.ExtTreeSet.mem_toList.1 (begun.first.subset mem)))
    · rw [begun.basis, found.world, world]
    · rw [begun.shares, found.world, world]
      rfl
    · rw [begun.store, found.world, world]
      rfl
  refine (ends_groupsOf u.touched.toList t).bind (fun t₁ r bad found r' bad' => ?_)
    fun t₁ groups found =>
      (Broker.begins_recalculateGroups inOrder groups.toList t₁).bind ?_ ?_
  · refine .early (begun_of_amend List.prefix_rfl (found.world.trans world)) bad' fun still => ?_
    obtain ⟨-, groups, ok⟩ := found.calm still
    exact bad groups ok
  · rintro t₂ r bad ⟨done, begun⟩ r' bad'
    refine .early (written found begun) bad' fun still => ?_
    exact bad () (begun.calm (found.calm still).1).2
  · rintro t₂ ⟨⟩ ⟨done, begun⟩
    refine ⟨⟨updates, done, written found begun, fun report ok => ⟨rfl, fun group concerns => ?_⟩⟩,
      fun report ok => ?_, fun still => ⟨(begun.calm (found.calm still).1).1, _, rfl⟩⟩
    · rw [begun.whole rfl, Std.ExtTreeSet.mem_toList]
      exact (found.groups groups rfl group).2 ((concerned group).1 concerns)
    · cases ok
      exact ⟨amended.counted, amended.unknown⟩

theorem ends_reprioritize (inOrder : b.InOrder)
    (total : ∀ p, b.policy.bounds.effective? p = some (effective p))
    (updates : List (String × Int)) (t : Trial α) :
    t.Ends (b.reprioritize updates) (Ended b effective updates t) := by
  have nothing := t.world.store.amended_nil effective
  refine (ends_updateJobs total {} [] updates nothing).bind ?_ ?_
  · rintro t' r bad ⟨⟨done, first, world⟩, -, calm⟩ r' bad'
    rw [List.nil_append] at world
    refine .early (begun_of_amend first world) bad' fun still => ?_
    obtain ⟨-, u, ok⟩ := calm still
    exact bad u ok
  · rintro t₁ u ⟨⟨done, -, world⟩, amended, calm⟩
    replace amended := amended u rfl
    rw [List.nil_append] at amended
    have world : t₁.world = t.world.amend effective updates := by
      rw [World.amend, ← amended.store, world]
    refine (ends_recalculation inOrder world amended).mono fun t₂ r ended => ?_
    exact ⟨ended.begun, ended.reports, fun still => ended.calm (calm still).1⟩

/-! ### What is left -/

variable {updates done : List (String × Int)} {groups : List String} {w w' : World α (Store α)}

theorem Begun.priorities (h : Begun b effective updates done groups w w') (group : String) :
    w'.priorities b group = (w.amend effective done).priorities b group :=
  World.priorities_congr h.basis h.shares b group

theorem Begun.concerns (h : Begun b effective updates done groups w w') (jobs : List String)
    (group : String) : w'.store.Concerns jobs group ↔ w.store.Concerns jobs group := by
  have home (job : String) : w'.store.home? job = w.store.home? job := by
    rw [Store.home?, h.store, Store.jobs_setPriorities]
    exact w.store.home?_amend effective done job
  have owned (id : Int) :
      (∃ q, w'.store.queues[id]? = some q ∧ q.definition.ownerGroup = group) ↔
        ∃ q, w.store.queues[id]? = some q ∧ q.definition.ownerGroup = group := by
    rw [h.store, Store.getElem?_queues_setPriorities]
    change (∃ q, w.store.queues[id]?.map _ = some q ∧ _) ↔ _
    cases w.store.queues[id]? <;> simp
  simp only [Store.Concerns, home, owned]

/-- Done again, all of the list is written and nothing of what was there before stays. -/
theorem Begun.again (inOrder : b.InOrder) (h : Begun b effective updates done groups w w')
    {groups' : List String} (all : ∀ group ∈ groups, group ∈ groups') :
    (w'.store.amend effective updates).setPriorities
        (groups'.flatMap ((w'.amend effective updates).priorities b)) =
      (w.store.amend effective updates).setPriorities
        (groups'.flatMap ((w.amend effective updates).priorities b)) := by
  have store : w'.store.amend effective updates = (w.store.amend effective updates).setPriorities
      (groups.flatMap ((w.amend effective updates).priorities b)) := by
    rw [h.store, Store.amend_setPriorities, Store.amend_amend _ _ h.first]
    by_cases none : groups = []
    · rw [none, List.flatMap_nil, List.flatMap_nil]
    · rw [h.whole none]
  have basis : (w'.amend effective updates).basis = (w.amend effective updates).basis := by
    have book : w'.book = w.book := congrArg Basis.book h.basis
    have usage : w'.basis.usage = w.basis.usage := by
      rw [h.basis]
      rfl
    calc (w'.amend effective updates).basis
        = World.basis { w with store := w'.store.amend effective updates } :=
          World.basis_congr book usage _
      _ = (w.amend effective updates).basis := by
          rw [store]
          exact World.basis_setPriorities (w.amend effective updates) _
  have same : (w'.amend effective updates).priorities b = (w.amend effective updates).priorities b :=
    funext (World.priorities_congr basis h.shares b)
  rw [store, same, ← Store.setPriorities_append, ← List.flatMap_append]
  exact (w.amend effective updates).setPriorities_groups inOrder fun group => by
    simpa using all group

theorem calm_reprioritize (inOrder : b.InOrder)
    (total : ∀ p, b.policy.bounds.effective? p = some (effective p))
    (updates : List (String × Int)) (w : World α (Store α)) :
    ∃ (groups : List String) (report : PriorityReport),
      (∀ group, group ∈ groups ↔ w.store.Concerns (updates.map Prod.fst) group) ∧
      Reports w.store updates report ∧ (w.play (b.reprioritize updates)).1 = some (.ok report) ∧
        (w.play (b.reprioritize updates)).2.store = (w.store.amend effective updates).setPriorities
          (groups.flatMap ((w.amend effective updates).priorities b)) := by
  have ended := ends_reprioritize inOrder total updates ⟨w, []⟩
  rw [Trial.Ends, Trial.run_calm] at ended
  obtain ⟨⟨done, groups, begun, whole⟩, reports, calm⟩ := ended
  obtain ⟨-, report, ok⟩ := calm rfl
  obtain ⟨rfl, all⟩ := whole report ok
  exact ⟨groups, report, fun group => ⟨begun.concerned group, all group⟩, reports report ok, ok,
    begun.store⟩

omit [Scalar α] in
theorem Reports.unique {s t : Store α} {report report' : PriorityReport}
    (h : Reports s updates report) (h' : Reports t updates report')
    (same : ∀ job, job ∈ s.jobs ↔ job ∈ t.jobs) : report = report' := by
  have unknown : report.unknown = report'.unknown := by
    rw [h.unknown, h'.unknown]
    simp only [same]
  have counted := h.counted.trans h'.counted.symm
  obtain ⟨updated, unknown⟩ := report
  obtain ⟨updated', unknown'⟩ := report'
  cases unknown
  simpa using counted

theorem again_reprioritize (inOrder : b.InOrder)
    (total : ∀ p, b.policy.bounds.effective? p = some (effective p))
    (updates : List (String × Int)) (w : World α (Store α)) (outages : List (Option Outage)) :
    let first := (⟨w, outages⟩ : Trial α).run (b.reprioritize updates)
    (first.2.world.play (b.reprioritize updates)).2.store =
        (w.play (b.reprioritize updates)).2.store ∧
      (first.2.world.play (b.reprioritize updates)).1 = (w.play (b.reprioritize updates)).1 := by
  intro first
  obtain ⟨⟨done, groups, begun, -⟩, -, -⟩ := ends_reprioritize inOrder total updates ⟨w, outages⟩
  obtain ⟨groups₀, report₀, touched₀, reports₀, ok₀, store₀⟩ :=
    calm_reprioritize inOrder total updates w
  obtain ⟨groups', report', touched', reports', ok', store'⟩ :=
    calm_reprioritize inOrder total updates first.2.world
  have touched (group : String) :
      group ∈ groups' ↔ w.store.Concerns (updates.map Prod.fst) group :=
    (touched' group).trans (begun.concerns _ group)
  constructor
  · rw [store', store₀,
      begun.again inOrder fun group mem => (touched group).2 (begun.concerned group mem)]
    refine (w.amend effective updates).setPriorities_groups inOrder fun group => ?_
    rw [touched, touched₀]
  · rw [ok', ok₀, reports'.unique reports₀ fun job => ?_]
    rw [begun.store, Store.jobs_setPriorities]
    exact Std.ExtTreeMap.mem_map

end Reprioritization

structure Reprioritizes [Scalar α] (b : Broker α) (s : Store α) (updates : List (String × Int))
    (w : World α (Store α)) (report : PriorityReport) : Prop where
  /-- A job that is listed has what its last entry says. -/
  listed : ∀ (job : String) (record : Job α) (submitted : Int), s.jobs[job]? = some record →
    lastSubmitted? updates job = some submitted →
      ∃ effective, b.policy.bounds.effective? submitted = some effective ∧
        w.store.jobs[job]? = some ⟨record.queue, submitted, effective⟩
  others : ∀ job : String, job ∉ updates.map Prod.fst ∨ s.jobs[job]? = none →
    w.store.jobs[job]? = s.jobs[job]?
  counted : report.updated + report.unknown.length = updates.length
  unknown : report.unknown = (updates.map Prod.fst).filter (· ∉ s.jobs)
  /-- The queues have the jobs and the flags that they had. In the groups that are touched their
  priorities are those that a recalculation writes now; elsewhere they are as before. -/
  kept : ∀ (id : Int) (q : StoredQueue α), s.queues[id]? = some q →
    ∃ priority : α, w.store.queues[id]? = some { q with priority := priority } ∧
      (s.Touches (updates.map Prod.fst) q.definition.ownerGroup →
        (id, priority) ∈ w.priorities b q.definition.ownerGroup) ∧
      (¬ s.Touches (updates.map Prod.fst) q.definition.ownerGroup → priority = q.priority)
  absent : ∀ id : Int, s.queues[id]? = none → w.store.queues[id]? = none
  index : w.store.lastId = s.lastId ∧ w.store.byFingerprint = s.byFingerprint

namespace Reprioritization

variable [Scalar α] {b : Broker α} {effective : Int → α} {updates : List (String × Int)}
  {w w' : World α (Store α)} {groups : List String}

theorem Begun.reprioritizes (inOrder : b.InOrder)
    (total : ∀ p, b.policy.bounds.effective? p = some (effective p))
    (consistent : w.store.Consistent) (h : Begun b effective updates updates groups w w')
    (all : ∀ group, w.store.Concerns (updates.map Prod.fst) group → group ∈ groups)
    {report : PriorityReport} (reports : Reports w.store updates report) :
    Reprioritizes b w.store updates w' report := by
  have jobs (job : String) : w'.store.jobs[job]? =
      w.store.jobs[job]?.map (·.amended effective (lastSubmitted? updates job)) := by
    rw [h.store, Store.jobs_setPriorities, Store.getElem?_jobs_amend]
  have touched (group : String) :
      group ∈ groups ↔ w.store.Touches (updates.map Prod.fst) group := by
    rw [← Store.concerns_iff_touches consistent]
    exact ⟨h.concerned group, all group⟩
  constructor
  · intro job record submitted stored last
    refine ⟨effective submitted, total submitted, ?_⟩
    simp [jobs, stored, last]
  · rintro job (unlisted | unknown)
    · simp [jobs, lastSubmitted?_eq_none.2 unlisted]
    · simp [jobs, unknown]
  · exact reports.counted
  · exact reports.unknown
  · intro id q found
    obtain ⟨recalculated, elsewhere⟩ :=
      (w.amend effective updates).lastPriority_spec inOrder groups found q.priority
    refine ⟨_, ?_, fun mem => ?_, fun untouched => elsewhere (mt (touched _).1 untouched)⟩
    · rw [h.store, Store.getElem?_queues_setPriorities]
      exact congrArg (Option.map _) found
    · rw [h.priorities]
      exact recalculated ((touched _).2 mem)
  · intro id gone
    rw [h.store, Store.getElem?_queues_setPriorities]
    exact congrArg (Option.map _) gone
  · rw [h.store, Store.lastId_setPriorities, Store.byFingerprint_setPriorities]
    exact ⟨rfl, rfl⟩

theorem gives_reprioritize (inOrder : b.InOrder)
    (total : ∀ p, b.policy.bounds.effective? p = some (effective p))
    (updates : List (String × Int)) {t : Trial α} (consistent : t.world.store.Consistent) :
    t.Gives (b.reprioritize updates) fun t' report =>
      Reprioritizes b t.world.store updates t'.world report := by
  obtain ⟨⟨done, groups, begun, whole⟩, reports, calm⟩ := ends_reprioritize inOrder total updates t
  refine ⟨fun report ok => ?_, calm⟩
  obtain ⟨rfl, all⟩ := whole report ok
  exact begun.reprioritizes inOrder total consistent all (reports report ok)

end Reprioritization

/-- New priorities that are given to jobs with a result, and again after calls have failed. -/
structure Reprioritizing (b : Broker Float) (w : World Float (Store Float))
    (updates : List (String × Int)) : Prop where
  gives : ∀ outages : List (Option Outage), (⟨w, outages⟩ : Trial Float).Gives
    (b.reprioritize updates) fun t report => Reprioritizes b w.store updates t.world report
  recovers : w.Recovers (b.reprioritize updates)

/-- Whatever calls were made before, new priorities are given as the list says, in one call or in one
that fails on the way and the same call again. -/
theorem reprioritizing_of_reached {b : Broker Float} (valid : b.Validated)
    {w : World Float (Store Float)} (reached : b.Reached w.store) (updates : List (String × Int)) :
    Reprioritizing b w updates := by
  have inOrder := Broker.inOrder_of_checked valid.history
  have consistent := (Tidiness.midway_of_reached inOrder reached).consistent
  choose effective total using PriorityBounds.exists_effective valid.sound.bounds
  constructor
  · exact fun outages =>
      Reprioritization.gives_reprioritize inOrder total updates (t := ⟨w, outages⟩) consistent
  · exact fun outages =>
      (Reprioritization.again_reprioritize inOrder total updates w outages).1

theorem reprioritizing_served :
    Broker.standard.Reached Deletion.served.store ∧
      (Deletion.served.play (Broker.standard.reprioritize [("j1", 7), ("j9", 1), ("j1", 2)])).1.bind
        Except.toOption = some ⟨2, ["j9"]⟩ ∧
      Reprioritizing .standard Deletion.served [("j1", 7), ("j9", 1), ("j1", 2)] := by
  refine ⟨Deletion.reached_served, ?_, ?_⟩
  · decide +kernel
  · exact reprioritizing_of_reached Broker.validated_standard Deletion.reached_served _

end Matchmaker
