import Matchmaker.Proofs.Broker.Deletion

/-!
Deleting jobs again after calls of the first deletion have failed. All listed jobs are gone then, but
the groups and queues that the second deletion touches are those of the jobs that were still there:
a queue that the first one had emptied stays, and the priorities of a group may stay as they were.
These are the only ways in which the store can differ from that of one deletion without failures.
-/
namespace Matchmaker

open Operation

variable {α : Type}

def StoreCall.sheds (listed : List String) : StoreCall α → Prop
  | removeJob gone => gone ∈ listed
  | deleteIfEmpty _ => True
  | call => call.reads = true

def Request.sheds (listed : List String) : Request α → Prop
  | store call => call.sheds listed
  | record _ => True
  | _ => False

/-! ### Stores from which some of a list is gone -/

namespace Store

/-- Some of the listed jobs are gone, and with them queues that had no others. Only in groups that
had a listed job the priorities may have changed. -/
structure Shed (s : Store α) (listed : List String) (t : Store α) : Prop where
  consistent : t.Consistent
  lastId : t.lastId = s.lastId
  jobs : ∀ job : String, t.jobs[job]? = s.jobs[job]? ∨ job ∈ listed ∧ t.jobs[job]? = none
  queues : ∀ (id : Int) (q : StoredQueue α), t.queues[id]? = some q →
    ∃ p, s.queues[id]? = some p ∧ p.definition = q.definition ∧ p.enabled = q.enabled ∧
      (¬ s.Touches listed p.definition.ownerGroup → q.priority = p.priority)
  gone : ∀ (id : Int) (p : StoredQueue α), s.queues[id]? = some p → t.queues[id]? = none →
    ∀ job ∈ p.jobs, job ∈ listed

variable {s t u : Store α} {listed : List String}

theorem shed_self (consistent : s.Consistent) (listed : List String) : s.Shed listed s where
  consistent := consistent
  lastId := rfl
  jobs _ := .inl rfl
  queues _ q found := ⟨q, found, rfl, rfl, fun _ => rfl⟩
  gone _ _ found gone := nomatch found.symm.trans gone

namespace Shed

variable (consistent : s.Consistent) (h : s.Shed listed t)

section

include h

theorem jobs_of_not_mem {job : String} (unlisted : job ∉ listed) : t.jobs[job]? = s.jobs[job]? :=
  (h.jobs job).resolve_right fun removed => unlisted removed.1

theorem jobs_of_some {job : String} {record : Job α} (stored : t.jobs[job]? = some record) :
    s.jobs[job]? = some record := by
  rcases h.jobs job with same | ⟨-, gone⟩
  · rw [← same, stored]
  · cases stored.symm.trans gone

theorem enabled (enabled : ∀ (id : Int) (q : StoredQueue α), s.queues[id]? = some q → q.enabled = true)
    (id : Int) (q : StoredQueue α) (found : t.queues[id]? = some q) : q.enabled = true := by
  obtain ⟨p, there, -, same, -⟩ := h.queues id q found
  rw [← same]
  exact enabled id p there

end

section

variable {id : Int} {p q : StoredQueue α} (there : s.queues[id]? = some p)
  (found : t.queues[id]? = some q)

include consistent h there found

theorem mem_of_mem {job : String} (mem : job ∈ q.jobs) : job ∈ p.jobs := by
  obtain ⟨record, stored, home⟩ := (h.consistent.member id job).1 ⟨q, found, mem⟩
  obtain ⟨p', there', mem⟩ := (consistent.member id job).2 ⟨record, h.jobs_of_some stored, home⟩
  cases there.symm.trans there'
  exact mem

theorem mem_iff {job : String} (unlisted : job ∉ listed) : job ∈ q.jobs ↔ job ∈ p.jobs := by
  refine ⟨h.mem_of_mem consistent there found, fun mem => ?_⟩
  obtain ⟨record, stored, home⟩ := (consistent.member id job).1 ⟨p, there, mem⟩
  rw [← h.jobs_of_not_mem unlisted] at stored
  obtain ⟨q', found', mem⟩ := (h.consistent.member id job).2 ⟨record, stored, home⟩
  cases found.symm.trans found'
  exact mem

theorem without_eq : q.without listed = { p.without listed with priority := q.priority } := by
  obtain ⟨p', there', definition, enabled, -⟩ := h.queues id q found
  cases there.symm.trans there'
  have fingerprint : q.fingerprint = p.fingerprint := by
    rw [h.consistent.fingerprinted id q found, consistent.fingerprinted id p there, definition]
  have jobs : (q.without listed).jobs = (p.without listed).jobs := by
    ext job
    simp only [StoredQueue.mem_without]
    exact and_congr_left fun unlisted => h.mem_iff consistent there found unlisted
  simp only [StoredQueue.without] at jobs ⊢
  rw [jobs, definition, enabled, fingerprint]

end

theorem touches (consistent : s.Consistent) (h : s.Shed listed t) {group : String}
    (touched : t.Touches listed group) : s.Touches listed group := by
  obtain ⟨id, q, found, own, job, mem, inside⟩ := touched
  obtain ⟨p, there, definition, -⟩ := h.queues id q found
  refine ⟨id, p, there, definition ▸ own, job, mem, ?_⟩
  exact h.mem_of_mem consistent there found inside

theorem remove (h : s.Shed listed t) {job : String} {record : Job α}
    (stored : t.jobs[job]? = some record) (mem : job ∈ listed) :
    s.Shed listed { t with
      jobs := t.jobs.erase job
      queues := t.queues.modify record.queue fun q => { q with jobs := q.jobs.erase job } } where
  consistent := h.consistent.remove stored
  lastId := h.lastId
  jobs other := by
    by_cases same : job = other
    · subst same
      exact .inr ⟨mem, Std.ExtTreeMap.getElem?_erase_self⟩
    · have kept : (t.jobs.erase job)[other]? = t.jobs[other]? := by
        simp [Std.ExtTreeMap.getElem?_erase, same]
      simpa only [kept] using h.jobs other
  queues id q found := by
    rw [Std.ExtTreeMap.getElem?_modify] at found
    split at found
    · rename_i home
      cases compare_eq_iff_eq.1 home
      obtain ⟨q, here, rfl⟩ := Option.map_eq_some_iff.1 found
      exact h.queues _ q here
    · exact h.queues id q found
  gone id p there gone := by
    refine h.gone id p there ?_
    rw [Std.ExtTreeMap.getElem?_modify] at gone
    split at gone
    · rename_i home
      cases compare_eq_iff_eq.1 home
      exact Option.map_eq_none_iff.1 gone
    · exact gone

theorem delete (consistent : s.Consistent) (h : s.Shed listed t) {id : Int} {q : StoredQueue α}
    (found : t.queues[id]? = some q) (empty : q.jobs = ∅) :
    s.Shed listed { t with
      queues := t.queues.erase id
      byFingerprint := t.byFingerprint.erase q.fingerprint } where
  consistent := h.consistent.delete found empty
  lastId := h.lastId
  jobs := h.jobs
  queues other q found := by
    rw [Std.ExtTreeMap.getElem?_erase] at found
    exact h.queues other q (Option.ite_none_left_eq_some.1 found).2
  gone other p there gone := by
    by_cases same : id = other
    · subst same
      -- A job that is not listed would still be in the queue.
      intro job mem
      by_contra unlisted
      rw [← h.mem_iff consistent there found unlisted, empty] at mem
      exact Std.ExtTreeSet.not_mem_empty mem
    · rw [Std.ExtTreeMap.getElem?_erase, if_neg (mt compare_eq_iff_eq.1 same)] at gone
      exact h.gone other p there gone

theorem step [Scalar α] (consistent : s.Consistent) (h : s.Shed listed t) {call : StoreCall α}
    {answer : Except StoreError call.Answer} (effect : t.Effect call answer u)
    (asked : call.sheds listed) : s.Shed listed u := by
  cases effect with
  | read | missing | kept => exact h
  | removed job record stored => exact h.remove stored asked
  | deleted id q found enabled empty => exact h.delete consistent found empty
  | _ => cases asked

theorem setPriorities [Scalar α] (h : s.Shed listed t) (priorities : List (Int × α))
    (own : ∀ (id : Int) (q : StoredQueue α), t.queues[id]? = some q →
      ¬ s.Touches listed q.definition.ownerGroup →
        lastPriority id priorities q.priority = q.priority) :
    s.Shed listed (t.setPriorities priorities) where
  consistent := (t.effect_perform (.setPriorities priorities)).consistent h.consistent
  lastId := (t.lastId_setPriorities priorities).trans h.lastId
  jobs job := by
    rw [jobs_setPriorities]
    exact h.jobs job
  queues id q found := by
    rw [getElem?_queues_setPriorities, Option.map_eq_some_iff] at found
    obtain ⟨q, found, rfl⟩ := found
    obtain ⟨p, there, definition, enabled, priority⟩ := h.queues id q found
    refine ⟨p, there, definition, enabled, fun untouched => ?_⟩
    rw [← priority untouched]
    exact own id q found (definition ▸ untouched)
  gone id p there gone := by
    rw [getElem?_queues_setPriorities, Option.map_eq_none_iff] at gone
    exact h.gone id p there gone

end Shed

end Store

namespace World

variable [Scalar α]

structure Shed (w : World α (Store α)) (listed : List String) (w' : World α (Store α)) : Prop where
  store : w.store.Shed listed w'.store
  book : w'.book = w.book
  usage : w'.basis.usage = w.basis.usage
  shares : w'.shares = w.shares

variable {w : World α (Store α)} {listed : List String}

theorem shed_self (consistent : w.store.Consistent) : w.Shed listed w :=
  ⟨w.store.shed_self consistent listed, rfl, rfl, rfl⟩

theorem Shed.met (consistent : w.store.Consistent) {t t' : Trial α} (h : w.Shed listed t.world)
    {q : Request α} {answer : q.Answer} (asked : q.sheds listed) (met : t.Met q answer t') :
    w.Shed listed t'.world := by
  cases met with
  | refused => exact h
  | answered =>
    cases q with
    | store call =>
      have store := h.store.step consistent (t.world.store.effect_perform call) asked
      exact ⟨store, h.book, h.usage, h.shares⟩
    | record event => exact ⟨h.store, h.book, h.usage, h.shares⟩
    | _ => cases asked

end World

namespace Deletion

variable [Scalar α] {b : Broker α} {w : World α (Store α)} (consistent : w.store.Consistent)
  {listed : List String} {t : Trial α} (shed : w.Shed listed t.world)

section

include consistent shed

theorem sheds_of_within {β : Type} {x : Operation α β}
    (within : x.Within (fun q => q.sheds listed) False) :
    t.Ends x fun t' _ => w.Shed listed t'.world :=
  Trial.ends_of_within within shed fun _ _ _ _ shed asked met => shed.met consistent asked met

theorem sheds_removeJobs :
    t.Ends (Broker.removeJobs {} listed) fun t' _ => w.Shed listed t'.world :=
  sheds_of_within consistent shed (Broker.within_removeJobs (fun _ mem => mem) {})

theorem sheds_dropEmptied (ids : List Int) :
    t.Ends (Broker.dropEmptied ids) fun t' _ => w.Shed listed t'.world :=
  sheds_of_within consistent shed (Broker.within_dropEmptied (fun _ => rfl) (fun _ => trivial) ids)

theorem sheds_record (event : Event) :
    t.Ends (record event) fun t' r => w.Shed listed t'.world ∧
      (r = some (.ok ()) → t'.world.store = t.world.store) :=
  ⟨sheds_of_within consistent shed (within_record trivial), (Trial.gives_record event).result ()⟩

end

include shed in
theorem sheds_recalculateGroups (inOrder : b.InOrder) (groups : List String)
    (touched : ∀ group ∈ groups, w.store.Touches listed group) :
    t.Ends (b.recalculateGroups groups) fun t' _ => w.Shed listed t'.world := by
  refine (Broker.begins_recalculateGroups inOrder groups t).mono fun t' r ⟨done, begun⟩ => ?_
  have store := shed.store.setPriorities (done.flatMap (t.world.priorities b))
    fun id q found untouched => (t.world.lastPriority_spec inOrder done found q.priority).2
      fun mem => untouched (touched _ (begun.first.subset mem))
  have book : t'.world.book = t.world.book := congrArg Basis.book begun.basis
  refine ⟨?_, book.trans shed.book, ?_, begun.shares.trans shed.shares⟩
  · rwa [begun.store]
  · rw [begun.basis, shed.usage]

/-- Wherever a deletion ends, it has taken away nothing but listed jobs and queues without others. -/
theorem sheds_delete (inOrder : b.InOrder) (consistent : w.store.Consistent)
    (enabled : ∀ (id : Int) (q : StoredQueue α), w.store.queues[id]? = some q → q.enabled = true)
    (listed : List String) (outages : List (Option Outage)) :
    (⟨w, outages⟩ : Trial α).Ends (b.delete listed) fun t' _ => w.Shed listed t'.world := by
  have removing : (⟨w, outages⟩ : Trial α).Ends (Broker.removeJobs {} listed) fun t' r =>
      w.Shed listed t'.world ∧ ∀ c, r = some (.ok c) → w.store.Removed listed c t'.world.store :=
    ⟨sheds_removeJobs consistent (World.shed_self consistent),
      (gives_removeJobs consistent {} [] listed w.store.removed_nil).result⟩
  refine removing.bind (fun t₁ r _ ended r' _ => ended.1) fun t₁ r ⟨shed, removals⟩ => ?_
  replace removals := removals r rfl
  refine (sheds_record consistent shed _).bind (fun t₂ r _ ended r' _ => ended.1) ?_
  rintro t₂ ⟨⟩ ⟨shed, same⟩
  rw [← same rfl] at removals
  have dropping : t₂.Ends (Broker.dropEmptied r.touched.toList) fun t' r' =>
      w.Shed listed t'.world ∧ ∀ c, r' = some (.ok c) →
        t₂.world.store.Dropped r.touched.toList c.1 c.2 t'.world.store :=
    ⟨sheds_dropEmptied consistent shed _, (gives_dropEmptied _ r.nodup_touched
      (removals.without.enabled enabled)).result⟩
  refine dropping.bind (fun t₃ r _ ended r' _ => ended.1) fun t₃ (out, groups) ⟨shed, drops⟩ => ?_
  replace drops := drops _ rfl
  refine (sheds_record consistent shed _).bind (fun t₄ r _ ended r' _ => ended.1) ?_
  rintro t₄ ⟨⟩ ⟨shed, -⟩
  have touched (group : String) (mem : group ∈ groups.toList) : w.store.Touches listed group :=
    (drops.mem_groups consistent removals group).1 (Std.ExtTreeSet.mem_toList.1 mem)
  exact (sheds_recalculateGroups shed inOrder groups.toList touched).bind
    (fun t₅ r _ shed r' _ => shed) fun t₅ _ shed => shed

/-! ### The two deletions compared -/

/-- What is at a number after one deletion of a list without failures, and after one that was begun
where some of the list was gone already. -/
inductive Compared (b : Broker α) (listed : List String) (w failed once again : World α (Store α))
    (id : Int) : Prop where
  | gone (here : once.store.queues[id]? = none) (there : again.store.queues[id]? = none)
      (emptied : ∀ q, failed.store.queues[id]? = some q → q.EmptiedBy listed)
  /-- A queue that is empty before the second deletion is not looked at. -/
  | orphan {q : StoredQueue α} {priority : α} (found : failed.store.queues[id]? = some q)
      (empty : q.jobs = ∅) (here : once.store.queues[id]? = none)
      (there : again.store.queues[id]? = some { q with priority := priority })
  | kept {q r : StoredQueue α} {priority : α} (found : failed.store.queues[id]? = some q)
      (filled : q.jobs ≠ ∅) (same : r.definition = q.definition)
      (here : once.store.queues[id]? = some r)
      (there : again.store.queues[id]? = some { r with priority := priority })
      (recalculated : w.store.Touches listed r.definition.ownerGroup →
        (id, r.priority) ∈ once.priorities b r.definition.ownerGroup)
      (untouched : ¬ w.store.Touches listed r.definition.ownerGroup → r.priority = q.priority)
      (recalculated' : failed.store.Touches listed r.definition.ownerGroup →
        (id, priority) ∈ again.priorities b r.definition.ownerGroup)
      (untouched' : ¬ failed.store.Touches listed r.definition.ownerGroup → priority = q.priority)

variable {failed once again : World α (Store α)} {listed : List String}

theorem compared (consistent : w.store.Consistent) (tidy : w.store.Tidy)
    (shed : w.store.Shed listed failed.store) (left : Leaves b w.store listed once)
    (left' : Leaves b failed.store listed again) (id : Int) :
    Compared b listed w failed once again id := by
  cases known : w.store.queues[id]? with
  | none =>
    have absent : failed.store.queues[id]? = none := by
      refine Option.eq_none_iff_forall_ne_some.2 fun q found => ?_
      obtain ⟨p, known', -⟩ := shed.queues id q found
      cases known.symm.trans known'
    have gone : once.store.queues[id]? = none := (left.gone id).2 (by simp [known])
    exact .gone gone ((left'.gone id).2 (by simp [absent])) (by simp [absent])
  | some p =>
    have nonempty := tidy.filled id p known
    by_cases emptied : p.EmptiedBy listed
    · have gone : once.store.queues[id]? = none := (left.gone id).2 (by simpa [known] using emptied)
      cases found : failed.store.queues[id]? with
      | none => exact .gone gone ((left'.gone id).2 (by simp [found])) (by simp [found])
      | some q =>
        by_cases empty : q.jobs = ∅
        · obtain ⟨priority, there, -⟩ := left'.kept id q found fun all => all.filled empty
          rw [StoredQueue.without_of_empty empty] at there
          exact .orphan found empty gone there
        · have all : q.EmptiedBy listed := (StoredQueue.emptiedBy_iff empty listed).2 fun job mem =>
            emptied.2 job (shed.mem_of_mem consistent known found mem)
          exact .gone gone ((left'.gone id).2 (by simpa [found] using all))
            (by simpa [found] using all)
    · obtain ⟨job, mem, unlisted⟩ : ∃ job ∈ p.jobs, job ∉ listed := by
        simpa [StoredQueue.emptiedBy_iff nonempty] using emptied
      cases found : failed.store.queues[id]? with
      | none => exact (unlisted (shed.gone id p known found job mem)).elim
      | some q =>
        have inside : job ∈ q.jobs := (shed.mem_iff consistent known found unlisted).2 mem
        have filled : q.jobs ≠ ∅ := Std.ExtTreeSet.ne_empty_of_mem inside
        obtain ⟨p', known', same, -, before⟩ := shed.queues id q found
        cases known.symm.trans known'
        obtain ⟨priority, here, recalculated, untouched⟩ := left.kept id p known emptied
        obtain ⟨priority', there, recalculated', untouched'⟩ :=
          left'.kept id q found fun all => unlisted (all.2 job inside)
        rw [shed.without_eq consistent known found] at there
        rw [← same] at recalculated' untouched'
        exact .kept (r := { p.without listed with priority := priority }) found filled same here
          there recalculated (fun apart => (untouched apart).trans (before apart).symm)
          recalculated' untouched'

/-- Nothing of the failed deletion is left: no queue without jobs, and no priority of before in a
group that had a listed job and has none now. -/
structure Mends (b : Broker α) (listed : List String) (w failed once : World α (Store α)) : Prop where
  filled : ∀ (id : Int) (q : StoredQueue α), failed.store.queues[id]? = some q → q.jobs ≠ ∅
  fresh : ∀ (id : Int) (q : StoredQueue α), failed.store.queues[id]? = some q →
    w.store.Touches listed q.definition.ownerGroup →
      ¬ failed.store.Touches listed q.definition.ownerGroup →
        (id, q.priority) ∈ once.priorities b q.definition.ownerGroup

section

variable (compared : ∀ id : Int, Compared b listed w failed once again id)
include compared

theorem mends_of_eq (same : again.store = once.store) : Mends b listed w failed once := by
  constructor
  · intro id q found
    cases compared id with
    | gone here there emptied => exact (emptied q found).filled
    | orphan found' empty here there =>
      rw [same, here] at there
      cases there
    | kept found' filled =>
      cases found.symm.trans found'
      exact filled
  · intro id q found touched untouched
    cases compared id with
    | gone here there emptied =>
      obtain ⟨job, mem, inside⟩ := (emptied q found).1
      exact (untouched ⟨id, q, found, rfl, job, mem, inside⟩).elim
    | orphan found' empty here there =>
      rw [same, here] at there
      cases there
    | @kept _ r priority found' filled own here there recalculated _ _ untouched' =>
      cases found.symm.trans found'
      rw [same, here, Option.some_inj] at there
      have last : r.priority = priority := congrArg StoredQueue.priority there
      rw [← own] at touched untouched ⊢
      rw [← untouched' untouched, ← last]
      exact recalculated touched

theorem alike_of_filled
    (filled : ∀ (id : Int) (q : StoredQueue α), failed.store.queues[id]? = some q → q.jobs ≠ ∅)
    (jobs : again.store.jobs = once.store.jobs) : again.store.Alike once.store := by
  refine ⟨fun id => ?_, jobs⟩
  cases compared id with
  | gone here there => rw [here, there]
  | orphan found empty => exact (filled id _ found empty).elim
  | kept found filled same here there =>
    rw [here, there]
    rfl

theorem queues_eq_of_mends (inOrder : b.InOrder) (consistent : w.store.Consistent)
    (shed : w.store.Shed listed failed.store)
    (priorities : again.priorities b = once.priorities b) (mends : Mends b listed w failed once)
    (id : Int) : again.store.queues[id]? = once.store.queues[id]? := by
  cases compared id with
  | gone here there => rw [here, there]
  | orphan found empty => exact (mends.filled id _ found empty).elim
  | @kept q r priority found filled same here there recalculated untouched recalculated' untouched' =>
    have unique {x : α} (touched : w.store.Touches listed r.definition.ownerGroup)
        (mem : (id, x) ∈ once.priorities b r.definition.ownerGroup) : x = r.priority :=
      congrArg Prod.snd (List.inj_on_of_nodup_map (once.nodup_priorities _ inOrder) mem
        (recalculated touched) rfl)
    -- Only a queue whose priority the second deletion leaves alone has to be compared.
    have last : priority = r.priority := by
      by_cases later : failed.store.Touches listed r.definition.ownerGroup
      · refine unique (shed.touches consistent later) ?_
        rw [← priorities]
        exact recalculated' later
      · rw [untouched' later]
        by_cases touched : w.store.Touches listed r.definition.ownerGroup
        · refine unique touched ?_
          rw [same] at touched later ⊢
          exact mends.fresh id q found touched later
        · exact (untouched touched).symm
    rw [here, there, last]

end

end Deletion

section

variable [Scalar α] {b : Broker α} {listed : List String} {w failed once again : World α (Store α)}

structure Redeletes (b : Broker α) (listed : List String) (w failed once again : World α (Store α)) :
    Prop where
  jobs : again.store.jobs = once.store.jobs
  lastId : again.store.lastId = once.store.lastId
  /-- The queues of the one deletion are there. Their priorities are those that a recalculation writes
  now if the second deletion touches the group, and the same if not even the first one did. -/
  kept : ∀ (id : Int) (r : StoredQueue α), once.store.queues[id]? = some r →
    ∃ priority : α, again.store.queues[id]? = some { r with priority := priority } ∧
      (failed.store.Touches listed r.definition.ownerGroup →
        (id, priority) ∈ again.priorities b r.definition.ownerGroup) ∧
      (¬ w.store.Touches listed r.definition.ownerGroup → priority = r.priority)
  /-- The empty queues that the first deletion left stay. -/
  orphans : ∀ (id : Int) (q : StoredQueue α), failed.store.queues[id]? = some q → q.jobs = ∅ →
    once.store.queues[id]? = none ∧
      ∃ priority : α, again.store.queues[id]? = some { q with priority := priority }
  others : ∀ id : Int, once.store.queues[id]? = none →
    (∀ q, failed.store.queues[id]? = some q → q.jobs ≠ ∅) → again.store.queues[id]? = none
  converges_iff : again.store = once.store ↔ Deletion.Mends b listed w failed once

theorem redeletes_of_leaves (inOrder : b.InOrder) (consistent : w.store.Consistent)
    (tidy : w.store.Tidy) (shed : w.Shed listed failed) (left : Deletion.Leaves b w.store listed once)
    (left' : Deletion.Leaves b failed.store listed again) (shed' : w.Shed listed once)
    (shed'' : failed.Shed listed again) : Redeletes b listed w failed once again := by
  have compared := Deletion.compared consistent tidy shed.store left left'
  have lastId : again.store.lastId = once.store.lastId := by
    rw [shed''.store.lastId, shed.store.lastId, shed'.store.lastId]
  have jobs : again.store.jobs = once.store.jobs := by
    refine Std.ExtTreeMap.ext_getElem? fun job => ?_
    rw [left'.jobs, left.jobs]
    split
    · rfl
    · rename_i unlisted
      exact shed.store.jobs_of_not_mem unlisted
  refine ⟨jobs, lastId, ?_, ?_, ?_, Deletion.mends_of_eq compared, ?_⟩
  · intro id r here
    cases compared id with
    | gone here' | orphan _ _ here' => cases here.symm.trans here'
    | @kept q r' priority _ _ _ here' there _ untouched recalculated' untouched' =>
      cases here.symm.trans here'
      refine ⟨priority, there, recalculated', fun apart => ?_⟩
      rw [untouched apart]
      exact untouched' fun touched => apart (shed.store.touches consistent touched)
  · intro id q found empty
    cases compared id with
    | gone _ _ emptied => exact ((emptied q found).filled empty).elim
    | orphan found' _ here there =>
      cases found.symm.trans found'
      exact ⟨here, _, there⟩
    | kept found' filled =>
      cases found.symm.trans found'
      exact (filled empty).elim
  · intro id here filled
    cases compared id with
    | gone _ there => exact there
    | orphan found empty => exact (filled _ found empty).elim
    | kept _ _ _ here' => cases here.symm.trans here'
  · intro mends
    have alike := Deletion.alike_of_filled compared mends.filled jobs
    have book : again.book = once.book := by rw [shed''.book, shed.book, shed'.book]
    have usage : again.basis.usage = once.basis.usage := by
      rw [shed''.usage, shed.usage, shed'.usage]
    have shares : again.shares = once.shares := by rw [shed''.shares, shed.shares, shed'.shares]
    have priorities : again.priorities b = once.priorities b :=
      funext (World.priorities_congr (World.basis_of_alike book usage alike) shares b)
    exact shed''.store.consistent.ext shed'.store.consistent lastId
      (Deletion.queues_eq_of_mends compared inOrder consistent shed.store priorities mends)
      fun job => by rw [jobs]

theorem Deletion.leaves_play (inOrder : b.InOrder) (consistent : w.store.Consistent)
    (enabled : ∀ (id : Int) (q : StoredQueue α), w.store.queues[id]? = some q → q.enabled = true)
    (listed : List String) :
    (∃ report, (w.play (b.delete listed)).1 = some (.ok report)) ∧
      Deletion.Leaves b w.store listed (w.play (b.delete listed)).2 ∧
        w.Shed listed (w.play (b.delete listed)).2 := by
  have given := Deletion.gives_passes inOrder (t := ⟨w, []⟩) consistent enabled listed
  have sheds := Deletion.sheds_delete inOrder consistent enabled listed []
  obtain ⟨-, report, ok⟩ := given.calm rfl
  obtain ⟨r, out, passes, -⟩ := given.result report ok
  rw [Trial.Ends, Trial.run_calm] at sheds
  rw [Trial.run_calm] at ok passes
  exact ⟨⟨report, ok⟩, passes.leaves consistent inOrder, sheds⟩

end

/-- The jobs of a deletion are deleted again, in the world that a failed call left. -/
structure Redeleting (b : Broker Float) (listed : List String) (w failed : World Float (Store Float)) :
    Prop where
  answers : ∃ report, (failed.play (b.delete listed)).1 = some (.ok report)
  redeletes : Redeletes b listed w failed (w.play (b.delete listed)).2
    (failed.play (b.delete listed)).2

/-- Whatever calls were made before, and whichever questions of a deletion fail, the second one takes
all of the jobs away; the stores differ by what the first one had emptied or left to recalculate. -/
theorem redeleting_of_reached {b : Broker Float} (valid : b.Validated)
    {w : World Float (Store Float)} (reached : b.Reached w.store) (listed : List String)
    (outages : List (Option Outage)) :
    Redeleting b listed w ((⟨w, outages⟩ : Trial Float).run (b.delete listed)).2.world := by
  have inOrder := Broker.inOrder_of_checked valid.history
  have midway := Tidiness.midway_of_reached inOrder reached
  have consistent := midway.consistent
  have tidy := midway.tidy
  have shed : w.Shed listed ((⟨w, outages⟩ : Trial Float).run (b.delete listed)).2.world :=
    Deletion.sheds_delete inOrder consistent tidy.enabled listed outages
  obtain ⟨-, left, shed'⟩ := Deletion.leaves_play inOrder consistent tidy.enabled listed
  obtain ⟨answers, left', shed''⟩ := Deletion.leaves_play inOrder shed.store.consistent
    (shed.store.enabled tidy.enabled) listed
  exact ⟨answers, redeletes_of_leaves inOrder consistent tidy shed left left' shed' shed''⟩

namespace Deletion

def outage : Outage := ⟨.connectionFailed "no answer", .unreadable⟩

end Deletion

theorem redeleting_served :
    Broker.standard.Reached Deletion.served.store ∧
      ((⟨Deletion.served, [none, some Deletion.outage]⟩ : Trial Float).run
        (Broker.standard.delete ["j1", "j2"])).1.bind Except.toOption = none ∧
      Redeleting .standard ["j1", "j2"] Deletion.served
        ((⟨Deletion.served, [none, some Deletion.outage]⟩ : Trial Float).run
          (Broker.standard.delete ["j1", "j2"])).2.world := by
  refine ⟨Deletion.reached_served, ?_, ?_⟩
  · decide +kernel
  · exact redeleting_of_reached Broker.validated_standard Deletion.reached_served _ _

/-- Both jobs have been removed when looking at their queue fails; nothing removes it then. -/
theorem not_recovers_served :
    Broker.standard.Reached Deletion.served.store ∧
      ¬ Deletion.served.Recovers (Broker.standard.delete ["j1", "j2"]) := by
  refine ⟨Deletion.reached_served, fun recovers => ?_⟩
  have sizes := congrArg (·.queues.size) (recovers [none, none, none, some Deletion.outage])
  revert sizes
  decide +kernel

end Matchmaker
