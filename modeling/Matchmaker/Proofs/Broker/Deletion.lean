import Matchmaker.Proofs.Broker.Repricing
import Matchmaker.Proofs.Broker.Tidiness
import Mathlib.Data.Finset.Card

/-!
What a deletion leaves of a store and what it reports, by the store before it. A first pass removes
the jobs of the list one by one; a second pass removes the queues that they were in, where nothing is
left. Both are followed along the list, so that repetitions and unknown jobs need no case of their
own at the end.
-/
namespace Matchmaker

open Operation

variable {α : Type}

/-! ### Lists of jobs -/

namespace Store

variable (s : Store α)

def stored (jobs : List String) : Finset String := jobs.toFinset.filter (· ∈ s.jobs)

/-- The occurrences in a list of jobs that are not stored, or come earlier in the list. -/
def missing (jobs : List String) : List String :=
  (jobs.zipIdx.filter fun (job, i) => job ∉ s.jobs ∨ job ∈ jobs.take i).map Prod.fst

@[simp] theorem mem_stored {jobs : List String} {job : String} :
    job ∈ s.stored jobs ↔ job ∈ jobs ∧ job ∈ s.jobs := by
  simp [stored]

theorem card_stored_concat (jobs : List String) (job : String) :
    (s.stored (jobs ++ [job])).card =
      (s.stored jobs).card + if job ∉ s.jobs ∨ job ∈ jobs then 0 else 1 := by
  split <;> rename_i known
  · have same : s.stored (jobs ++ [job]) = s.stored jobs := by
      ext other
      simp
      grind
    rw [same, Nat.add_zero]
  · have more : s.stored (jobs ++ [job]) = insert job (s.stored jobs) := by
      ext other
      simp
      grind
    rw [more, Finset.card_insert_of_notMem]
    simp
    grind

theorem missing_concat (jobs : List String) (job : String) :
    s.missing (jobs ++ [job]) =
      s.missing jobs ++ if job ∉ s.jobs ∨ job ∈ jobs then [job] else [] := by
  have earlier : jobs.zipIdx.filter
        (fun (other, i) => other ∉ s.jobs ∨ other ∈ (jobs ++ [job]).take i) =
      jobs.zipIdx.filter fun (other, i) => other ∉ s.jobs ∨ other ∈ jobs.take i := by
    refine List.filter_congr fun (other, i) mem => ?_
    have below : i < jobs.length := (List.mem_zipIdx' mem).1
    simp only [List.take_append_of_le_length below.le]
  unfold missing
  rw [List.zipIdx_append, List.filter_append, List.map_append, earlier]
  simp only [List.zipIdx_singleton, Nat.zero_add, List.filter_singleton, List.take_left']
  split <;> simp_all

theorem card_stored_add_length_missing (jobs : List String) :
    (s.stored jobs).card + (s.missing jobs).length = jobs.length := by
  induction jobs using List.reverseRecOn with
  | nil => rfl
  | append_singleton jobs job ih =>
    rw [card_stored_concat, missing_concat, List.length_append, List.length_append]
    split <;> simp <;> omega

end Store

/-! ### Removing jobs -/

def StoredQueue.without (q : StoredQueue α) (gone : List String) : StoredQueue α :=
  { q with jobs := q.jobs.filter (· ∉ gone) }

namespace StoredQueue

variable (q : StoredQueue α) (gone : List String)

@[simp] theorem mem_without (job : String) : job ∈ (q.without gone).jobs ↔ job ∈ q.jobs ∧ job ∉ gone := by
  simp [without, Std.ExtTreeSet.mem_filter]

variable {q gone} in
theorem without_congr {gone' : List String} (same : ∀ job ∈ q.jobs, job ∈ gone ↔ job ∈ gone') :
    q.without gone = q.without gone' := by
  have jobs : (q.without gone).jobs = (q.without gone').jobs := by
    ext job
    simp only [mem_without]
    exact and_congr_right fun mem => not_congr (same job mem)
  simp only [without] at jobs ⊢
  rw [jobs]

theorem without_nil : q.without [] = q := by
  have jobs : q.jobs.filter (fun job => job ∉ []) = q.jobs := by
    ext job
    simp [Std.ExtTreeSet.mem_filter]
  rw [without, jobs]

variable {q gone} in
theorem without_of_empty (empty : q.jobs = ∅) : q.without gone = q := by
  rw [without_congr fun job mem => ?_, without_nil]
  rw [empty] at mem
  exact (Std.ExtTreeSet.not_mem_empty mem).elim

theorem without_concat (job : String) :
    q.without (gone ++ [job]) =
      { q.without gone with jobs := (q.without gone).jobs.erase job } := by
  have jobs : (q.without (gone ++ [job])).jobs = (q.without gone).jobs.erase job := by
    ext other
    simp [Std.ExtTreeSet.mem_erase]
    grind
  simp only [without] at jobs ⊢
  rw [jobs]

theorem without_concat_of_not_mem {job : String} (other : job ∉ q.jobs) :
    q.without (gone ++ [job]) = q.without gone := by
  refine without_congr fun mine mem => ?_
  have apart : mine ≠ job := fun same => other (same ▸ mem)
  simp [apart]

theorem without_eq_empty : (q.without gone).jobs = ∅ ↔ ∀ job ∈ q.jobs, job ∈ gone := by
  simp [Std.ExtTreeSet.eq_empty_iff_forall_not_mem]

/-- The queue has jobs, and all of them are in the list. -/
def EmptiedBy (listed : List String) : Prop :=
  (∃ job ∈ listed, job ∈ q.jobs) ∧ ∀ job ∈ q.jobs, job ∈ listed

variable {q} in
theorem EmptiedBy.filled {listed : List String} (h : q.EmptiedBy listed) : q.jobs ≠ ∅ := by
  obtain ⟨⟨job, -, mem⟩, -⟩ := h
  exact Std.ExtTreeSet.ne_empty_of_mem mem

variable {q} in
theorem emptiedBy_iff (filled : q.jobs ≠ ∅) (listed : List String) :
    q.EmptiedBy listed ↔ ∀ job ∈ q.jobs, job ∈ listed := by
  obtain ⟨job, mem⟩ := TextSet.exists_mem filled
  exact and_iff_right_of_imp fun covered => ⟨job, covered job mem, mem⟩

end StoredQueue

namespace Store

structure Without (s : Store α) (gone : List String) (t : Store α) : Prop where
  jobs : ∀ job : String, t.jobs[job]? = if job ∈ gone then none else s.jobs[job]?
  queues : ∀ id : Int, t.queues[id]? = s.queues[id]?.map (·.without gone)

variable {s t : Store α} {gone : List String}

theorem without_nil (s : Store α) : s.Without [] s where
  jobs := by simp
  queues id := by simp [StoredQueue.without_nil]

namespace Without

theorem enabled (h : s.Without gone t)
    (enabled : ∀ (id : Int) (q : StoredQueue α), s.queues[id]? = some q → q.enabled = true)
    (id : Int) (q : StoredQueue α) (found : t.queues[id]? = some q) : q.enabled = true := by
  rw [h.queues, Option.map_eq_some_iff] at found
  obtain ⟨p, there, rfl⟩ := found
  exact enabled id p there

variable (consistent : s.Consistent) (h : s.Without gone t) (job : String)
include consistent h

theorem of_missing (absent : t.jobs[job]? = none) : s.Without (gone ++ [job]) t where
  jobs other := by
    by_cases same : other = job
    · rw [same, absent]
      simp
    · rw [h.jobs]
      simp [same]
  queues id := by
    rw [h.queues]
    refine Option.map_congr fun q found => StoredQueue.without_congr fun mine mem => ?_
    have known : mine = job → mine ∈ gone := by
      rintro rfl
      obtain ⟨record, stored, -⟩ := (consistent.member id mine).1 ⟨q, found, mem⟩
      rw [h.jobs, stored] at absent
      by_contra kept
      simp [kept] at absent
    simp only [List.mem_append, List.mem_singleton]
    exact ⟨.inl, fun mem => mem.elim (·) known⟩

theorem remove {record : Job α} (stored : t.jobs[job]? = some record) :
    s.Without (gone ++ [job]) { t with
      jobs := t.jobs.erase job
      queues := t.queues.modify record.queue fun q => { q with jobs := q.jobs.erase job } } where
  jobs other := by
    rw [Std.ExtTreeMap.getElem?_erase, h.jobs]
    by_cases same : job = other
    · simp [same]
    · simp [same, Ne.symm same]
  queues id := by
    have own : s.jobs[job]? = some record := by
      rw [h.jobs] at stored
      exact (Option.ite_none_left_eq_some.1 stored).2
    by_cases home : record.queue = id
    · rw [home, Std.ExtTreeMap.getElem?_modify_self, h.queues, Option.map_map]
      exact Option.map_congr fun q _ => (q.without_concat gone job).symm
    · have others : (t.queues.modify record.queue fun q => { q with jobs := q.jobs.erase job })[id]? =
          t.queues[id]? := by
        simp [Std.ExtTreeMap.getElem?_modify, home]
      rw [others, h.queues]
      refine Option.map_congr fun q found => (q.without_concat_of_not_mem gone fun mem => ?_).symm
      obtain ⟨record', stored', there⟩ := (consistent.member id job).1 ⟨q, found, mem⟩
      cases own.symm.trans stored'
      exact home there

end Without

structure Removed (s : Store α) (gone : List String) (r : Broker.Removals) (t : Store α) :
    Prop where
  without : s.Without gone t
  removed : r.removed = (s.stored gone).card
  missing : r.missing = s.missing gone
  touched : ∀ id : Int, id ∈ r.touched ↔ ∃ job ∈ gone, s.home? job = some id

theorem removed_nil (s : Store α) : s.Removed [] {} s where
  without := s.without_nil
  removed := rfl
  missing := rfl
  touched := by simp

namespace Removed

variable (consistent : s.Consistent) {r : Broker.Removals} (h : s.Removed gone r t) {job : String}
include consistent h

theorem pass (absent : t.jobs[job]? = none) :
    s.Removed (gone ++ [job]) { r with missing := r.missing ++ [job] } t := by
  have known : job ∉ s.jobs ∨ job ∈ gone := by
    rw [h.without.jobs] at absent
    by_cases mem : job ∈ gone
    · exact .inr mem
    · simpa [mem] using absent
  refine ⟨h.without.of_missing consistent job absent, ?_, ?_, fun id => ?_⟩
  · rw [card_stored_concat, if_pos known, Nat.add_zero, h.removed]
  · rw [missing_concat, if_pos known, h.missing]
  · rw [h.touched]
    have covered (home : s.home? job = some id) : job ∈ gone := by
      refine known.resolve_left fun absent => ?_
      simp [Store.home?, absent] at home
    constructor
    · rintro ⟨mine, mem, home⟩
      exact ⟨mine, List.mem_append_left _ mem, home⟩
    · rintro ⟨mine, mem, home⟩
      rcases List.mem_append.1 mem with mem | mem
      · exact ⟨mine, mem, home⟩
      · cases List.mem_singleton.1 mem
        exact ⟨job, covered home, home⟩

theorem remove {record : Job α} (stored : t.jobs[job]? = some record) :
    s.Removed (gone ++ [job])
      { r with removed := r.removed + 1, touched := r.touched.insert record.queue } { t with
        jobs := t.jobs.erase job
        queues := t.queues.modify record.queue fun q => { q with jobs := q.jobs.erase job } } := by
  have own : job ∉ gone ∧ s.jobs[job]? = some record := by
    rw [h.without.jobs] at stored
    exact Option.ite_none_left_eq_some.1 stored
  have unknown : ¬ (job ∉ s.jobs ∨ job ∈ gone) := by
    simp [own, Std.ExtTreeMap.mem_iff_isSome_getElem?]
  refine ⟨h.without.remove consistent job stored, ?_, ?_, fun id => ?_⟩
  · rw [card_stored_concat, if_neg unknown, h.removed]
  · rw [missing_concat, if_neg unknown, List.append_nil, h.missing]
  · have home : s.home? job = some record.queue := by simp [Store.home?, own]
    simp only [Std.ExtTreeSet.mem_insert, h.touched, compare_eq_iff_eq, List.mem_append,
      List.mem_singleton]
    constructor
    · rintro (rfl | ⟨mine, mem, there⟩)
      · exact ⟨job, .inr rfl, home⟩
      · exact ⟨mine, .inl mem, there⟩
    · rintro ⟨mine, mem | rfl, there⟩
      · exact .inr ⟨mine, mem, there⟩
      · exact .inl (Option.some_inj.1 (home.symm.trans there))

end Removed

theorem filter_erase {id : Int} {rest : List Int} (fresh : id ∉ rest) (p : StoredQueue α → Bool) :
    rest.filter (fun other => (s.queues.erase id)[other]?.any p) =
      rest.filter fun other => s.queues[other]?.any p := by
  refine List.filter_congr fun other mem => ?_
  have apart : id ≠ other := fun same => fresh (same ▸ mem)
  simp [Std.ExtTreeMap.getElem?_erase, apart]

theorem getElem?_erase_of_cons (id other : Int) (out : List Int) :
    (if other ∈ out then none else (s.queues.erase id)[other]?) =
      if other ∈ id :: out then none else s.queues[other]? := by
  rw [Std.ExtTreeMap.getElem?_erase]
  by_cases same : id = other
  · simp [same]
  · simp [same, Ne.symm same]

structure Dropped (s : Store α) (ids out : List Int) (touched : TextSet) (t : Store α) : Prop where
  deleted : out = ids.filter fun id => s.queues[id]?.any (·.jobs.isEmpty)
  queues : ∀ id : Int, t.queues[id]? = if id ∈ out then none else s.queues[id]?
  jobs : t.jobs = s.jobs
  groups : ∀ group : String, group ∈ touched ↔
    ∃ id ∈ ids, ∃ q, s.queues[id]? = some q ∧ q.definition.ownerGroup = group

theorem dropped_nil (s : Store α) : s.Dropped [] [] ∅ s where
  deleted := rfl
  queues := by simp
  jobs := rfl
  groups := by simp

namespace Dropped

variable {id : Int} {rest out : List Int} {touched : TextSet}

theorem pass (h : s.Dropped rest out touched t) (absent : s.queues[id]? = none) :
    s.Dropped (id :: rest) out touched t where
  deleted := by simp [absent, h.deleted]
  queues := h.queues
  jobs := h.jobs
  groups group := by simp [absent, h.groups]

variable {q : StoredQueue α} (found : s.queues[id]? = some q)
include found

theorem keep (h : s.Dropped rest out touched t) (filled : q.jobs ≠ ∅) :
    s.Dropped (id :: rest) out (touched.insert q.definition.ownerGroup) t where
  deleted := by simp [found, filled, h.deleted]
  queues := h.queues
  jobs := h.jobs
  groups group := by simp [found, h.groups]

theorem drop {index : Std.ExtTreeMap String Int}
    (h : Dropped { s with queues := s.queues.erase id, byFingerprint := index } rest out touched t)
    (fresh : id ∉ rest) (empty : q.jobs = ∅) :
    s.Dropped (id :: rest) (id :: out) (touched.insert q.definition.ownerGroup) t where
  deleted := by
    rw [List.filter_cons, h.deleted, filter_erase fresh]
    simp [found, empty]
  queues other := by rw [h.queues, getElem?_erase_of_cons]
  jobs := h.jobs
  groups group := by
    simp [found, h.groups]
    grind

end Dropped

/-! ### What the passes find -/

/-- A queue of the group has a listed job. -/
def Touches (s : Store α) (listed : List String) (group : String) : Prop :=
  ∃ (id : Int) (q : StoredQueue α), s.queues[id]? = some q ∧ q.definition.ownerGroup = group ∧
    ∃ job ∈ listed, job ∈ q.jobs

variable {u v : Store α} {listed : List String} {r : Broker.Removals} {out : List Int}
  {groups : TextSet} (consistent : s.Consistent) (removals : s.Removed listed r u)
include consistent removals

theorem Removed.mem_touched (id : Int) :
    id ∈ r.touched ↔ ∃ q, s.queues[id]? = some q ∧ ∃ job ∈ listed, job ∈ q.jobs := by
  have home (job : String) : s.home? job = some id ↔ ∃ q, s.queues[id]? = some q ∧ job ∈ q.jobs :=
    Option.map_eq_some_iff.trans (consistent.member id job).symm
  simp only [removals.touched, home]
  grind

variable (drops : u.Dropped r.touched.toList out groups v)
include drops

theorem Dropped.mem_out (id : Int) :
    id ∈ out ↔ ∃ q, s.queues[id]? = some q ∧ q.EmptiedBy listed := by
  rw [drops.deleted, List.mem_filter, Std.ExtTreeSet.mem_toList, removals.mem_touched consistent,
    removals.without.queues]
  cases found : s.queues[id]? with
  | none => simp
  | some q => simp [StoredQueue.EmptiedBy, StoredQueue.without_eq_empty]

theorem Dropped.mem_groups (group : String) : group ∈ groups ↔ s.Touches listed group := by
  have known (id : Int) (q : StoredQueue α) : u.queues[id]? = some q ↔
      ∃ p, s.queues[id]? = some p ∧ p.without listed = q := by
    rw [removals.without.queues, Option.map_eq_some_iff]
  simp only [drops.groups, Std.ExtTreeSet.mem_toList, removals.mem_touched consistent, known]
  constructor
  · rintro ⟨id, ⟨q, found, listed⟩, _, ⟨q', found', rfl⟩, own⟩
    cases found.symm.trans found'
    exact ⟨id, q, found, own, listed⟩
  · rintro ⟨id, q, found, own, listed⟩
    exact ⟨id, ⟨q, found, listed⟩, _, ⟨q, found, rfl⟩, own⟩

end Store

/-! ### Passes -/

section

variable [Scalar α] {s : Store α}

theorem Broker.Removals.nodup_touched (r : Broker.Removals) : r.touched.toList.Nodup :=
  Std.ExtTreeSet.distinct_toList.imp fun apart same => apart (compare_eq_iff_eq.2 same)

namespace Deletion

theorem gives_dropEmptied (ids : List Int) (distinct : ids.Nodup) {t : Trial α}
    (enabled : ∀ (id : Int) (q : StoredQueue α), t.world.store.queues[id]? = some q →
      q.enabled = true) :
    t.Gives (Broker.dropEmptied ids) fun t' c =>
      t.world.store.Dropped ids c.1 c.2 t'.world.store := by
  induction ids generalizing t with
  | nil => exact Trial.gives_pure t.world.store.dropped_nil
  | cons id rest ih =>
    obtain ⟨fresh, distinct⟩ := List.nodup_cons.1 distinct
    refine (Trial.gives_store rfl).bind ?_
    rintro t' _ ⟨rfl, same⟩
    rw [← same] at enabled ⊢
    cases found : t'.world.store.queues[id]? with
    | none =>
      rw [Store.queue?, found]
      exact (ih distinct enabled).mono fun t'' c dropped => dropped.pass found
    | some q =>
      rw [Store.queue?, found]
      dsimp only [Option.map_some]
      split
      · rename_i size
        have empty : q.jobs = ∅ := by
          rw [← Std.ExtTreeSet.isEmpty_iff, Std.ExtTreeSet.isEmpty_eq_size_beq_zero]
          simpa [StoredQueue.summary] using size
        have performed := Store.perform_deleteIfEmpty found (enabled id q found) empty
        refine (Trial.gives_store performed).bind ?_
        rintro t'' _ ⟨rfl, same'⟩
        have still (id' : Int) (q' : StoredQueue α) (found' : t''.world.store.queues[id']? = some q') :
            q'.enabled = true := by
          rw [same', Std.ExtTreeMap.getElem?_erase] at found'
          exact enabled id' q' (Option.ite_none_left_eq_some.1 found').2
        refine (ih distinct still).bind fun u c dropped => Trial.gives_pure ?_
        rw [same'] at dropped
        exact dropped.drop found fresh empty
      · rename_i size
        have filled : q.jobs ≠ ∅ := by
          rintro empty
          simp [StoredQueue.summary, empty] at size
        rw [pure_bind]
        exact (ih distinct enabled).bind fun t'' c dropped =>
          Trial.gives_pure (dropped.keep found filled)

variable (consistent : s.Consistent)
include consistent

theorem gives_removeJobs (r : Broker.Removals) (gone jobs : List String) {t : Trial α}
    (h : s.Removed gone r t.world.store) :
    t.Gives (Broker.removeJobs r jobs) fun t' r' => s.Removed (gone ++ jobs) r' t'.world.store := by
  induction jobs generalizing r gone t with
  | nil =>
    rw [List.append_nil]
    exact Trial.gives_pure h
  | cons job rest ih =>
    rw [List.append_cons]
    cases stored : t.world.store.jobs[job]? with
    | none =>
      have performed : t.world.store.perform (.removeJob job) = (.ok none, t.world.store) := by
        simp [Store.perform, Store.removeJob, stored]
      refine (Trial.gives_store performed).bind ?_
      rintro t' _ ⟨rfl, same⟩
      exact ih _ _ (same ▸ h.pass consistent stored)
    | some record =>
      have performed : t.world.store.perform (.removeJob job) = (.ok (some record.queue),
          { t.world.store with
            jobs := t.world.store.jobs.erase job
            queues := t.world.store.queues.modify record.queue fun q =>
              { q with jobs := q.jobs.erase job } }) := by
        simp [Store.perform, Store.removeJob, stored]
      refine (Trial.gives_store performed).bind ?_
      rintro t' _ ⟨rfl, same⟩
      exact ih _ _ (same ▸ h.remove consistent stored)

end Deletion

/-! ### Reports -/

/-- What a deletion leaves of a store, and what it reports. -/
structure Deletes (b : Broker α) (s : Store α) (listed : List String) (w : World α (Store α))
    (report : DeleteReport) : Prop where
  jobs : ∀ job : String, w.store.jobs[job]? = if job ∈ listed then none else s.jobs[job]?
  removed : report.removed = (s.stored listed).card
  missing : report.missing = s.missing listed
  counted : report.removed + report.missing.length = listed.length
  ascending : report.deletedQueues.Pairwise (· < ·)
  deleted : ∀ id : Int, id ∈ report.deletedQueues ↔
    ∃ q, s.queues[id]? = some q ∧ ∀ job ∈ q.jobs, job ∈ listed
  gone : ∀ id : Int, w.store.queues[id]? = none ↔
    s.queues[id]? = none ∨ id ∈ report.deletedQueues
  /-- The other queues have lost the listed jobs. In the groups that are touched their priorities
  are those that a recalculation writes now; elsewhere they are as before. -/
  kept : ∀ (id : Int) (q : StoredQueue α), s.queues[id]? = some q → id ∉ report.deletedQueues →
    ∃ priority : α, w.store.queues[id]? = some { q.without listed with priority := priority } ∧
      (s.Touches listed q.definition.ownerGroup →
        (id, priority) ∈ w.priorities b q.definition.ownerGroup) ∧
      (¬ s.Touches listed q.definition.ownerGroup → priority = q.priority)

namespace Deletion

theorem gives_recalculateGroups {b : Broker α} (inOrder : b.InOrder) (groups : List String)
    (t : Trial α) :
    t.Gives (b.recalculateGroups groups) fun t' _ =>
      (∀ group, t'.world.priorities b group = t.world.priorities b group) ∧
        t'.world.store = t.world.store.setPriorities (groups.flatMap (t.world.priorities b)) := by
  have wrote := Broker.writes_recalculateGroups inOrder groups t
  refine ⟨fun c ok => ⟨World.priorities_congr wrote.basis wrote.shares b, wrote.done ok⟩, ?_⟩
  intro calm
  exact ⟨(wrote.calm calm).1, (), (wrote.calm calm).2⟩

def Passes (b : Broker α) (s : Store α) (listed : List String) (r : Broker.Removals)
    (out : List Int) (w : World α (Store α)) : Prop :=
  ∃ u v groups, s.Removed listed r u ∧ u.Dropped r.touched.toList out groups v ∧
    w.store = v.setPriorities (groups.toList.flatMap (w.priorities b))

theorem gives_passes {b : Broker α} (inOrder : b.InOrder) {t : Trial α}
    (consistent : t.world.store.Consistent)
    (enabled : ∀ (id : Int) (q : StoredQueue α), t.world.store.queues[id]? = some q →
      q.enabled = true) (listed : List String) :
    t.Gives (b.delete listed) fun t' report => ∃ r out,
      Passes b t.world.store listed r out t'.world ∧ report = ⟨r.removed, r.missing, out⟩ := by
  have nothing := t.world.store.removed_nil
  refine (gives_removeJobs consistent {} [] listed nothing).bind fun t₁ r removals => ?_
  refine (Trial.gives_record _).bind fun t₂ _ same => ?_
  rw [List.nil_append, ← same] at removals
  refine (gives_dropEmptied _ r.nodup_touched (removals.without.enabled enabled)).bind
    fun t₃ (out, groups) drops => ?_
  refine (Trial.gives_record _).bind fun t₄ _ same => ?_
  refine (gives_recalculateGroups inOrder groups.toList t₄).bind fun t₅ _ ⟨kept, written⟩ => ?_
  refine Trial.gives_pure ⟨r, out, ⟨_, _, groups, removals, drops, ?_⟩, rfl⟩
  rw [written, same, funext kept]

/-- What a deletion leaves of a store, also of one with empty queues. -/
structure Leaves (b : Broker α) (s : Store α) (listed : List String) (w : World α (Store α)) :
    Prop where
  jobs : ∀ job : String, w.store.jobs[job]? = if job ∈ listed then none else s.jobs[job]?
  gone : ∀ id : Int, w.store.queues[id]? = none ↔
    ∀ q, s.queues[id]? = some q → q.EmptiedBy listed
  kept : ∀ (id : Int) (q : StoredQueue α), s.queues[id]? = some q → ¬ q.EmptiedBy listed →
    ∃ priority : α, w.store.queues[id]? = some { q.without listed with priority := priority } ∧
      (s.Touches listed q.definition.ownerGroup →
        (id, priority) ∈ w.priorities b q.definition.ownerGroup) ∧
      (¬ s.Touches listed q.definition.ownerGroup → priority = q.priority)

namespace Passes

variable {b : Broker α} {listed : List String} {r : Broker.Removals} {out : List Int}
  {w : World α (Store α)} (h : Passes b s listed r out w) (consistent : s.Consistent)
include h consistent

theorem mem_out (id : Int) : id ∈ out ↔ ∃ q, s.queues[id]? = some q ∧ q.EmptiedBy listed := by
  obtain ⟨u, v, groups, removals, drops, -⟩ := h
  exact drops.mem_out consistent removals id

theorem leaves (inOrder : b.InOrder) : Leaves b s listed w := by
  have mem_out := h.mem_out consistent
  obtain ⟨u, v, groups, removals, drops, written⟩ := h
  have there (id : Int) : v.queues[id]? =
      if id ∈ out then none else s.queues[id]?.map (·.without listed) := by
    rw [drops.queues, removals.without.queues]
  constructor
  · intro job
    rw [written, Store.jobs_setPriorities, drops.jobs, removals.without.jobs]
  · intro id
    rw [written, Store.getElem?_queues_setPriorities, Option.map_eq_none_iff, there]
    cases found : s.queues[id]? with
    | none => simp
    | some q => simp [mem_out, found]
  · intro id q found filled
    have left : id ∉ out := by simpa [mem_out, found] using filled
    have here : v.queues[id]? = some (q.without listed) := by
      rw [there, if_neg left, found]
      rfl
    have touched : q.definition.ownerGroup ∈ groups.toList ↔
        s.Touches listed q.definition.ownerGroup := by
      rw [Std.ExtTreeSet.mem_toList, drops.mem_groups consistent removals]
    obtain ⟨priority, now, recalculated, elsewhere⟩ :=
      w.exists_of_setPriorities inOrder written here
    exact ⟨priority, now, fun mem => recalculated (touched.2 mem),
      fun untouched => elsewhere (mt touched.1 untouched)⟩

theorem deletes (inOrder : b.InOrder) (tidy : s.Tidy) :
    Deletes b s listed w ⟨r.removed, r.missing, out⟩ := by
  have leaves := h.leaves consistent inOrder
  have emptied := h.mem_out consistent
  have mem_out (id : Int) :
      id ∈ out ↔ ∃ q, s.queues[id]? = some q ∧ ∀ job ∈ q.jobs, job ∈ listed := by
    rw [emptied]
    refine exists_congr fun q => and_congr_right fun found => ?_
    exact StoredQueue.emptiedBy_iff (tidy.filled id q found) listed
  obtain ⟨u, v, groups, removals, drops, -⟩ := h
  constructor
  · exact leaves.jobs
  · exact removals.removed
  · exact removals.missing
  · rw [removals.removed, removals.missing]
    exact s.card_stored_add_length_missing listed
  · rw [drops.deleted]
    refine List.Pairwise.filter _ (Std.ExtTreeSet.ordered_toList.imp fun below => ?_)
    exact compare_lt_iff_lt.1 below
  · exact mem_out
  · intro id
    rw [leaves.gone, emptied]
    cases found : s.queues[id]? with
    | none => simp
    | some q => simp
  · intro id q found left
    exact leaves.kept id q found fun all => left ((emptied id).2 ⟨q, found, all⟩)

end Passes

theorem gives_delete {b : Broker α} (inOrder : b.InOrder) {t : Trial α}
    (consistent : t.world.store.Consistent) (tidy : t.world.store.Tidy) (listed : List String) :
    t.Gives (b.delete listed) fun t' report =>
      Deletes b t.world.store listed t'.world report := by
  refine (gives_passes inOrder consistent tidy.enabled listed).mono ?_
  rintro t' report ⟨r, out, passes, rfl⟩
  exact passes.deletes consistent inOrder tidy

end Deletion

end

variable {b : Broker Float}

/-- Whatever calls were made before, a deletion that has a result leaves and reports what it should,
whichever calls to the sources fail; it has a result where nothing fails. -/
theorem deletes_of_reached (valid : b.Validated) {t : Trial Float}
    (reached : b.Reached t.world.store) (listed : List String) :
    t.Gives (b.delete listed) fun t' report =>
      Deletes b t.world.store listed t'.world report := by
  have inOrder := Broker.inOrder_of_checked valid.history
  have midway := Tidiness.midway_of_reached inOrder reached
  exact Deletion.gives_delete inOrder midway.consistent midway.tidy listed

namespace Deletion

def served : World Float (Store Float) :=
  Tidiness.world.serve .standard [.insert "j1" Tidiness.requirements 3,
    .insert "j2" Tidiness.requirements 5]

theorem reached_served : Broker.standard.Reached served.store := Broker.reached_serve .empty _

end Deletion

theorem deletes_of_reached_standard :
    Broker.standard.Reached Deletion.served.store ∧
      ((⟨Deletion.served, []⟩ : Trial Float).run
        (Broker.standard.delete ["j2", "j9", "j1", "j2"])).1.bind Except.toOption =
          some ⟨2, ["j9", "j2"], [1]⟩ ∧
      (⟨Deletion.served, []⟩ : Trial Float).Gives
        (Broker.standard.delete ["j2", "j9", "j1", "j2"]) fun t report =>
          Deletes .standard Deletion.served.store ["j2", "j9", "j1", "j2"] t.world report := by
  refine ⟨Deletion.reached_served, ?_, ?_⟩
  · decide +kernel
  · exact deletes_of_reached (t := ⟨Deletion.served, []⟩) Broker.validated_standard
      Deletion.reached_served ["j2", "j9", "j1", "j2"]

end Matchmaker
