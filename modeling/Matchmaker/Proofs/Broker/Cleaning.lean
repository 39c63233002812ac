import Matchmaker.Proofs.Broker.Deletion

/-!
What cleaning leaves of a store and what it answers, by the store before it. The listing has all
queues without jobs, also those that are disabled; each is looked at once more when it is to be
removed. So the pass is followed along the listing, and what it removes is compared with the store
before only at the end. Cleaning again then finds nothing, and nothing is changed, not even by calls
that fail.
-/
namespace Matchmaker

open Operation

variable {α : Type}

/-! ### Queues to be removed -/

/-- Jobs could be added to the queue, and it has none. -/
def StoredQueue.Orphaned (q : StoredQueue α) : Prop := q.enabled = true ∧ q.jobs = ∅

instance (q : StoredQueue α) : Decidable q.Orphaned :=
  decidable_of_iff ((q.enabled && q.jobs.isEmpty) = true) (by simp [StoredQueue.Orphaned])

namespace Store

variable {s t : Store α}

def Loses (s : Store α) (group : String) : Prop :=
  ∃ (id : Int) (q : StoredQueue α), s.queues[id]? = some q ∧ q.Orphaned ∧
    q.definition.ownerGroup = group

theorem mem_empties {id : Int} {group : String} :
    (id, group) ∈ s.empties ↔
      ∃ q, s.queues[id]? = some q ∧ q.jobs = ∅ ∧ q.definition.ownerGroup = group := by
  simp only [empties, List.mem_filterMap, Prod.exists,
    Std.ExtTreeMap.mem_toList_iff_getElem?_eq_some, Option.ite_none_right_eq_some,
    Std.ExtTreeSet.isEmpty_iff, Option.some.injEq, Prod.mk.injEq]
  grind

theorem mem_map_fst_empties {id : Int} :
    id ∈ s.empties.map Prod.fst ↔ ∃ q, s.queues[id]? = some q ∧ q.jobs = ∅ := by
  simp [mem_empties]

theorem ascending_empties (s : Store α) : (s.empties.map Prod.fst).Pairwise (· < ·) := by
  have ordered : s.queues.toList.Pairwise fun a b => compare a.1 b.1 = .lt :=
    Std.ExtTreeMap.ordered_keys_toList
  refine List.pairwise_map.2 (ordered.filterMap _ ?_)
  intro entry entry' below found mem found' mem'
  simp only [Option.ite_none_right_eq_some, Option.some.injEq] at mem mem'
  rw [← mem.2, ← mem'.2]
  exact compare_lt_iff_lt.1 below

theorem perform_deleteIfEmpty_of_kept [Scalar α] {id : Int}
    (kept : ∀ q, s.queues[id]? = some q → ¬ q.Orphaned) :
    s.perform (.deleteIfEmpty id) = (.ok false, s) := by
  cases found : s.queues[id]? with
  | none => simp [perform, deleteIfEmpty, found]
  | some q =>
    have busy : ¬ (q.enabled = true ∧ q.jobs = ∅) := kept q found
    simp [perform, deleteIfEmpty, found, busy]

/-! ### The pass -/

structure Cleared (s : Store α) (found : List (Int × String)) (out : List Int) (groups : TextSet)
    (t : Store α) : Prop where
  deleted : out = (found.map Prod.fst).filter fun id => s.queues[id]?.any (·.Orphaned)
  queues : ∀ id : Int, t.queues[id]? = if id ∈ out then none else s.queues[id]?
  jobs : t.jobs = s.jobs
  lastId : t.lastId = s.lastId
  groups : ∀ group : String, group ∈ groups ↔ ∃ id ∈ out, (id, group) ∈ found
  consistent : s.Consistent → t.Consistent

theorem cleared_nil (s : Store α) : s.Cleared [] [] ∅ s where
  deleted := rfl
  queues := by simp
  jobs := rfl
  lastId := rfl
  groups := by simp
  consistent := id

namespace Cleared

variable {id : Int} {group : String} {rest : List (Int × String)} {out : List Int}
  {groups : TextSet}

theorem keep (h : s.Cleared rest out groups t) (fresh : id ∉ rest.map Prod.fst)
    (kept : ∀ q, s.queues[id]? = some q → ¬ q.Orphaned) :
    s.Cleared ((id, group) :: rest) out groups t where
  deleted := by
    have passed : s.queues[id]?.any (·.Orphaned) = false := by
      cases found : s.queues[id]? with
      | none => rfl
      | some q => exact decide_eq_false (kept q found)
    rw [List.map_cons, List.filter_cons, passed, h.deleted]
    rfl
  queues := h.queues
  jobs := h.jobs
  lastId := h.lastId
  groups other := by
    have absent : id ∉ out := by
      rw [h.deleted]
      exact fun mem => fresh (List.mem_of_mem_filter mem)
    rw [h.groups]
    grind
  consistent := h.consistent

theorem remove {q : StoredQueue α} (found : s.queues[id]? = some q) (orphaned : q.Orphaned)
    (fresh : id ∉ rest.map Prod.fst)
    (h : Cleared { s with
      queues := s.queues.erase id
      byFingerprint := s.byFingerprint.erase q.fingerprint } rest out groups t) :
    s.Cleared ((id, group) :: rest) (id :: out) (groups.insert group) t where
  deleted := by
    rw [List.map_cons, List.filter_cons, h.deleted, filter_erase fresh]
    simp [found, orphaned]
  queues other := by rw [h.queues, getElem?_erase_of_cons]
  jobs := h.jobs
  lastId := h.lastId
  groups other := by
    have absent : id ∉ out := by
      rw [h.deleted]
      exact fun mem => fresh (List.mem_of_mem_filter mem)
    have unlisted : (id, other) ∉ rest := fun mem => fresh (List.mem_map_of_mem mem)
    simp [h.groups]
    grind
  consistent consistent := h.consistent (consistent.delete found orphaned.2)

variable (h : s.Cleared s.empties out groups t)
include h

theorem mem_out (id : Int) : id ∈ out ↔ ∃ q, s.queues[id]? = some q ∧ q.Orphaned := by
  rw [h.deleted, List.mem_filter, mem_map_fst_empties]
  cases found : s.queues[id]? with
  | none => simp
  | some q =>
    simp only [Option.some.injEq, exists_eq_left', Option.any_some, decide_eq_true_eq]
    exact and_iff_right_of_imp And.right

theorem mem_groups (group : String) : group ∈ groups ↔ s.Loses group := by
  rw [h.groups]
  simp only [h.mem_out, mem_empties]
  constructor
  · rintro ⟨id, ⟨q, found, orphaned⟩, _, found', -, own⟩
    cases found.symm.trans found'
    exact ⟨id, q, found, orphaned, own⟩
  · rintro ⟨id, q, found, orphaned, own⟩
    exact ⟨id, ⟨q, found, orphaned⟩, q, found, orphaned.2, own⟩

theorem ascending : out.Pairwise (· < ·) := h.deleted ▸ s.ascending_empties.filter _

end Cleared

end Store

namespace Metrics

variable (m : Metrics)

theorem mem_queues_record {label : String} (counted : label ∈ m.queues) (event : Event) :
    label ∈ (m.record event).queues := by
  cases event <;> simp [record, Counts.add, counted]

theorem record_queuesDeleted_zero (counted : "deleted" ∈ m.queues) :
    m.record (.queuesDeleted 0) = m := by
  have same : m.queues.add "deleted" 0 = m.queues := by
    refine Std.ExtTreeMap.ext_getElem? fun label => ?_
    rw [Counts.add, Std.ExtTreeMap.getElem?_insert]
    split
    · rename_i own
      rw [← Std.LawfulEqOrd.compare_eq_iff_eq.1 own, Nat.add_zero]
      exact (Std.ExtTreeMap.getElem?_eq_some_getD counted).symm
    · rfl
  rw [record, same]

end Metrics

section

variable [Scalar α]

theorem Trial.Met.mem_queues {t t' : Trial α} {q : Request α} {answer : q.Answer} {label : String}
    (met : t.Met q answer t') (counted : label ∈ t.world.metrics.queues) :
    label ∈ t'.world.metrics.queues := by
  cases met with
  | refused => exact counted
  | answered =>
    cases q with
    | record event => exact t.world.metrics.mem_queues_record counted event
    | book settings =>
      unfold World.reply World.answer
      dsimp only
      split <;> exact counted
    | _ => exact counted

/-! ### What cleaning leaves -/

/-- What cleaning leaves of a store, and what it answers. -/
structure Cleans (b : Broker α) (s : Store α) (w : World α (Store α)) (ids : List Int) : Prop where
  ascending : ids.Pairwise (· < ·)
  deleted : ∀ id : Int, id ∈ ids ↔
    ∃ q, s.queues[id]? = some q ∧ q.enabled = true ∧ q.jobs = ∅
  jobs : w.store.jobs = s.jobs
  lastId : w.store.lastId = s.lastId
  gone : ∀ id : Int, w.store.queues[id]? = none ↔ s.queues[id]? = none ∨ id ∈ ids
  /-- The other queues stay as they are, disabled or with jobs. In the groups that have lost a queue
  their priorities are those that a recalculation writes now; elsewhere they are as before. -/
  kept : ∀ (id : Int) (q : StoredQueue α), s.queues[id]? = some q → id ∉ ids →
    ∃ priority : α, w.store.queues[id]? = some { q with priority := priority } ∧
      (s.Loses q.definition.ownerGroup → (id, priority) ∈ w.priorities b q.definition.ownerGroup) ∧
      (¬ s.Loses q.definition.ownerGroup → priority = q.priority)
  consistent : s.Consistent → w.store.Consistent
  repeated : (w.play b.clean).1 = some (.ok [])
  unchanged : ∀ outages : List (Option Outage), ((⟨w, outages⟩ : Trial α).run b.clean).2.world = w

namespace Cleaning

variable {b : Broker α}

theorem gives_dropEach {found : List (Int × String)} (distinct : (found.map Prod.fst).Nodup)
    (t : Trial α) :
    t.Gives (Broker.dropEach found) fun t' c =>
      t.world.store.Cleared found c.1 c.2 t'.world.store := by
  induction found generalizing t with
  | nil => exact Trial.gives_pure t.world.store.cleared_nil
  | cons entry rest ih =>
    obtain ⟨id, group⟩ := entry
    obtain ⟨fresh, distinct⟩ := List.nodup_cons.1 distinct
    by_cases orphaned : ∃ q, t.world.store.queues[id]? = some q ∧ q.Orphaned
    · obtain ⟨q, found, orphaned⟩ := orphaned
      have performed := Store.perform_deleteIfEmpty found orphaned.1 orphaned.2
      refine (Trial.gives_store performed).bind ?_
      rintro t' _ ⟨rfl, same⟩
      refine (ih distinct t').bind fun t'' c cleared => Trial.gives_pure ?_
      rw [same] at cleared
      exact cleared.remove found orphaned fresh
    · have kept (q : StoredQueue α) (found : t.world.store.queues[id]? = some q) : ¬ q.Orphaned :=
        fun mine => orphaned ⟨q, found, mine⟩
      refine (Trial.gives_store (Store.perform_deleteIfEmpty_of_kept kept)).bind ?_
      rintro t' _ ⟨rfl, same⟩
      refine (ih distinct t').bind fun t'' c cleared => Trial.gives_pure ?_
      rw [same] at cleared
      exact cleared.keep fresh kept

structure Passes (b : Broker α) (s : Store α) (out : List Int) (w : World α (Store α)) : Prop where
  cleared : ∃ u groups, s.Cleared s.empties out groups u ∧
    w.store = u.setPriorities (groups.toList.flatMap (w.priorities b))
  counted : "deleted" ∈ w.metrics.queues

theorem gives_passes (inOrder : b.InOrder) (t : Trial α) :
    t.Gives b.clean fun t' ids => Passes b t.world.store ids t'.world := by
  refine (Trial.gives_store rfl).bind ?_
  rintro t₁ _ ⟨rfl, same⟩
  have distinct : (t.world.store.empties.map Prod.fst).Nodup :=
    t.world.store.ascending_empties.imp fun below => below.ne
  refine (gives_dropEach distinct t₁).bind fun t₂ (out, groups) cleared => ?_
  rw [same] at cleared
  refine (Trial.gives_record_world _).bind fun t₃ _ recorded => ?_
  have counted : "deleted" ∈ t₃.world.metrics.queues := by
    simp [recorded, Metrics.record, Counts.add]
  have stays := Trial.ends_of_within (b.still_recalculateGroups groups.toList) counted
    fun _ _ _ _ counted _ met => met.mem_queues counted
  refine ((Deletion.gives_recalculateGroups inOrder groups.toList t₃).and_ends stays).bind
    fun t₄ _ ⟨⟨kept, written⟩, counted⟩ => ?_
  refine Trial.gives_pure ⟨⟨_, groups, cleared, ?_⟩, counted⟩
  rw [written, recorded, funext kept, recorded]

/-! ### Cleaning again -/

section

variable {t : Trial α}
  (none : ∀ (id : Int) (q : StoredQueue α), t.world.store.queues[id]? = some q → ¬ q.Orphaned)
include none

theorem ends_dropEach (found : List (Int × String)) :
    t.Ends (Broker.dropEach found) fun t' r =>
      t'.world = t.world ∧ ∀ c, r = some (.ok c) → c = ([], ∅) := by
  induction found generalizing t with
  | nil =>
    refine ⟨rfl, fun c ok => ?_⟩
    cases ok
    rfl
  | cons entry rest ih =>
    obtain ⟨id, group⟩ := entry
    refine Trial.ends_store_bind (Store.perform_deleteIfEmpty_of_kept (none id))
      (fun e _ => ⟨rfl, nofun⟩) ?_
    refine (ih (t := ⟨t.world, t.outages.tail⟩) none).bind
      (fun t' r _ ended r' bad => ⟨ended.1, fun c ok => (bad c ok).elim⟩) ?_
    intro t' c ended
    cases ended.2 c rfl
    refine ⟨ended.1, fun c ok => ?_⟩
    cases ok
    rfl

theorem ends_clean (counted : "deleted" ∈ t.world.metrics.queues) :
    t.Ends b.clean fun t' r => t'.world = t.world ∧ ∀ ids, r = some (.ok ids) → ids = [] := by
  refine Trial.ends_store_bind rfl (fun e _ => ⟨rfl, nofun⟩) ?_
  refine (ends_dropEach (t := ⟨t.world, t.outages.tail⟩) none _).bind
    (fun t' r _ ended r' bad => ⟨ended.1, fun ids ok => (bad ids ok).elim⟩) ?_
  intro t₁ c ended
  cases ended.2 c rfl
  have idle := t.world.metrics.record_queuesDeleted_zero counted
  have nothing : (∅ : TextSet).toList = [] := by simp
  refine Trial.ends_ask_bind (q := .record (.queuesDeleted 0)) fun _ t₂ met => ?_
  have same : t₂.world = t.world := by
    cases met with
    | refused _ refusal => cases refusal
    | answered => simp only [World.reply, World.answer, ended.1, idle]
  rw [nothing]
  refine ⟨same, fun ids ok => ?_⟩
  cases ok
  rfl

end

namespace Passes

variable {s : Store α} {out : List Int} {w : World α (Store α)} (h : Passes b s out w)
include h

theorem not_orphaned (id : Int) (q : StoredQueue α) (found : w.store.queues[id]? = some q) :
    ¬ q.Orphaned := by
  obtain ⟨u, groups, cleared, written⟩ := h.cleared
  rw [written, Store.getElem?_queues_setPriorities, Option.map_eq_some_iff] at found
  obtain ⟨p, found, rfl⟩ := found
  rw [cleared.queues, Option.ite_none_left_eq_some] at found
  exact fun orphaned => found.1 ((cleared.mem_out id).2 ⟨p, found.2, orphaned⟩)

theorem cleans (inOrder : b.InOrder) : Cleans b s w out := by
  have again (outages : List (Option Outage)) :=
    ends_clean (b := b) (t := ⟨w, outages⟩) h.not_orphaned h.counted
  have result : (w.play b.clean).1 = some (.ok []) := by
    have calm := ((gives_passes inOrder ⟨w, []⟩).calm rfl).2
    have found := (again []).2
    rw [Trial.run_calm] at calm found
    obtain ⟨ids, ok⟩ := calm
    rw [ok, found ids ok]
  obtain ⟨u, groups, cleared, written⟩ := h.cleared
  constructor
  · exact cleared.ascending
  · exact cleared.mem_out
  · rw [written, Store.jobs_setPriorities, cleared.jobs]
  · rw [written, Store.lastId_setPriorities, cleared.lastId]
  · intro id
    rw [written, Store.getElem?_queues_setPriorities, Option.map_eq_none_iff, cleared.queues]
    grind
  · intro id q found left
    have here : u.queues[id]? = some q := by rw [cleared.queues, if_neg left, found]
    have lost : q.definition.ownerGroup ∈ groups.toList ↔ s.Loses q.definition.ownerGroup := by
      rw [Std.ExtTreeSet.mem_toList, cleared.mem_groups]
    obtain ⟨priority, now, recalculated, elsewhere⟩ :=
      w.exists_of_setPriorities inOrder written here
    exact ⟨priority, now, fun mem => recalculated (lost.2 mem),
      fun kept => elsewhere (mt lost.1 kept)⟩
  · intro consistent
    rw [written]
    exact (u.effect_perform (.setPriorities _)).consistent (cleared.consistent consistent)
  · exact result
  · exact fun outages => (again outages).1

end Passes

end Cleaning

end

variable {b : Broker Float}

/-- Whatever queues and jobs are in the store, cleaning that has a result leaves and answers what it
should, whichever calls to the sources fail; it has a result where nothing fails. -/
theorem cleans_of_validated (valid : b.Validated) (t : Trial Float) :
    t.Gives b.clean fun t' ids => Cleans b t.world.store t'.world ids := by
  have inOrder := Broker.inOrder_of_checked valid.history
  exact (Cleaning.gives_passes inOrder t).mono fun _ _ passes => passes.cleans inOrder

namespace Cleaning

/-- One queue is to be removed, another one of its group is disabled, and one of another group has a
job. -/
def world : World Float (Store Float) where
  store :=
    let definition (owner group : String) : Definition :=
      ⟨owner, group, "prod", 500, .ofFn fun _ => none⟩
    Store.replay {} [.create (definition "/CN=alice" "grid") 1 true,
      .create (definition "/CN=bob" "grid") 1 false,
      .create (definition "/CN=carol" "lab") 1 true, .addJob 3 "j1" 1 1]
  shares := { table := { defaultShare := 1 } }
  generator := .ofWords []

end Cleaning

theorem cleans_standard :
    Broker.standard.Validated ∧ Cleaning.world.store.Consistent ∧
      ((⟨Cleaning.world, []⟩ : Trial Float).run Broker.standard.clean).1.bind Except.toOption =
        some [1] ∧
      (⟨Cleaning.world, []⟩ : Trial Float).Gives Broker.standard.clean fun t ids =>
        Cleans .standard Cleaning.world.store t.world ids := by
  refine ⟨Broker.validated_standard, ?_, ?_, ?_⟩
  · exact Store.consistent_replay Store.consistent_empty _
  · decide +kernel
  · exact cleans_of_validated Broker.validated_standard ⟨Cleaning.world, []⟩

end Matchmaker
