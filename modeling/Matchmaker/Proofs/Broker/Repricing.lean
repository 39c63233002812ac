import Matchmaker.Proofs.Broker.Quiet
import Matchmaker.Proofs.Broker.Recalculation
import Matchmaker.Proofs.Concurrency.System
import Matchmaker.Proofs.Scalar.Order

/-!
The priorities that a recalculation writes: one for each queue of its group, none below the floor.
They follow from the definitions and jobs in the store, the share settings and the usage held, and
not from the priorities and flags that are there. So recalculations can be repeated, and done in any
order.
-/
namespace Matchmaker

open Operation

variable {α : Type} [Scalar α]

/-! ### Priorities that there are -/

namespace Basis

variable {d : Basis α} {b : Broker α}

omit [Scalar α] in
theorem competing?_isSome (group : String) (shares : Shares α) {others : List String}
    (known : ∀ other ∈ others, other ∈ d.book) : (d.competing? group shares others).isSome := by
  induction others generalizing shares with
  | nil => rfl
  | cons other rest ih =>
    have later : ∀ next ∈ rest, next ∈ d.book := fun next mem => known next (.tail other mem)
    unfold competing?
    split
    · exact ih shares later
    · obtain ⟨settings, found⟩ := Option.isSome_iff_exists.1
        (Std.ExtTreeMap.isSome_getElem?_iff_mem.2 (known other List.mem_cons_self))
      rw [found]
      exact ih _ later

theorem groupShare?_isSome (inOrder : b.InOrder) (covers : d.Covers) (group : String)
    (configured : α) : (d.groupShare? b group configured).isSome := by
  unfold groupShare?
  split
  · rfl
  · rename_i settings enabled
    have known : ∀ other ∈ d.groups.toList, other ∈ d.book := fun other mem =>
      covers other (Std.ExtTreeSet.mem_toList.1 mem)
    obtain ⟨expected, found⟩ := Option.isSome_iff_exists.1 (competing?_isSome group ∅ known)
    obtain ⟨corrected, computed⟩ := Option.isSome_iff_exists.1
      (Correction.corrected?_isSome (b.inOrder_of_correction? inOrder enabled)
        ((List.range settings.normalizedWindows.length).map (d.usage .groups))
        (expected.insert group configured))
    simp [found, corrected?, computed]

theorem ownerShares?_isSome (inOrder : b.InOrder) (group : String) (share : α) (owners : TextSet) :
    (d.ownerShares? b group share owners).isSome := by
  unfold ownerShares?
  rw [Option.isSome_map]
  split
  · rfl
  · rename_i settings enabled
    exact Correction.corrected?_isSome (b.inOrder_of_correction? inOrder enabled) _ _

theorem entities?_isSome (inOrder : b.InOrder) (covers : d.Covers) (group : String)
    (settings : GroupShare α) : (d.entities? b group settings).isSome := by
  obtain ⟨share, found⟩ := Option.isSome_iff_exists.1
    (groupShare?_isSome inOrder covers group settings.share)
  unfold entities?
  rw [found, Option.bind_eq_bind, Option.bind_some]
  split
  · rfl
  · split
    · rfl
    · exact ownerShares?_isSome inOrder group share _

theorem priorities?_isSome (inOrder : b.InOrder) (covers : d.Covers) {group : String}
    (known : group ∈ d.book) : (d.priorities? b group).isSome := by
  obtain ⟨settings, found⟩ := Option.isSome_iff_exists.1
    (Std.ExtTreeMap.isSome_getElem?_iff_mem.2 known)
  rw [priorities?_eq d b found, Option.isSome_map]
  exact entities?_isSome inOrder covers group settings

end Basis

/-! ### What is written -/

namespace World

variable (b : Broker α) (w : World α (Store α)) (group : String)

/-- The priorities that a recalculation of the group writes. -/
def priorities : List (Int × α) := ((w.grounds group).priorities? b group).getD []

variable {b} (inOrder : b.InOrder)

include inOrder

theorem priorities?_grounds :
    (w.grounds group).priorities? b group = some (w.priorities b group) := by
  obtain ⟨priorities, found⟩ := Option.isSome_iff_exists.1
    (Basis.priorities?_isSome inOrder (w.covers_grounds group) (w.mem_grounds group))
  rw [World.priorities, found, Option.getD_some]

theorem nodup_priorities : ((w.priorities b group).map Prod.fst).Nodup :=
  Basis.nodup_priorities (s := w.store) rfl (w.priorities?_grounds group inOrder)

theorem mem_priorities (id : Int) :
    id ∈ (w.priorities b group).map Prod.fst ↔
      ∃ q : StoredQueue α, w.store.queues[id]? = some q ∧ q.definition.ownerGroup = group :=
  Basis.mem_priorities (s := w.store) rfl rfl (w.priorities?_grounds group inOrder) id

theorem lastPriority_groups (groups : List String) {id : Int} {q : StoredQueue α}
    (found : w.store.queues[id]? = some q) (before : α) :
    Store.lastPriority id (groups.flatMap (w.priorities b)) before =
      if q.definition.ownerGroup ∈ groups then
        Store.lastPriority id (w.priorities b q.definition.ownerGroup) before
      else before := by
  induction groups generalizing before with
  | nil => rfl
  | cons group rest ih =>
    rw [List.flatMap_cons, Store.lastPriority_append, ih]
    by_cases own : group = q.definition.ownerGroup
    · have written : id ∈ (w.priorities b group).map Prod.fst :=
        (w.mem_priorities group inOrder id).2 ⟨q, found, own.symm⟩
      simp only [← own, List.mem_cons, true_or, if_true]
      split
      · exact Store.lastPriority_of_mem written _ _
      · rfl
    · have unwritten : id ∉ (w.priorities b group).map Prod.fst := by
        intro mem
        obtain ⟨q', found', own'⟩ := (w.mem_priorities group inOrder id).1 mem
        cases found.symm.trans found'
        exact own own'.symm
      simp [Store.lastPriority_of_not_mem unwritten, Ne.symm own]

theorem lastPriority_spec (groups : List String) {id : Int} {q : StoredQueue α}
    (found : w.store.queues[id]? = some q) (before : α) :
    (q.definition.ownerGroup ∈ groups →
      (id, Store.lastPriority id (groups.flatMap (w.priorities b)) before) ∈
        w.priorities b q.definition.ownerGroup) ∧
      (q.definition.ownerGroup ∉ groups →
        Store.lastPriority id (groups.flatMap (w.priorities b)) before = before) := by
  rw [w.lastPriority_groups inOrder groups found]
  refine ⟨fun among => ?_, fun elsewhere => if_neg elsewhere⟩
  rw [if_pos among]
  exact Store.lastPriority_mem ((w.mem_priorities _ inOrder id).2 ⟨q, found, rfl⟩) _

theorem exists_of_setPriorities {v : Store α} {groups : List String}
    (written : w.store = v.setPriorities (groups.flatMap (w.priorities b))) {id : Int}
    {q : StoredQueue α} (found : v.queues[id]? = some q) :
    ∃ priority : α, w.store.queues[id]? = some { q with priority := priority } ∧
      (q.definition.ownerGroup ∈ groups → (id, priority) ∈ w.priorities b q.definition.ownerGroup) ∧
      (q.definition.ownerGroup ∉ groups → priority = q.priority) := by
  have here : w.store.queues[id]? = some { q with
      priority := Store.lastPriority id (groups.flatMap (w.priorities b)) q.priority } := by
    rw [written, Store.getElem?_queues_setPriorities, found]
    rfl
  exact ⟨_, here, w.lastPriority_spec inOrder groups here q.priority⟩

/-- In which order and how often groups are recalculated does not matter. -/
theorem setPriorities_groups {groups groups' : List String}
    (same : ∀ group, group ∈ groups ↔ group ∈ groups') :
    w.store.setPriorities (groups.flatMap (w.priorities b)) =
      w.store.setPriorities (groups'.flatMap (w.priorities b)) := by
  refine Store.setPriorities_congr fun id q found => ?_
  rw [w.lastPriority_groups inOrder groups found, w.lastPriority_groups inOrder groups' found]
  simp only [same]

end World

/-! ### What the priorities depend on -/

/-- What a queue is but for its priority and flag. -/
def StoredQueue.content (q : StoredQueue α) : Definition × TextSet := (q.definition, q.jobs)

namespace Store

omit [Scalar α]

/-- The stores have the same queues with the same jobs, but for the priorities and flags of the
queues. -/
structure Alike (s t : Store α) : Prop where
  queues : ∀ id : Int, s.queues[id]?.map StoredQueue.content = t.queues[id]?.map StoredQueue.content
  jobs : s.jobs = t.jobs

namespace Alike

variable {s t : Store α} (h : s.Alike t)

include h

theorem toList : s.queues.toList.map (fun entry => (entry.1, entry.2.content)) =
    t.queues.toList.map fun entry => (entry.1, entry.2.content) := by
  have same : s.queues.map (fun _ q => q.content) = t.queues.map fun _ q => q.content :=
    Std.ExtTreeMap.ext_getElem? fun id => by
      rw [Std.ExtTreeMap.getElem?_map, Std.ExtTreeMap.getElem?_map, h.queues]
  simpa only [Std.ExtTreeMap.toList_map] using congrArg Std.ExtTreeMap.toList same

theorem groups : s.groups = t.groups := by
  have same := congrArg (List.map fun entry => entry.2.1.ownerGroup) h.toList
  simp only [List.map_map, Function.comp_def, StoredQueue.content] at same
  simp only [Store.groups, values_eq_map_snd, List.map_map, Function.comp_def, same]

theorem ownersIn (group : String) : s.ownersIn group = t.ownersIn group := by
  have same := congrArg (List.filterMap fun entry =>
    if entry.2.1.ownerGroup = group then some entry.2.1.ownerIdentity else none) h.toList
  simp only [List.filterMap_map, Function.comp_def, StoredQueue.content] at same
  simp only [Store.ownersIn, values_eq_map_snd, List.filterMap_map, Function.comp_def, same]

theorem loads [Scalar α] (group : String) (identity : Option String) :
    s.loads group identity = t.loads group identity := by
  have same := congrArg (List.filterMap fun entry =>
    if entry.2.1.ownerGroup = group && identity.all (entry.2.1.ownerIdentity = ·) then
      some (⟨entry.1, Scalar.total (t.effectives entry.2.2), entry.2.2.size⟩ : Load α)
    else none) h.toList
  simp only [List.filterMap_map, Function.comp_def, StoredQueue.content] at same
  have jobs (jobs : TextSet) : s.effectives jobs = t.effectives jobs := by
    rw [effectives, effectives, h.jobs]
  simp only [Store.loads, jobs]
  exact same

end Alike

end Store

namespace World

theorem basis_of_alike {w w' : World α (Store α)} (book : w'.book = w.book)
    (usage : w'.basis.usage = w.basis.usage) (alike : w'.store.Alike w.store) :
    w'.basis = w.basis := by
  have ownersIn : w'.store.ownersIn = w.store.ownersIn := funext alike.ownersIn
  have loads : w'.store.loads = w.store.loads := funext fun group => funext (alike.loads group)
  simp only [basis] at usage ⊢
  rw [book, usage, alike.groups, ownersIn, loads]

structure Alike (w w' : World α (Store α)) : Prop where
  store : w.store.Alike w'.store
  settings : ∀ group, w.settings group = w'.settings group
  held : ∀ grouping, (w.ledger.record grouping).held = (w'.ledger.record grouping).held

theorem Alike.grounds {w w' : World α (Store α)} (h : w.Alike w') (group : String) :
    w.grounds group = w'.grounds group := by
  have settings : w.settings = w'.settings := funext h.settings
  have ownersIn : w.store.ownersIn = w'.store.ownersIn := funext h.store.ownersIn
  have loads : w.store.loads = w'.store.loads := funext fun group => funext (h.store.loads group)
  simp only [World.grounds, World.basis, settings, h.store.groups, h.held, ownersIn, loads]

theorem Alike.priorities {w w' : World α (Store α)} (h : w.Alike w') (b : Broker α)
    (group : String) : w.priorities b group = w'.priorities b group := by
  rw [World.priorities, World.priorities, h.grounds]

end World

/-! ### Runs -/

theorem Trial.calm_run {t : Trial α} (calm : t.outages = []) {β : Type} (x : Operation α β) :
    (t.run x).2.outages = [] := by
  obtain ⟨w, outages⟩ := t
  cases calm
  rw [run_calm]

theorem World.priorities_congr {w w' : World α (Store α)} (basis : w'.basis = w.basis)
    (shares : w'.shares = w.shares) (b : Broker α) (group : String) :
    w'.priorities b group = w.priorities b group := by
  have book : w'.book = w.book := congrArg Basis.book basis
  have groups : w'.store.groups = w.store.groups := congrArg Basis.groups basis
  have settings : w'.settings = w.settings := by
    funext group
    rw [World.settings, World.settings, book, shares]
  rw [World.priorities, World.priorities, World.grounds, World.grounds, basis, groups, settings]

namespace Broker

variable {b : Broker α} (inOrder : b.InOrder)

include inOrder

theorem writes_priorities (group : String) (t : Trial α) :
    t.Ends (b.recalculate group) (Writes.Post t (some (t.world.priorities b group))) := by
  rw [← t.world.priorities?_grounds group inOrder]
  exact b.writes_recalculate (t.world.covers_grounds group) (t.world.mem_grounds group) t
    (t.world.affords_grounds group)

omit inOrder in
/-- A recalculation of several groups has recalculated the first of them, and all if it has a
result. -/
structure GroupsBegun (b : Broker α) (groups done : List String) (t t' : Trial α) (r : Ending Unit) :
    Prop where
  first : done <+: groups
  basis : t'.world.basis = t.world.basis
  shares : t'.world.shares = t.world.shares
  store : t'.world.store = t.world.store.setPriorities (done.flatMap (t.world.priorities b))
  whole : r = some (.ok ()) → done = groups
  calm : t.outages = [] → t'.outages = [] ∧ r = some (.ok ())

theorem begins_recalculateGroups (groups : List String) (t : Trial α) :
    t.Ends (b.recalculateGroups groups) fun t' r => ∃ done, b.GroupsBegun groups done t t' r := by
  induction groups generalizing t with
  | nil => exact ⟨[], List.prefix_rfl, rfl, rfl, rfl, fun _ => rfl, fun calm => ⟨calm, rfl⟩⟩
  | cons group rest ih =>
    have first : t.Ends (b.recalculate group) fun t' r =>
        Writes.Post t (some (t.world.priorities b group)) t' r ∧
          (t.outages = [] → t'.outages = []) :=
      ⟨writes_priorities inOrder group t, fun calm => Trial.calm_run calm _⟩
    refine first.bind (fun t' r bad wrote r' bad' => ?_) fun t' n wrote => ?_
    · refine ⟨[], List.nil_prefix, wrote.1.basis, wrote.1.shares, wrote.1.failed bad,
        fun ok => (bad' () ok).elim, fun calm => ?_⟩
      obtain ⟨n, ok⟩ := wrote.1.calm calm _ rfl
      exact (bad n ok).elim
    · obtain ⟨wrote, stays⟩ := wrote
      refine (ih t').mono fun t'' r ⟨done, others⟩ => ⟨group :: done, ?_⟩
      obtain ⟨written, same, store⟩ := wrote.done n rfl
      cases same
      have same : t'.world.priorities b = t.world.priorities b :=
        funext (World.priorities_congr wrote.basis wrote.shares b)
      refine ⟨List.cons_prefix_cons.2 ⟨rfl, others.first⟩, others.basis.trans wrote.basis,
        others.shares.trans wrote.shares, ?_, fun ok => by rw [others.whole ok],
        fun calm => others.calm (stays calm)⟩
      rw [others.store, store, same, ← Store.setPriorities_append]
      rfl

omit inOrder in
structure GroupsWritten (b : Broker α) (groups : List String) (t t' : Trial α) (r : Ending Unit) :
    Prop where
  basis : t'.world.basis = t.world.basis
  shares : t'.world.shares = t.world.shares
  done : r = some (.ok ()) → t'.world.store =
    t.world.store.setPriorities (groups.flatMap (t.world.priorities b))
  calm : t.outages = [] → t'.outages = [] ∧ r = some (.ok ())

theorem writes_recalculateGroups (groups : List String) (t : Trial α) :
    t.Ends (b.recalculateGroups groups) (b.GroupsWritten groups t) :=
  (begins_recalculateGroups inOrder groups t).mono fun _ _ ⟨_, begun⟩ =>
    ⟨begun.basis, begun.shares, fun ok => begun.whole ok ▸ begun.store, begun.calm⟩

theorem writes_recalculateAll {t : Trial α} (calm : t.outages = []) :
    t.Ends b.recalculateAll fun t' r =>
      t'.world.store = t.world.store.setPriorities
          (t.world.store.groups.toList.flatMap (t.world.priorities b)) ∧
        ∃ n, r = some (.ok n) := by
  have still : t.outages.tail = [] := by rw [calm, List.tail_nil]
  refine Trial.ends_store_bind rfl (fun e out => (out calm).elim) ?_
  refine (writes_recalculateGroups inOrder _ ⟨t.world, t.outages.tail⟩).bind
    (fun t' r bad wrote => ?_) fun t' n wrote => ⟨wrote.done rfl, _, rfl⟩
  exact (bad _ (wrote.calm still).2).elim

end Broker

theorem World.play_recalculate {b : Broker α} (inOrder : b.InOrder) (w : World α (Store α))
    (group : String) :
    ∃ n w', w.play (b.recalculate group) = (some (.ok n), w') ∧
      w'.store = w.store.setPriorities (w.priorities b group) ∧
        ∀ group, w'.priorities b group = w.priorities b group := by
  have wrote := Broker.writes_priorities inOrder group ⟨w, []⟩
  rw [Trial.Ends, Trial.run_calm] at wrote
  obtain ⟨n, ok⟩ := wrote.calm rfl _ rfl
  obtain ⟨written, same, store⟩ := wrote.done n ok
  cases same
  exact ⟨n, _, Prod.ext ok rfl, store, World.priorities_congr wrote.basis wrote.shares b⟩

def Repricing.world : World Float (Store Float) where
  store :=
    let definition (owner : String) : Definition := ⟨owner, "grid", "prod", 500, .ofFn fun _ => none⟩
    Store.replay {} [.create (definition "/CN=alice") 1 true, .addJob 1 "j1" 1 1,
      .create (definition "/CN=bob") 1 false, .addJob 2 "j2" 3 3]
  shares := { table := { defaultShare := 1 } }
  generator := .ofWords []

end Matchmaker
