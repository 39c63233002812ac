import Matchmaker.Broker.Recalculation
import Matchmaker.Broker.World
import Matchmaker.Proofs.Store.Priorities
import Matchmaker.Proofs.Usage.Correction
import Mathlib.Data.List.Nodup

/-!
What a recalculation goes by, and the priorities that follow from it: one for each queue of the
group, and none that was there before counts.
-/
namespace Matchmaker

namespace UsageLedger

variable {α : Type}

@[simp] theorem record_setRecord_self (l : UsageLedger α) (r : UsageRecord α) (g : Grouping) :
    (l.setRecord r g).record g = r := by
  cases g <;> simp [setRecord, record]

theorem record_setRecord_of_ne (l : UsageLedger α) (r : UsageRecord α) {g g' : Grouping}
    (h : g ≠ g') : (l.setRecord r g).record g' = l.record g' := by
  cases g <;> cases g' <;> simp_all [setRecord, record, Std.ExtTreeMap.getD_insert]

@[simp] theorem record_register (l : UsageLedger α) (g g' : Grouping) :
    (l.register g).record g' = l.record g' := by
  by_cases h : g = g'
  · rw [h, register, record_setRecord_self]
  · exact l.record_setRecord_of_ne _ h

end UsageLedger

theorem TextSet.nodup_toList (keys : TextSet) : keys.toList.Nodup := by
  have distinct : keys.toList.Pairwise fun a b => ¬ compare a b = .eq :=
    Std.ExtTreeSet.distinct_toList
  exact distinct.imp fun apart same => apart (by simp [same])

theorem TextSet.getElem?_ofList {β : Type} (keys : TextSet) (f : String → β) (key : String) :
    (Std.ExtTreeMap.ofList (keys.toList.map fun k => (k, f k)))[key]? =
      if key ∈ keys then some (f key) else none := by
  by_cases mem : key ∈ keys
  · have listed : (key, f key) ∈ keys.toList.map fun k => (k, f k) :=
      List.mem_map_of_mem (Std.ExtTreeSet.mem_toList.2 mem)
    have distinct : (keys.toList.map fun k => (k, f k)).Pairwise
        fun a b => ¬ compare a.1 b.1 = .eq :=
      List.pairwise_map.2 (Std.ExtTreeSet.distinct_toList (t := keys))
    rw [if_pos mem]
    exact Std.ExtTreeMap.getElem?_ofList_of_mem Std.ReflCmp.compare_self distinct listed
  · rw [if_neg mem]
    refine Std.ExtTreeMap.getElem?_ofList_of_contains_eq_false ?_
    simpa [Function.comp_def] using mem

theorem TextSet.toList_ofList {β : Type} (keys : TextSet) (f : String → β) :
    (Std.ExtTreeMap.ofList (keys.toList.map fun k => (k, f k))).toList =
      keys.toList.map fun k => (k, f k) := by
  have listed : keys.toList.Pairwise fun a b => compare a b = .lt := Std.ExtTreeSet.ordered_toList
  have ordered : (keys.toList.map fun k => (k, f k)).Pairwise fun a b => compare a.1 b.1 = .lt :=
    List.pairwise_map.2 listed
  have distinct {entries : List (String × β)}
      (h : entries.Pairwise fun a b => compare a.1 b.1 = .lt) : entries.Nodup := by
    refine h.imp fun {a b} below same => ?_
    simp [same] at below
  refine List.Perm.eq_of_pairwise (fun a b _ _ below above => ?_)
    Std.ExtTreeMap.ordered_keys_toList ordered ?_
  · have reversed : compare a.1 b.1 = (compare b.1 a.1).swap := Std.OrientedCmp.eq_swap
    rw [reversed, above] at below
    cases below
  · refine (List.perm_ext_iff_of_nodup (distinct Std.ExtTreeMap.ordered_keys_toList)
      (distinct ordered)).2 fun entry => ?_
    rw [Std.ExtTreeMap.mem_toList_iff_getElem?_eq_some, getElem?_ofList, List.mem_map]
    simp only [Std.ExtTreeSet.mem_toList]
    grind

theorem Shares.mem_identities {α : Type} {shares : Shares α} {identity : Option String} :
    identity ∈ (shares.toList.map fun (owner, share) => (some owner, share)).map Prod.fst ↔
      ∃ owner ∈ shares, identity = some owner := by
  have listed (owner : String) : owner ∈ shares.toList.map Prod.fst ↔ owner ∈ shares := by
    rw [Std.ExtTreeMap.map_fst_toList_eq_keys, Std.ExtTreeMap.mem_keys]
  simp only [← listed, List.map_map, List.mem_map, Function.comp_apply]
  grind

/-- What a recalculation goes by. -/
structure Basis (α : Type) where
  book : ShareBook α
  /-- What is held of a grouping, window by window. -/
  usage : Grouping → Nat → Option (Usage α)
  groups : TextSet
  ownersIn : String → TextSet
  loads : String → Option String → List (Load α)

namespace Basis

variable {α : Type} [Scalar α] (d : Basis α)

def Covers : Prop := ∀ group ∈ d.groups, group ∈ d.book

def corrected? (settings : HistorySettings α) (grouping : Grouping) (expected : Shares α) :
    Option (Shares α) :=
  let windows := settings.normalizedWindows.length
  Correction.corrected? settings ((List.range windows).map (d.usage grouping)) expected

def competing? (group : String) : Shares α → List String → Option (Shares α)
  | shares, [] => some shares
  | shares, other :: rest =>
    if other = group then competing? group shares rest
    else do
      let settings ← d.book[other]?
      competing? group (shares.insert other settings.share) rest

variable (b : Broker α)

def groupShare? (group : String) (configured : α) : Option α :=
  match b.correction? with
  | none => some configured
  | some settings => do
    let expected ← d.competing? group ∅ d.groups.toList
    let corrected ← d.corrected? settings .groups (expected.insert group configured)
    some (corrected.getD group configured)

def ownerShares? (group : String) (share : α) (owners : TextSet) :
    Option (List (Option String × α)) :=
  let part := share / Scalar.ofInt owners.size
  let expected : Shares α := .ofList (owners.toList.map (·, part))
  let corrected := match b.correction? with
    | none => some expected
    | some settings => d.corrected? settings (.identitiesIn group) expected
  corrected.map fun shares => shares.toList.map fun (owner, share) => (some owner, share)

def slices (group : String) (threshold : Option α) (entities : List (Option String × α)) :
    List (Int × α) :=
  entities.flatMap fun (identity, share) =>
    splitShare (d.loads group identity) share threshold b.policy.minShare

/-- The priorities of the queues of a group; there are none where the book does not have all groups,
or a bound of the correction is out of order. -/
def priorities? (group : String) : Option (List (Int × α)) := do
  let settings ← d.book[group]?
  let share ← d.groupShare? b group settings.share
  let threshold := if settings.allowsBackground then some b.policy.backgroundThreshold else none
  if settings.pooled then some (d.slices b group threshold [(none, share)])
  else if (d.ownersIn group).isEmpty then some []
  else do
    let entities ← d.ownerShares? b group share (d.ownersIn group)
    some (d.slices b group threshold entities)

theorem mem_ownerShares? {group : String} {share : α} {owners : TextSet}
    {entities : List (Option String × α)} (h : d.ownerShares? b group share owners = some entities)
    (identity : Option String) :
    identity ∈ entities.map Prod.fst ↔ ∃ owner ∈ owners, identity = some owner := by
  obtain ⟨shares, corrected, rfl⟩ := Option.map_eq_some_iff.1 h
  have keys (owner : String) : owner ∈ shares ↔ owner ∈ owners := by
    split at corrected
    · cases corrected
      simp [Std.ExtTreeMap.mem_ofList]
    · rw [Correction.mem_corrected? corrected]
      simp [Std.ExtTreeMap.mem_ofList]
  simp only [Shares.mem_identities, keys]

theorem nodup_ownerShares? {group : String} {share : α} {owners : TextSet}
    {entities : List (Option String × α)}
    (h : d.ownerShares? b group share owners = some entities) :
    (entities.map Prod.fst).Nodup := by
  obtain ⟨shares, -, rfl⟩ := Option.map_eq_some_iff.1 h
  rw [List.map_map]
  have distinct : shares.toList.Pairwise fun a b => ¬ compare a.1 b.1 = .eq :=
    Std.ExtTreeMap.distinct_keys_toList
  exact List.pairwise_map.2 (distinct.imp fun apart same => apart (by simpa using same))

theorem length_ownerShares? {group : String} {share : α} {owners : TextSet}
    {entities : List (Option String × α)}
    (h : d.ownerShares? b group share owners = some entities) : entities.length = owners.size := by
  have perm : (entities.map Prod.fst).Perm (owners.toList.map some) :=
    (List.perm_ext_iff_of_nodup (d.nodup_ownerShares? b h)
      (owners.nodup_toList.map fun _ _ => Option.some.inj)).2 fun identity => by
      rw [d.mem_ownerShares? b h, List.mem_map]
      simp only [Std.ExtTreeSet.mem_toList, eq_comm]
  simpa using perm.length_eq

/-! ### Entities -/

/-- The entities among which a group is split, with their shares: the group as a whole, or each of its
identities. -/
def entities? (group : String) (settings : GroupShare α) : Option (List (Option String × α)) := do
  let share ← d.groupShare? b group settings.share
  if settings.pooled then some [(none, share)]
  else if (d.ownersIn group).isEmpty then some []
  else d.ownerShares? b group share (d.ownersIn group)

def threshold? (settings : GroupShare α) : Option α :=
  if settings.allowsBackground then some b.policy.backgroundThreshold else none

theorem priorities?_eq {group : String} {settings : GroupShare α}
    (known : d.book[group]? = some settings) :
    d.priorities? b group =
      (d.entities? b group settings).map (d.slices b group (threshold? b settings)) := by
  unfold priorities? entities? threshold?
  simp only [known, Option.bind_eq_bind, Option.bind_some]
  cases d.groupShare? b group settings.share with
  | none => rfl
  | some share =>
    simp only [Option.bind_some]
    split
    · rfl
    · split
      · rfl
      · cases d.ownerShares? b group share (d.ownersIn group) <;> rfl

omit [Scalar α] in
theorem competing?_congr {d d' : Basis α} (book : d.book = d'.book) (group : String)
    (shares : Shares α) (others : List String) :
    d.competing? group shares others = d'.competing? group shares others := by
  induction others generalizing shares with
  | nil => rfl
  | cons other rest ih =>
    unfold competing?
    simp only [book, ih]

theorem entities?_congr {d d' : Basis α} (book : d.book = d'.book) (usage : d.usage = d'.usage)
    (groups : d.groups = d'.groups) (ownersIn : d.ownersIn = d'.ownersIn) (group : String)
    (settings : GroupShare α) :
    d.entities? b group settings = d'.entities? b group settings := by
  unfold entities? groupShare? ownerShares? corrected?
  simp only [competing?_congr book, usage, groups, ownersIn]

inductive Entities (d : Basis α) (group : String) : List (Option String × α) → Prop where
  | whole (share : α) : Entities d group [(none, share)]
  | split {entities : List (Option String × α)} (nodup : (entities.map Prod.fst).Nodup)
      (owners : ∀ identity, identity ∈ entities.map Prod.fst ↔
        ∃ owner ∈ d.ownersIn group, identity = some owner) : Entities d group entities

variable {d b}

theorem entities_of_entities? {group : String} {settings : GroupShare α}
    {entities : List (Option String × α)} (h : d.entities? b group settings = some entities) :
    d.Entities group entities := by
  obtain ⟨share, -, h⟩ := Option.bind_eq_some_iff.1 h
  split at h
  · cases h
    exact .whole share
  · split at h
    · rename_i empty
      cases h
      refine .split List.nodup_nil fun identity => ⟨nofun, ?_⟩
      rintro ⟨owner, mem, -⟩
      rw [Std.ExtTreeSet.isEmpty_iff.1 empty] at mem
      exact (Std.ExtTreeSet.not_mem_empty mem).elim
    · exact .split (d.nodup_ownerShares? b h) (d.mem_ownerShares? b h)

/-! ### Slices -/

theorem fst_slices (group : String) (threshold : Option α) (entities : List (Option String × α)) :
    (d.slices b group threshold entities).map Prod.fst =
      (entities.map Prod.fst).flatMap fun identity => (d.loads group identity).map Load.queue := by
  simp [slices, splitShare, List.map_flatMap, List.flatMap_map, Function.comp_def]

section Store

variable {s : Store α} {group : String}

theorem mem_slices (ownersIn : d.ownersIn = s.ownersIn) (loads : d.loads = s.loads)
    {threshold : Option α} {entities : List (Option String × α)} (h : d.Entities group entities)
    (id : Int) :
    id ∈ (d.slices b group threshold entities).map Prod.fst ↔
      ∃ q : StoredQueue α, s.queues[id]? = some q ∧ q.definition.ownerGroup = group := by
  simp only [fst_slices, List.mem_flatMap, loads, Store.mem_loads]
  cases h with
  | whole share => simp
  | split nodup owners =>
    simp only [owners, ownersIn, Store.mem_ownersIn]
    constructor
    · rintro ⟨_, ⟨owner, -, rfl⟩, q, found, own, -⟩
      exact ⟨q, found, own⟩
    · rintro ⟨q, found, own⟩
      exact ⟨_, ⟨_, ⟨id, q, found, own, rfl⟩, rfl⟩, q, found, own, by simp⟩

theorem nodup_slices (loads : d.loads = s.loads) {threshold : Option α}
    {entities : List (Option String × α)} (h : d.Entities group entities) :
    ((d.slices b group threshold entities).map Prod.fst).Nodup := by
  rw [fst_slices, loads]
  cases h with
  | whole share => simpa using s.nodup_loads group none
  | split nodup owners =>
    refine List.nodup_flatMap.2 ⟨fun identity _ => s.nodup_loads group identity, ?_⟩
    refine nodup.imp_of_mem fun {identity identity'} mem mem' apart => ?_
    obtain ⟨owner, -, rfl⟩ := (owners identity).1 mem
    obtain ⟨owner', -, rfl⟩ := (owners identity').1 mem'
    exact s.disjoint_loads group fun same => apart (congrArg some same)

theorem mem_priorities (ownersIn : d.ownersIn = s.ownersIn) (loads : d.loads = s.loads)
    {priorities : List (Int × α)} (h : d.priorities? b group = some priorities) (id : Int) :
    id ∈ priorities.map Prod.fst ↔
      ∃ q : StoredQueue α, s.queues[id]? = some q ∧ q.definition.ownerGroup = group := by
  obtain ⟨settings, known, -⟩ := Option.bind_eq_some_iff.1 h
  rw [priorities?_eq d b known] at h
  obtain ⟨entities, found, rfl⟩ := Option.map_eq_some_iff.1 h
  exact mem_slices ownersIn loads (entities_of_entities? found) id

theorem nodup_priorities (loads : d.loads = s.loads) {priorities : List (Int × α)}
    (h : d.priorities? b group = some priorities) : (priorities.map Prod.fst).Nodup := by
  obtain ⟨settings, known, -⟩ := Option.bind_eq_some_iff.1 h
  rw [priorities?_eq d b known] at h
  obtain ⟨entities, found, rfl⟩ := Option.map_eq_some_iff.1 h
  exact nodup_slices loads (entities_of_entities? found)

end Store

end Basis

namespace World

variable {α : Type} [Scalar α]

def basis (w : World α (Store α)) : Basis α where
  book := w.book
  usage grouping i := (w.ledger.record grouping).held[i]?.join
  groups := w.store.groups
  ownersIn := w.store.ownersIn
  loads := w.store.loads

theorem corrected?_basis (w : World α (Store α)) (settings : HistorySettings α)
    (grouping : Grouping) (expected : Shares α) :
    w.basis.corrected? settings grouping expected =
      Correction.corrected? settings (w.ledger.record grouping).held expected := by
  refine Correction.corrected?_congr (fun i short => ?_) expected
  simp [short, basis]

theorem mem_priorities? {w : World α (Store α)} {b : Broker α} {group : String}
    {priorities : List (Int × α)} (h : w.basis.priorities? b group = some priorities) (id : Int) :
    id ∈ priorities.map Prod.fst ↔
      ∃ q : StoredQueue α, w.store.queues[id]? = some q ∧ q.definition.ownerGroup = group :=
  Basis.mem_priorities rfl rfl h id

@[simp] theorem basis_setPriorities (w : World α (Store α)) (priorities : List (Int × α)) :
    basis { w with store := w.store.setPriorities priorities } = w.basis := by
  have owners : (w.store.setPriorities priorities).ownersIn = w.store.ownersIn :=
    funext fun group => w.store.ownersIn_setPriorities priorities group
  have loads : (w.store.setPriorities priorities).loads = w.store.loads :=
    funext fun group => funext fun identity => w.store.loads_setPriorities priorities group identity
  simp [basis, owners, loads]

theorem basis_congr {w w' : World α (Store α)} (book : w'.book = w.book)
    (usage : w'.basis.usage = w.basis.usage) (s : Store α) :
    basis { w' with store := s } = basis { w with store := s } := by
  simp only [basis] at usage ⊢
  rw [book, usage]

/-! ### Settings that are not in the book -/

def settings (w : World α (Store α)) (group : String) : GroupShare α :=
  w.book[group]?.getD (w.shares.table.settings group)

/-- A recalculation in the world finds what the basis says, wherever it finds the settings. -/
structure Affords (w : World α (Store α)) (d : Basis α) : Prop where
  settings : ∀ (group : String) (settings : GroupShare α), d.book[group]? = some settings →
    w.settings group = settings
  usage : w.basis.usage = d.usage
  groups : w.store.groups = d.groups
  ownersIn : w.store.ownersIn = d.ownersIn
  loads : w.store.loads = d.loads

theorem affords_basis (w : World α (Store α)) : w.Affords w.basis := by
  refine ⟨fun group settings known => ?_, rfl, rfl, rfl, rfl⟩
  change w.book[group]? = some settings at known
  rw [World.settings, known]
  rfl

theorem Affords.congr {w w' : World α (Store α)} {d : Basis α} (h : w.Affords d)
    (basis : w'.basis = w.basis) (shares : w'.shares = w.shares) : w'.Affords d := by
  have book : w'.book = w.book := congrArg Basis.book basis
  refine ⟨fun group settings known => ?_, ?_, ?_, ?_, ?_⟩
  · rw [World.settings, book, shares]
    exact h.settings group settings known
  · rw [basis, h.usage]
  · exact (congrArg Basis.groups basis).trans h.groups
  · exact (congrArg Basis.ownersIn basis).trans h.ownersIn
  · exact (congrArg Basis.loads basis).trans h.loads

/-- The basis of a recalculation of a group, with the settings of it and of all groups with queues
in the book. -/
def grounds (w : World α (Store α)) (group : String) : Basis α :=
  { w.basis with
    book := .ofList ((w.store.groups.insert group).toList.map fun other => (other, w.settings other)) }

theorem getElem?_grounds (w : World α (Store α)) (group other : String) :
    (w.grounds group).book[other]? =
      if other ∈ w.store.groups.insert group then some (w.settings other) else none :=
  TextSet.getElem?_ofList _ _ _

theorem affords_grounds (w : World α (Store α)) (group : String) : w.Affords (w.grounds group) := by
  refine ⟨fun other settings known => ?_, rfl, rfl, rfl, rfl⟩
  rw [getElem?_grounds] at known
  split at known
  · exact Option.some.inj known
  · cases known

theorem covers_grounds (w : World α (Store α)) (group : String) : (w.grounds group).Covers := by
  intro other mem
  have among : other ∈ w.store.groups.insert group := Std.ExtTreeSet.mem_insert.2 (.inr mem)
  rw [Std.ExtTreeMap.mem_iff_isSome_getElem?, getElem?_grounds, if_pos among]
  rfl

theorem mem_grounds (w : World α (Store α)) (group : String) : group ∈ (w.grounds group).book := by
  have among : group ∈ w.store.groups.insert group := by simp
  rw [Std.ExtTreeMap.mem_iff_isSome_getElem?, getElem?_grounds, if_pos among]
  rfl

end World

end Matchmaker
