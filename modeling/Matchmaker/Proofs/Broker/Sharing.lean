import Matchmaker.Proofs.Broker.Repricing
import Matchmaker.Proofs.Broker.Tidiness
import Matchmaker.Proofs.Broker.Weights
import Matchmaker.Proofs.Usage.Bounds
import Mathlib.Algebra.BigOperators.Ring.List
import Mathlib.Tactic.Ring

/-!
Where the share of a group goes, over the exact rationals. Before the floor, what an entity is given
is split without loss over its queues that compete. Without correction the entities are given all of
the share of the group; each level of correction moves it by at most the overall bound.
-/
namespace Matchmaker

/-! ### Weights -/

theorem PriorityBounds.effective?_pos {bounds : PriorityBounds ℚ} (valid : bounds.isValid = true)
    {submitted : Int} {effective : ℚ} (h : bounds.effective? submitted = some effective) :
    0 < effective := by
  have positive : 0 < bounds.min := by
    simp only [isValid, Bool.and_eq_true, decide_eq_true_eq, Rational.zero] at valid
    exact valid.1.2
  obtain ⟨clamped, -, rfl⟩ := Option.map_eq_some_iff.1 h
  split
  · norm_num [lowest]
  · split
    · norm_num [highest]
    · rename_i above _
      exact positive.trans (not_le.1 above)

namespace Store

variable {s : Store ℚ}

/-- Every queue has something to be split by. -/
def Weighty (s : Store ℚ) : Prop :=
  ∀ (group : String) (identity : Option String), ∀ l ∈ s.loads group identity, 0 < l.sum

theorem weighty_of_weighed {bounds : PriorityBounds ℚ} (weighed : s.Weighed bounds)
    (valid : bounds.isValid = true) (consistent : s.Consistent) (tidy : s.Tidy) : s.Weighty := by
  intro group identity l mem
  obtain ⟨id, q, found, -, -, rfl⟩ := mem_loads_iff.1 mem
  change 0 < Scalar.total (s.effectives q.jobs)
  rw [Rational.total]
  refine List.sum_pos _ (fun effective mem => ?_) ?_
  · obtain ⟨job, -, record, stored, rfl⟩ := mem_effectives.1 mem
    exact PriorityBounds.effective?_pos valid (weighed job record stored)
  · obtain ⟨job, member⟩ := TextSet.exists_mem (tidy.filled id q found)
    obtain ⟨record, stored, -⟩ := (consistent.member id job).1 ⟨q, found, member⟩
    exact List.ne_nil_of_mem (mem_effectives.2 ⟨job, member, record, stored, rfl⟩)

end Store

/-! ### Corrected shares -/

namespace Basis

open Correction

variable {d : Basis ℚ} {b : Broker ℚ} {settings : HistorySettings ℚ} {group : String}
  {entities : List (Option String × ℚ)}

theorem near_groupShare? (enabled : b.correction? = some settings)
    (large : 1 ≤ settings.maxCorrection) {configured share : ℚ} (nonneg : 0 ≤ configured)
    (h : d.groupShare? b group configured = some share) :
    Near settings.maxCorrection configured share := by
  unfold groupShare? at h
  rw [enabled] at h
  obtain ⟨expected, -, h⟩ := Option.bind_eq_some_iff.1 h
  obtain ⟨corrected, computed, same⟩ := Option.bind_eq_some_iff.1 h
  cases same
  obtain ⟨y, found, near⟩ := near_corrected? large computed
    Std.ExtTreeMap.getElem?_insert_self nonneg
  rwa [Std.ExtTreeMap.getD_eq_getD_getElem?, found]

theorem near_ownerShares? (enabled : b.correction? = some settings)
    (large : 1 ≤ settings.maxCorrection) {share : ℚ} {owners : TextSet} (owned : owners.size ≠ 0)
    (nonneg : 0 ≤ share) (h : d.ownerShares? b group share owners = some entities) :
    Near settings.maxCorrection share (entities.map Prod.snd).sum := by
  have count : (entities.map Prod.snd).length = owners.size := by
    rw [List.length_map, d.length_ownerShares? b h]
  unfold ownerShares? at h
  rw [enabled] at h
  obtain ⟨shares, corrected, rfl⟩ := Option.map_eq_some_iff.1 h
  have each : ∀ y ∈ (shares.toList.map fun entry => (some entry.1, entry.2)).map Prod.snd,
      Near settings.maxCorrection (share / owners.size) y := by
    intro y mem
    simp only [List.map_map, List.mem_map, Function.comp_apply] at mem
    obtain ⟨⟨owner, y⟩, listed, rfl⟩ := mem
    have found := Std.ExtTreeMap.mem_toList_iff_getElem?_eq_some.1 listed
    have among : owner ∈ owners := by
      have present : owner ∈ shares := Std.ExtTreeMap.mem_iff_isSome_getElem?.2 (by simp [found])
      rw [mem_corrected? corrected] at present
      simpa [Std.ExtTreeMap.mem_ofList] using present
    have part := div_nonneg nonneg (Nat.cast_nonneg (α := ℚ) owners.size)
    obtain ⟨y', found', near⟩ := near_corrected? large corrected
      (TextSet.getElem?_ofList owners (fun _ => share / owners.size) owner |>.trans (if_pos among))
      part
    cases found.symm.trans found'
    exact near
  have whole := Near.sum each
  rwa [count, mul_div_cancel₀ share (Nat.cast_ne_zero.2 owned)] at whole

theorem near_entities? (enabled : b.correction? = some settings)
    (large : 1 ≤ settings.maxCorrection) {g : GroupShare ℚ} (nonneg : 0 ≤ g.share)
    (owned : (d.ownersIn group).size ≠ 0) (h : d.entities? b group g = some entities) :
    Near (if g.pooled then settings.maxCorrection else settings.maxCorrection ^ 2) g.share
      (entities.map Prod.snd).sum := by
  obtain ⟨share, moved, h⟩ := Option.bind_eq_some_iff.1 h
  have first := near_groupShare? enabled large nonneg moved
  split at h
  · rename_i pooled
    cases h
    simpa [pooled] using first
  · rename_i split
    rw [if_neg split]
    split at h
    · rename_i empty
      rw [Std.ExtTreeSet.isEmpty_iff, Std.ExtTreeSet.eq_empty_iff_size_eq_zero] at empty
      exact (owned empty).elim
    · -- Moved once with the group, and once more with its owner.
      exact first.trans large (near_ownerShares? enabled large owned (first.nonneg large nonneg) h)

theorem entities?_of_uncorrected (disabled : b.correction? = none) (g : GroupShare ℚ) :
    d.entities? b group g =
      some (if g.pooled then [(none, g.share)]
        else (d.ownersIn group).toList.map fun owner =>
          (some owner, g.share / (d.ownersIn group).size)) := by
  have share : d.groupShare? b group g.share = some g.share := by
    rw [groupShare?, disabled]
  unfold entities?
  rw [share, Option.bind_eq_bind, Option.bind_some]
  split
  · rfl
  · split
    · rename_i empty
      simp [Std.ExtTreeSet.isEmpty_iff.1 empty]
    · unfold ownerShares?
      rw [disabled, Option.map_some, TextSet.toList_ofList, List.map_map]
      rfl

end Basis

/-! ### Entities and their parts -/

namespace World

variable {α : Type} [Scalar α] (b : Broker α) (w : World α (Store α)) (group : String)

/-- The entities among which a recalculation splits the group, with their shares. -/
def entities : List (Option String × α) :=
  ((w.grounds group).entities? b group (w.settings group)).getD []

def threshold : Option α := Basis.threshold? b (w.settings group)

/-- The queues of an entity that compete: those that do not run in the background. -/
def competing (identity : Option String) : List (Load α) :=
  (w.store.loads group identity).filter fun l => !isBackground (w.threshold b group) l

def part (entity : Option String × α) (l : Load α) : α :=
  entity.2 * l.sum / Scalar.total ((w.competing b group entity.1).map Load.sum)

variable {b}

theorem entities?_grounds (inOrder : b.InOrder) :
    (w.grounds group).entities? b group (w.settings group) = some (w.entities b group) := by
  obtain ⟨entities, found⟩ := Option.isSome_iff_exists.1
    (Basis.entities?_isSome inOrder (w.covers_grounds group) group (w.settings group))
  rw [World.entities, found, Option.getD_some]

theorem priorities_eq (inOrder : b.InOrder) : w.priorities b group =
    (w.grounds group).slices b group (w.threshold b group) (w.entities b group) := by
  have known : (w.grounds group).book[group]? = some (w.settings group) := by
    rw [getElem?_grounds, if_pos (by simp)]
  rw [World.priorities, Basis.priorities?_eq _ b known, w.entities?_grounds group inOrder]
  rfl

end World

namespace World

variable {b : Broker ℚ} {w : World ℚ (Store ℚ)} {group : String} (weighty : w.store.Weighty)

include weighty

theorem total_pos {identity : Option String} (some : w.competing b group identity ≠ []) :
    0 < Scalar.total ((w.competing b group identity).map Load.sum) := by
  rw [Rational.total]
  refine List.sum_pos _ (fun sum mem => ?_) (by simpa using some)
  obtain ⟨l, competes, rfl⟩ := List.mem_map.1 mem
  exact weighty group identity l (List.mem_filter.1 competes).1

/-- Nothing is lost between an entity and its queues. -/
theorem sum_part (entity : Option String × ℚ) (some : w.competing b group entity.1 ≠ []) :
    ((w.competing b group entity.1).map (w.part b group entity)).sum = entity.2 := by
  have pos := total_pos weighty some
  unfold part
  rw [Rational.total] at pos ⊢
  generalize w.competing b group entity.1 = loads at pos ⊢
  simp only [mul_div_right_comm]
  rw [List.sum_map_mul_left, div_mul_cancel₀ _ pos.ne']

theorem slice_eq {entity : Option String × ℚ} {l : Load ℚ}
    (mem : l ∈ w.store.loads group entity.1) :
    slice entity.2 (competingTotal (w.threshold b group) (w.store.loads group entity.1))
        b.policy.minShare (w.threshold b group) l =
      if isBackground (w.threshold b group) l then b.policy.minShare
      else max (w.part b group entity l) b.policy.minShare := by
  unfold slice
  by_cases background : isBackground (w.threshold b group) l
  · simp [background]
  · have competes : l ∈ w.competing b group entity.1 :=
      List.mem_filter.2 ⟨mem, by simpa using background⟩
    have pos := total_pos weighty (List.ne_nil_of_mem competes)
    change 0 < competingTotal (w.threshold b group) (w.store.loads group entity.1) at pos
    rw [if_neg (by simp [background, pos]), if_neg background, Rational.larger]
    rfl

end World

/-! ### Recalculations -/

theorem Store.loads_subset (s : Store ℚ) (group : String) (identity : Option String) :
    s.loads group identity ⊆ s.loads group none := by
  intro l mem
  obtain ⟨id, q, found, own, -, rfl⟩ := mem_loads_iff.1 mem
  exact mem_loads_iff.2 ⟨id, q, found, own, rfl, rfl⟩

theorem World.loads_ne_nil {b : Broker ℚ} (inOrder : b.InOrder) {w : World ℚ (Store ℚ)}
    {group : String} (used : group ∈ w.store.groups) {entity : Option String × ℚ}
    (mem : entity ∈ w.entities b group) : w.store.loads group entity.1 ≠ [] := by
  have made := Basis.entities_of_entities? (w.entities?_grounds group inOrder)
  have present : entity.1 ∈ (w.entities b group).map Prod.fst := List.mem_map_of_mem mem
  generalize w.entities b group = entities at made present
  suffices ∃ id, id ∈ (w.store.loads group entity.1).map Load.queue by
    obtain ⟨id, listed⟩ := this
    rintro none
    simp [none] at listed
  cases made with
  | whole share =>
    obtain ⟨id, q, found, own⟩ := Store.mem_groups.1 used
    exact ⟨id, Store.mem_loads.2 ⟨q, found, own, by simp_all⟩⟩
  | split nodup owners =>
    obtain ⟨owner, owned, same⟩ := (owners entity.1).1 present
    obtain ⟨id, q, found, own, identity⟩ := Store.mem_ownersIn.1 owned
    exact ⟨id, Store.mem_loads.2 ⟨q, found, own, by simp [same, identity]⟩⟩

/-- Where the share of a group goes when it is recalculated. -/
structure Shared (b : Broker ℚ) (w : World ℚ (Store ℚ)) (group : String) : Prop where
  uncorrected : b.correction? = none → w.entities b group =
    if (w.settings group).pooled then [(none, (w.settings group).share)]
    else (w.store.ownersIn group).toList.map fun owner =>
      (some owner, (w.settings group).share / (w.store.ownersIn group).size)
  /-- What an entity is given is what its queues get that compete. -/
  whole : ∀ entity ∈ w.entities b group, w.competing b group entity.1 ≠ [] →
    ((w.competing b group entity.1).map (w.part b group entity)).sum = entity.2
  /-- It is in proportion to the effective priorities of the jobs. -/
  proportional : ∀ entity ∈ w.entities b group, ∀ l ∈ w.competing b group entity.1,
    ∀ l' ∈ w.competing b group entity.1,
      w.part b group entity l * l'.sum = w.part b group entity l' * l.sum
  /-- Without background queues, all parts together are near to the share of the group. -/
  corrected : ∀ settings, b.correction? = some settings → group ∈ w.store.groups →
    (∀ l ∈ w.store.loads group none, isBackground (w.threshold b group) l = false) →
      Correction.Near
        (if (w.settings group).pooled then settings.maxCorrection else settings.maxCorrection ^ 2)
        (w.settings group).share
        ((w.entities b group).map fun entity =>
          ((w.store.loads group entity.1).map (w.part b group entity)).sum).sum
  answers : ∀ t : Trial ℚ, t.world = w → t.outages = [] →
    ∃ n, (t.run (b.recalculate group)).1 = some (.ok n)
  /-- The priority of a queue is its part or the floor, if that is larger. -/
  written : ∀ (t : Trial ℚ) (n : Nat), t.world = w →
    (t.run (b.recalculate group)).1 = some (.ok n) → ∀ (id : Int) (q : StoredQueue ℚ),
      (t.run (b.recalculate group)).2.world.store.queues[id]? = some q →
        q.definition.ownerGroup = group →
          ∃ entity ∈ w.entities b group, ∃ l ∈ w.store.loads group entity.1, l.queue = id ∧
            q.priority = if isBackground (w.threshold b group) l then b.policy.minShare
              else max (w.part b group entity l) b.policy.minShare

namespace World

variable {b : Broker ℚ} (inOrder : b.InOrder) {w : World ℚ (Store ℚ)} (weighty : w.store.Weighty)
  {group : String}

include inOrder weighty

theorem sum_parts (used : group ∈ w.store.groups)
    (foreground : ∀ l ∈ w.store.loads group none, isBackground (w.threshold b group) l = false) :
    ((w.entities b group).map fun entity =>
      ((w.store.loads group entity.1).map (w.part b group entity)).sum) =
        (w.entities b group).map Prod.snd := by
  refine List.map_congr_left fun entity mem => ?_
  have all : w.competing b group entity.1 = w.store.loads group entity.1 :=
    List.filter_eq_self.2 fun l listed => by
      rw [foreground l (w.store.loads_subset group entity.1 listed)]
      rfl
  rw [← all]
  exact sum_part weighty entity (by rw [all]; exact loads_ne_nil inOrder used mem)

theorem priority_of_mem_priorities {entry : Int × ℚ} (mem : entry ∈ w.priorities b group) :
    ∃ entity ∈ w.entities b group, ∃ l ∈ w.store.loads group entity.1, l.queue = entry.1 ∧
      entry.2 = if isBackground (w.threshold b group) l then b.policy.minShare
        else max (w.part b group entity l) b.policy.minShare := by
  rw [w.priorities_eq group inOrder] at mem
  obtain ⟨entity, among, mem⟩ := List.mem_flatMap.1 mem
  obtain ⟨l, listed, rfl⟩ := List.mem_map.1 mem
  exact ⟨entity, among, l, listed, rfl, slice_eq weighty listed⟩

end World

theorem shared_of_weighty {b : Broker ℚ} (history : ∀ settings ∈ b.history, settings.fault? = none)
    {w : World ℚ (Store ℚ)} (weighty : w.store.Weighty) (group : String)
    (nonneg : 0 ≤ (w.settings group).share) : Shared b w group := by
  have inOrder : b.InOrder := fun settings mem =>
    HistorySettings.inOrder_of_rational (history settings mem)
  refine ⟨fun disabled => ?_, fun entity _ some => World.sum_part weighty entity some,
    fun entity _ l _ l' _ => ?_, fun settings enabled used foreground => ?_, fun t same calm => ?_,
    fun t n same ok id q found own => ?_⟩
  · exact Option.some.inj ((w.entities?_grounds group inOrder).symm.trans
      (Basis.entities?_of_uncorrected disabled _))
  · unfold World.part
    ring
  · have large := HistorySettings.one_le_of_fault?
      (history settings (Option.filter_eq_some_iff.1 enabled).1)
    have owned : (w.store.ownersIn group).size ≠ 0 := by
      obtain ⟨id, q, found, own⟩ := Store.mem_groups.1 used
      have mem := Store.mem_ownersIn.2 ⟨id, q, found, own, rfl⟩
      rw [Ne, ← Std.ExtTreeSet.eq_empty_iff_size_eq_zero]
      exact Std.ExtTreeSet.ne_empty_of_mem mem
    rw [World.sum_parts inOrder weighty used foreground]
    exact Basis.near_entities? enabled large nonneg owned (w.entities?_grounds group inOrder)
  · exact (Broker.writes_priorities inOrder group t).calm calm _ rfl
  · subst same
    obtain ⟨written, known, store⟩ := (Broker.writes_priorities inOrder group t).done n ok
    cases known
    rw [store, Store.getElem?_queues_setPriorities] at found
    obtain ⟨before, there, rfl⟩ := Option.map_eq_some_iff.1 found
    have mem := (t.world.mem_priorities group inOrder id).2 ⟨before, there, own⟩
    exact World.priority_of_mem_priorities inOrder weighty (Store.lastPriority_mem mem before.priority)

/-- With settings that have passed their checks, and after any calls one after another: what a group
is entitled to goes to its queues, whole without correction and near to whole with it. -/
theorem shared_of_reached [Random.Logarithm ℚ] {b : Broker ℚ} (valid : b.Validated)
    {w : World ℚ (Store ℚ)} (reached : b.Reached w.store) (group : String)
    (nonneg : 0 ≤ (w.settings group).share) : Shared b w group := by
  have inOrder : b.InOrder := fun settings mem =>
    HistorySettings.inOrder_of_rational (valid.history settings mem)
  have midway := Tidiness.midway_of_reached inOrder reached
  exact shared_of_weighty valid.history
    (Store.weighty_of_weighed (Weights.weighed_of_reached reached) valid.sound.bounds
      midway.consistent midway.tidy) group nonneg

namespace Shared

def broker : Broker ℚ where
  policy := {
    segments := .standard
    bounds := Settings.standard.bounds
    initialPriority := Settings.standard.initialPriority
    insertAttempts := 10
    matchAttempts := 3
    candidateLimit := 10
    batchSize := 10
    privateTypes := .ofList ["private"]
    minShare := Settings.standard.minShare
    backgroundThreshold := Settings.standard.backgroundThreshold }
  history := some .standard

theorem policy_broker : Settings.standard.policy = .ok broker.policy := by
  have bounds : (Settings.standard : Settings ℚ).bounds.isValid = true := by decide +kernel
  have initial : Scalar.isWeight (Settings.standard : Settings ℚ).initialPriority = true := by
    decide +kernel
  have floor : Scalar.isWeight (Settings.standard : Settings ℚ).minShare = true := by
    decide +kernel
  have threshold : decide ((Settings.standard : Settings ℚ).backgroundThreshold < Scalar.zero) =
      false := by decide +kernel
  unfold Settings.policy
  rw [bounds, initial, floor, threshold]
  rfl

theorem validated_broker : broker.Validated := by
  refine ⟨⟨_, policy_broker⟩, ?_⟩
  rintro settings mem
  cases mem
  decide +kernel

@[reducible]
def logarithm : Random.Logarithm ℚ := ⟨id⟩

attribute [local instance] logarithm

def world : World ℚ (Store ℚ) where
  store := {}
  shares := { table := { defaultShare := 1 } }
  generator := .ofWords []

def served : World ℚ (Store ℚ) :=
  let calls := [.insert "j1" Tidiness.requirements 3,
    .insert "j2" { Tidiness.requirements with ownerIdentity := some "bob" } 5]
  { world with store := (world.serve broker calls).store }

theorem reached_served : broker.Reached served.store :=
  Broker.reached_serve (w := world) .empty _

theorem entities_served :
    served.entities broker "users" = [(some "alice", 1 / 2), (some "bob", 1 / 2)] := by
  decide +kernel

end Shared

attribute [local instance] Shared.logarithm in
theorem shared_served :
    Shared.broker.Validated ∧ Shared.broker.Reached Shared.served.store ∧
      0 ≤ (Shared.served.settings "users").share ∧
      Shared.served.entities Shared.broker "users" = [(some "alice", 1 / 2), (some "bob", 1 / 2)] ∧
      Shared Shared.broker Shared.served "users" :=
  have nonneg : 0 ≤ (Shared.served.settings "users").share := zero_le_one
  ⟨Shared.validated_broker, Shared.reached_served, nonneg, Shared.entities_served,
    shared_of_reached Shared.validated_broker Shared.reached_served "users" nonneg⟩

end Matchmaker
