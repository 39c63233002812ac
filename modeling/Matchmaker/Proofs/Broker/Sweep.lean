import Matchmaker.Proofs.Broker.Quiet
import Matchmaker.Proofs.Broker.Recalculation
import Matchmaker.Proofs.Broker.Snapshot

/-!
What a sweep leaves where calls may fail. One that recalculates leaves every priority as its basis
says; one that does not, or fails on the way, leaves those alone that were so on the same basis.
-/
namespace Matchmaker

open Operation

namespace World

variable {α : Type} [Scalar α] {w w' : World α (Store α)} {b : Broker α}

/-- The priorities of the queues of a group are those that follow from the basis. -/
def Settled (b : Broker α) (w : World α (Store α)) (group : String) : Prop :=
  ∃ priorities, w.basis.priorities? b group = some priorities ∧
    ∀ (id : Int) (q : StoredQueue α), w.store.queues[id]? = some q →
      q.definition.ownerGroup = group →
        ∀ before, Store.lastPriority id priorities before = q.priority

theorem Settled.congr {group : String} (h : w.Settled b group) (basis : w'.basis = w.basis)
    (store : w'.store = w.store) : w'.Settled b group := by
  unfold Settled
  rw [basis, store]
  exact h

section Written

variable {group : String} {priorities : List (Int × α)}
  (follow : w.basis.priorities? b group = some priorities) (basis : w'.basis = w.basis)
  (store : w'.store = w.store.setPriorities priorities)

include follow basis store

theorem settled_of_written : w'.Settled b group := by
  refine ⟨priorities, by rw [basis, follow], fun id q stored own before => ?_⟩
  rw [store, Store.getElem?_queues_setPriorities] at stored
  obtain ⟨q, found, rfl⟩ := Option.map_eq_some_iff.1 stored
  exact Store.lastPriority_of_mem ((mem_priorities? follow id).2 ⟨q, found, own⟩) _ _

theorem Settled.of_written {other : String} (h : w.Settled b other) : w'.Settled b other := by
  by_cases same : other = group
  · rw [same]
    exact settled_of_written follow basis store
  · obtain ⟨others, known, settled⟩ := h
    refine ⟨others, by rw [basis, known], fun id q stored own before => ?_⟩
    rw [store, Store.getElem?_queues_setPriorities] at stored
    obtain ⟨q, found, rfl⟩ := Option.map_eq_some_iff.1 stored
    have unwritten : id ∉ priorities.map Prod.fst := by
      intro written
      obtain ⟨q', found', own'⟩ := (mem_priorities? follow id).1 written
      rw [found, Option.some.injEq] at found'
      cases found'
      exact same (own.symm.trans own')
    rw [settled id q found own before, Store.lastPriority_of_not_mem unwritten]

end Written

end World

namespace Broker

variable {α : Type} [Scalar α] (b : Broker α)

/-! ### Recalculating groups -/

structure Settling {β : Type} (groups : List String) (t t' : Trial α) (r : Ending β) : Prop where
  basis : t'.world.basis = t.world.basis
  kept : ∀ group, t.world.Settled b group → t'.world.Settled b group
  done : ∀ c, r = some (.ok c) → ∀ group ∈ groups, t'.world.Settled b group

theorem settling_recalculate {t : Trial α} (covers : t.world.basis.Covers) {group : String}
    (listed : group ∈ t.world.basis.groups) :
    t.Ends (b.recalculate group) (b.Settling [group] t) := by
  refine (b.writes_recalculate covers (covers group listed) t t.world.affords_basis).mono
    fun t' r wrote => ?_
  by_cases answered : ∃ n, r = some (.ok n)
  · obtain ⟨n, ok⟩ := answered
    obtain ⟨written, follow, store⟩ := wrote.done n ok
    refine ⟨wrote.basis, fun other h => h.of_written follow wrote.basis store, fun _ _ => ?_⟩
    exact List.forall_mem_singleton.2 (World.settled_of_written follow wrote.basis store)
  · have failed : ∀ n, r ≠ some (.ok n) := not_exists.1 answered
    have store := wrote.failed failed
    exact ⟨wrote.basis, fun other h => h.congr wrote.basis store, fun n ok => (failed n ok).elim⟩

theorem settling_recalculateGroups {t : Trial α} (covers : t.world.basis.Covers)
    {groups : List String} (listed : ∀ group ∈ groups, group ∈ t.world.basis.groups) :
    t.Ends (b.recalculateGroups groups) (b.Settling groups t) := by
  induction groups generalizing t with
  | nil => exact ⟨rfl, fun _ h => h, fun _ _ => List.forall_mem_nil _⟩
  | cons group rest ih =>
    refine (b.settling_recalculate covers (listed group List.mem_cons_self)).bind
      (fun t' r bad settling r' bad' => ?_) fun t' n settling => ?_
    · exact ⟨settling.basis, settling.kept, fun c ok => (bad' c ok).elim⟩
    · have later : ∀ other ∈ rest, other ∈ t'.world.basis.groups := fun other mem => by
        rw [settling.basis]
        exact listed other (.tail group mem)
      refine (ih (settling.basis ▸ covers) later).mono fun t'' r settling' => ?_
      refine ⟨settling'.basis.trans settling.basis, fun other h => ?_, fun c ok other mem => ?_⟩
      · exact settling'.kept other (settling.kept other h)
      · cases mem with
        | head => exact settling'.kept group (settling.done n rfl group List.mem_cons_self)
        | tail _ mem => exact settling'.done c ok other mem

theorem settling_recalculateAll {t : Trial α} (covers : t.world.basis.Covers) :
    t.Ends b.recalculateAll (b.Settling t.world.basis.groups.toList t) := by
  have groups := reads_groups t t.world.affords_basis
  refine groups.bind (fun t' r bad read r' bad' => ?_) fun t' found read => ?_
  · exact ⟨read.basis, fun group h => h.congr read.basis read.store, fun n ok => (bad' n ok).elim⟩
  · obtain rfl : t.world.basis.groups = found := Option.some.inj (read.right found rfl)
    have listed : ∀ group ∈ t.world.basis.groups.toList, group ∈ t'.world.basis.groups := by
      intro group mem
      rw [read.basis]
      exact Std.ExtTreeSet.mem_toList.1 mem
    refine (b.settling_recalculateGroups (read.basis ▸ covers) listed).bind
      (fun t'' r bad settling r' bad' => ?_) fun t'' _ settling => ?_
    · refine ⟨settling.basis.trans read.basis, fun group h => ?_, fun n ok => (bad' n ok).elim⟩
      exact settling.kept group (h.congr read.basis read.store)
    · refine ⟨settling.basis.trans read.basis, fun group h => ?_, fun _ _ => settling.done () rfl⟩
      exact settling.kept group (h.congr read.basis read.store)

/-! ### Refreshing -/

theorem ends_refreshes {β : Type} {x : Operation α β} (h : Refreshes x) (t : Trial α) :
    t.Ends x fun t' _ => t'.world.store = t.world.store := by
  refine Trial.ends_of_within h rfl fun t' q answer t'' same asked met => ?_
  cases met with
  | refused => exact same
  | answered =>
    unfold Request.refreshes at asked
    split at asked
    case h_6 settings =>
      -- the one question whose answer says what it did
      simp only [World.reply, World.answer]
      split <;> exact same
    all_goals first | exact same | cases asked

def Unread (t t' : Trial α) : Prop :=
  t'.world.book = t.world.book ∧ t'.world.ledger = t.world.ledger

omit [Scalar α] in
theorem Unread.trans {t t' t'' : Trial α} (h : Unread t t') (h' : Unread t' t'') : Unread t t'' :=
  ⟨h'.1.trans h.1, h'.2.trans h.2⟩

theorem ends_refreshShares (t : Trial α) :
    t.Ends refreshShares fun t' r => ∀ changed, r = some (.ok changed) →
      (∀ group ∈ t.world.store.groups, group ∈ t'.world.book) ∧
        (changed = false → Unread t t') := by
  refine (renewed_refreshShares t).mono fun t' r renewed changed ok => ?_
  obtain ⟨-, answer, world⟩ := renewed.done changed ok
  have covers : ∀ group ∈ t.world.store.groups, group ∈ t.world.resolved := fun group mem => by
    rw [Std.ExtTreeMap.mem_iff_isSome_getElem?, World.getElem?_resolved, if_pos (.inr mem)]
    rfl
  unfold Unread
  rw [world]
  cases changed with
  | true => exact ⟨covers, nofun⟩
  | false =>
    have agrees : t.world.book.agrees t.world.resolved = true := by simpa using answer
    exact ⟨fun group mem => (ShareBook.mem_of_agrees agrees group).2 (covers group mem),
      fun _ => ⟨rfl, rfl⟩⟩

/-! ### Changes that a refresh reports -/

def Loses (l l' : UsageLedger α) : Prop :=
  ∀ grouping, (l'.record grouping).held = (l.record grouping).held ∨
    ∀ usage ∈ (l'.record grouping).held, usage = none

omit [Scalar α] in
theorem Loses.trans {l l' l'' : UsageLedger α} (h : Loses l l') (h' : Loses l' l'') :
    Loses l l'' := by
  intro grouping
  rcases h' grouping with same | lost
  · rw [same]
    exact h grouping
  · exact .inr lost

omit [Scalar α] in
theorem loses_setRecord (l : UsageLedger α) (grouping : Grouping) (windows now : Nat) :
    Loses l (l.setRecord (.ofAttempt windows none now) grouping) := by
  intro other
  by_cases own : grouping = other
  · refine .inr fun usage mem => ?_
    rw [own, UsageLedger.record_setRecord_self] at mem
    exact List.eq_of_mem_replicate mem
  · rw [UsageLedger.record_setRecord_of_ne _ _ own]
    exact .inl rfl

theorem ends_fetchWindows (grouping : Grouping) (windows : List (UsageWindow α)) (t : Trial α) :
    t.Ends (fetchWindows grouping windows) fun t' _ => Unread t t' := by
  induction windows generalizing t with
  | nil => exact ⟨rfl, rfl⟩
  | cons w rest ih =>
    refine Trial.ends_ask_bind fun answer t' met => ?_
    have same : Unread t t' := by cases met <;> exact ⟨rfl, rfl⟩
    cases answer with
    | error e => exact same
    | ok usage =>
      exact (ih t').bind (fun _ _ _ kept _ _ => same.trans kept) fun _ _ kept => same.trans kept

/-- What a refresh that reports nothing new leaves: the book, and the usage that is not lost. -/
def Reports (t t' : Trial α) (r : Ending Bool) : Prop :=
  r = some (.ok false) → t'.world.book = t.world.book ∧ Loses t.world.ledger t'.world.ledger

theorem reports_refreshGrouping (settings : HistorySettings α) (grouping : Grouping) (t : Trial α) :
    t.Ends (refreshGrouping settings grouping) (Reports t) := by
  refine Trial.ends_ask_bind fun due t₁ met => ?_
  have same : Unread t t₁ := by cases met <;> exact ⟨rfl, rfl⟩
  dsimp only
  split
  · refine (ends_fetchWindows grouping _ t₁).bind (fun _ _ _ _ _ bad ok => (bad _ ok).elim) ?_
    intro t₂ fetched kept
    have kept : Unread t t₂ := same.trans kept
    refine Trial.ends_ask_bind fun _ t₃ met ok => ?_
    cases fetched with
    | some usage => cases ok
    | none =>
      cases met with
      | refused out refused => cases refused
      | answered =>
        refine ⟨kept.1, ?_⟩
        rw [← kept.2]
        exact loses_setRecord t₂.world.ledger grouping _ t₂.world.now
  · exact fun _ => ⟨same.1, fun other => .inl (congrArg (fun l => (l.record other).held) same.2)⟩

theorem reports_or {x y : Operation α Bool} {t : Trial α} (h : t.Ends x (Reports t))
    (h' : ∀ t' : Trial α, t'.Ends y (Reports t')) :
    t.Ends (do let first ← x; let others ← y; pure (first || others)) (Reports t) := by
  refine h.bind (fun _ _ _ _ _ bad ok => (bad _ ok).elim) fun t₁ first reports => ?_
  refine (h' t₁).bind (fun _ _ _ _ _ bad ok => (bad _ ok).elim) fun t₂ others reports' ok => ?_
  have none : first = false ∧ others = false := by
    cases first <;> cases others <;> first | exact ⟨rfl, rfl⟩ | cases ok
  obtain ⟨rfl, rfl⟩ := none
  have before := reports rfl
  have after := reports' rfl
  exact ⟨after.1.trans before.1, before.2.trans after.2⟩

theorem reports_refreshGroupings (settings : HistorySettings α) (groupings : List Grouping)
    (t : Trial α) : t.Ends (refreshGroupings settings groupings) (Reports t) := by
  induction groupings generalizing t with
  | nil => exact fun _ => ⟨rfl, fun _ => .inl rfl⟩
  | cons g rest ih => exact reports_or (reports_refreshGrouping settings g t) ih

theorem reports_refreshUsage (settings : HistorySettings α) (t : Trial α) :
    t.Ends (refreshUsage settings) (Reports t) := by
  unfold refreshUsage
  split
  · have others (t' : Trial α) : t'.Ends (do
          let others ← ask .groupings
          refreshGroupings settings (others.filter (· ≠ .groups))) (Reports t') := by
      refine Trial.ends_ask_bind fun known t'' met => ?_
      have same : Unread t' t'' := by cases met <;> exact ⟨rfl, rfl⟩
      have refreshed := reports_refreshGroupings settings (known.filter (· ≠ .groups)) t''
      intro ok
      have after := refreshed ok
      exact ⟨after.1.trans same.1, same.2 ▸ after.2⟩
    simpa only [bind_assoc] using reports_or (reports_refreshGrouping settings .groups t) others
  · exact fun _ => ⟨rfl, fun _ => .inl rfl⟩

theorem ends_refreshHistory (t : Trial α) :
    t.Ends b.refreshHistory fun t' r => ∀ changed, r = some (.ok changed) →
      changed.getD false = false →
        t'.world.book = t.world.book ∧ Loses t.world.ledger t'.world.ledger := by
  unfold refreshHistory
  split
  · exact fun _ _ _ => ⟨rfl, fun _ => .inl rfl⟩
  · refine (reports_refreshUsage _ t).bind (fun _ _ _ _ _ bad _ ok => (bad _ ok).elim) ?_
    intro t' changed reports _ ok none
    cases ok
    cases none
    exact reports rfl

/-! ### Sweeping -/

/-- What a sweep leaves. -/
structure Swept (t t' : Trial α) (r : Ending Bool) : Prop where
  kept : t'.world.basis = t.world.basis →
    ∀ group, t.world.Settled b group → t'.world.Settled b group
  covers : ∀ recalculated, r = some (.ok recalculated) → t'.world.basis.Covers
  done : r = some (.ok true) → ∀ group ∈ t'.world.store.groups, t'.world.Settled b group
  unnoticed : r = some (.ok false) →
    t'.world.book = t.world.book ∧ Loses t.world.ledger t'.world.ledger

theorem swept_early {t t' : Trial α} (store : t'.world.store = t.world.store) {r : Ending Bool}
    (bad : ∀ recalculated, r ≠ some (.ok recalculated)) : b.Swept t t' r where
  kept basis _ h := h.congr basis store
  covers c ok := (bad c ok).elim
  done ok := (bad true ok).elim
  unnoticed ok := (bad false ok).elim

theorem swept_sweep (t : Trial α) : t.Ends b.sweep (b.Swept t) := by
  have history : t.Ends b.refreshHistory fun t' r => t'.world.store = t.world.store ∧
      ∀ changed, r = some (.ok changed) → changed.getD false = false →
        t'.world.book = t.world.book ∧ Loses t.world.ledger t'.world.ledger :=
    ⟨ends_refreshes b.refreshes_refreshHistory t, b.ends_refreshHistory t⟩
  refine history.bind (fun t₁ _ _ read _ bad => b.swept_early read.1 bad) ?_
  intro t₁ usageChanged ⟨store₁, usage⟩
  have shares : t₁.Ends refreshShares fun t' r => t'.world.store = t₁.world.store ∧
      ∀ changed, r = some (.ok changed) →
        (∀ group ∈ t₁.world.store.groups, group ∈ t'.world.book) ∧
          (changed = false → Unread t₁ t') :=
    ⟨ends_refreshes refreshes_refreshShares t₁, ends_refreshShares t₁⟩
  refine shares.bind (fun t₂ _ _ read _ bad => b.swept_early (read.1.trans store₁) bad) ?_
  intro t₂ sharesChanged ⟨store₁₂, settings⟩
  have store₂ : t₂.world.store = t.world.store := store₁₂.trans store₁
  have covers : t₂.world.basis.Covers := by
    intro group mem
    refine (settings sharesChanged rfl).1 group ?_
    rw [← store₁₂]
    exact mem
  split
  · refine (Trial.ends_bind _ _ _ _).2
      ((b.settling_recalculateAll covers).mono fun t₃ r settling => ?_)
    have kept (basis : t₃.world.basis = t.world.basis) (group : String)
        (h : t.world.Settled b group) : t₃.world.Settled b group :=
      settling.kept group (h.congr (settling.basis.symm.trans basis) store₂)
    rcases r with _ | e | n
    · exact ⟨kept, nofun, nofun, nofun⟩
    · exact ⟨kept, nofun, nofun, nofun⟩
    · refine ⟨kept, fun _ _ => ?_, fun _ group mem => ?_, nofun⟩
      · change t₃.world.basis.Covers
        rw [settling.basis]
        exact covers
      · have listed : group ∈ t₂.world.basis.groups := by
          rw [← settling.basis]
          exact mem
        exact settling.done _ rfl group (Std.ExtTreeSet.mem_toList.2 listed)
  · rename_i unchanged
    rw [Bool.not_eq_true, Bool.or_eq_false_iff] at unchanged
    have before := usage usageChanged rfl unchanged.1
    have after := (settings sharesChanged rfl).2 unchanged.2
    refine ⟨fun basis group h => h.congr basis store₂, fun _ _ => covers, nofun, fun _ => ?_⟩
    exact ⟨after.1.trans before.1, after.2 ▸ before.2⟩

end Broker

end Matchmaker
