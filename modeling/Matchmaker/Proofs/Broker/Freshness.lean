import Matchmaker.Proofs.Broker.Sweep
import Matchmaker.Proofs.Concurrency.System

/-!
Whether priorities are up to date after a sweep, in runs in which settings and usage change between
sweeps and calls fail during them. They are, unless what a recalculation goes by has changed in a
sweep that then failed or took no notice: the next sweep sees no change any more and leaves the
priorities as they are.
-/
namespace Matchmaker

open Operation

/-- A sweep, or what happens between sweeps. -/
inductive Turn (α : Type) where
  | sweep (outages : List (Option Outage))
  | edit (shares : ShareSource α) (usage : UsageSource α)
  | wait (seconds : Nat)

variable {α : Type} [Scalar α] (b : Broker α)

/-- What a sweep answers if it succeeds, and the world after the turn. -/
def Turn.play : Turn α → World α (Store α) → Option Bool × World α (Store α)
  | sweep outages, w =>
    let (result, trial) := (⟨w, outages⟩ : Trial α).run b.sweep
    (result.bind Except.toOption, trial.world)
  | edit shares usage, w => (none, { w with shares := shares, usage := usage })
  | wait seconds, w => (none, { w with now := w.now + seconds })

namespace World

def after (w : World α (Store α)) (turns : List (Turn α)) : World α (Store α) :=
  turns.foldl (fun w turn => (turn.play b w).2) w

/-- Every priority is the one that recalculating the group of the queue writes, whatever priorities
it finds. -/
def Current (w : World α (Store α)) : Prop :=
  ∀ (id : Int) (q : StoredQueue α), w.store.queues[id]? = some q →
    ∀ priorities, ∃ n w',
      World.play { w with store := w.store.setPriorities priorities }
        (b.recalculate q.definition.ownerGroup) = (some (.ok n), w') ∧
      w'.store.queues[id]?.map StoredQueue.priority = some q.priority

/-- Whether priorities may be out of date: what a recalculation goes by has changed in a turn, and
no sweep has recalculated all groups then or since. -/
def Behind (behind : Prop) (w : World α (Store α)) : List (Turn α) → Prop
  | [] => behind
  | turn :: rest =>
    Behind ((turn.play b w).1 ≠ some true ∧ (behind ∨ (turn.play b w).2.basis ≠ w.basis))
      (turn.play b w).2 rest

variable {b} {w : World α (Store α)}

theorem current_of_settled (covers : w.basis.Covers)
    (settled : ∀ group ∈ w.store.groups, w.Settled b group) : w.Current b := by
  intro id q found before
  have listed : q.definition.ownerGroup ∈ w.store.groups := Store.mem_groups.2 ⟨id, q, found, rfl⟩
  obtain ⟨priorities, follow, last⟩ := settled _ listed
  have wrote := b.writes_recalculate covers (covers _ listed)
    ⟨{ w with store := w.store.setPriorities before }, []⟩
    (w.affords_basis.congr (w.basis_setPriorities before) rfl)
  obtain ⟨n, ok⟩ := wrote.calm rfl priorities follow
  obtain ⟨written, known, store⟩ := wrote.done n ok
  obtain rfl : written = priorities := Option.some.inj (known.symm.trans follow)
  rw [Trial.run_calm] at ok store
  refine ⟨n, _, Prod.ext ok rfl, ?_⟩
  rw [store, ← Store.setPriorities_append, Store.getElem?_queues_setPriorities, found,
    Option.map_some, Option.map_some, Store.lastPriority_append]
  exact congrArg some (last id q found rfl _)

def KeptUp (b : Broker α) (w : World α (Store α)) : Prop :=
  w.book = ∅ ∨ ∀ group ∈ w.store.groups, w.Settled b group

theorem swept_play (outages : List (Option Outage)) (w : World α (Store α)) :
    ∃ t r, b.Swept ⟨w, outages⟩ t r ∧
      (Turn.sweep outages).play b w = (r.bind Except.toOption, t.world) :=
  ⟨_, _, b.swept_sweep ⟨w, outages⟩, rfl⟩

theorem KeptUp.play (turn : Turn α)
    (h : (turn.play b w).1 = some true ∨ w.KeptUp b ∧ (turn.play b w).2.basis = w.basis) :
    (turn.play b w).2.KeptUp b := by
  cases turn with
  | sweep outages =>
    obtain ⟨t, r, swept, played⟩ := swept_play (b := b) outages w
    rw [played] at h ⊢
    rcases h with answered | ⟨kept | settled, same⟩
    · obtain ⟨result, rfl, ok⟩ := Option.bind_eq_some_iff.1 answered
      cases result with
      | error e => cases ok
      | ok recalculated =>
        cases ok
        exact .inr (swept.done rfl)
    · exact .inl ((congrArg Basis.book same).trans kept)
    · have groups : t.world.store.groups = w.store.groups := congrArg Basis.groups same
      refine .inr fun group mem => swept.kept same group (settled group ?_)
      exact groups ▸ mem
  | _ =>
    obtain ⟨kept, -⟩ := h.resolve_left nofun
    exact kept.imp id fun settled group mem => (settled group mem).congr rfl rfl

theorem behind_or_keptUp {behind : Prop} (h : behind ∨ w.KeptUp b) (turns : List (Turn α)) :
    w.Behind b behind turns ∨ (w.after b turns).KeptUp b := by
  induction turns generalizing w behind with
  | nil => exact h
  | cons turn rest ih =>
    refine ih ?_
    by_cases answered : (turn.play b w).1 = some true
    · exact .inr (.play turn (.inl answered))
    · by_cases same : (turn.play b w).2.basis = w.basis
      · exact h.imp (fun behind => ⟨answered, .inl behind⟩) fun kept => .play turn (.inr ⟨kept, same⟩)
      · exact .inl ⟨answered, .inr same⟩

structure Refreshed (b : Broker α) (w : World α (Store α)) (turns : List (Turn α))
    (outages : List (Option Outage)) : Prop where
  current : ¬ w.Behind b False (turns ++ [.sweep outages]) →
    (w.after b (turns ++ [.sweep outages])).Current b
  /-- A sweep that does not recalculate may have lost usage, but has read nothing new. -/
  unnoticed : (Turn.play b (.sweep outages) (w.after b turns)).1 = some false →
    (w.after b (turns ++ [.sweep outages])).book = (w.after b turns).book ∧
      Broker.Loses (w.after b turns).ledger (w.after b (turns ++ [.sweep outages])).ledger

/-- In every run from a world in which no settings have been read, after a sweep that succeeds the
priorities are up to date unless they have fallen behind. -/
theorem refreshed_after {w : World α (Store α)} (fresh : w.book = ∅) (turns : List (Turn α))
    (outages : List (Option Outage))
    (succeeds : (Turn.play b (.sweep outages) (w.after b turns)).1.isSome) :
    Refreshed b w turns outages := by
  have last : w.after b (turns ++ [.sweep outages]) =
      (Turn.play b (.sweep outages) (w.after b turns)).2 := List.foldl_append
  have whole := behind_or_keptUp (.inr (.inl fresh) : False ∨ w.KeptUp b)
    (turns ++ [.sweep outages])
  rw [last] at whole
  obtain ⟨t, r, swept, played⟩ := swept_play (b := b) outages (w.after b turns)
  rw [played] at last whole succeeds
  obtain ⟨answer, answered⟩ := Option.isSome_iff_exists.1 succeeds
  obtain ⟨result, rfl, ok⟩ := Option.bind_eq_some_iff.1 answered
  cases result with
  | error e => cases ok
  | ok recalculated =>
    refine ⟨fun abreast => ?_, fun unnoticed => ?_⟩
    · rw [last]
      refine current_of_settled (swept.covers recalculated rfl) fun group mem => ?_
      rcases whole.resolve_left abreast with unread | settled
      · have listed : group ∈ t.world.book := swept.covers recalculated rfl group mem
        rw [unread] at listed
        simp at listed
      · exact settled group mem
    · rw [played] at unnoticed
      cases unnoticed
      rw [last]
      exact swept.unnoticed rfl

end World

namespace Stale

def broker : Broker Float := { Broker.standard with history := none }

def definition : Definition := ⟨"/CN=alice", "grid", "prod", 500, .ofFn fun _ => none⟩

def world : World Float (Store Float) where
  store := Store.replay {} [.create definition 1 true, .addJob 1 "j1" 1 1]
  shares := {
    table := ShareTable.set { defaultShare := 1 } "grid" { share := some 2, pooled := true } }
  generator := .ofWords []

/-- Some questions of a sweep are answered, and then one fails. -/
def outages (answered : Nat) : List (Option Outage) :=
  List.replicate answered none ++
    [some ⟨.connectionFailed "injected", .configUnavailable "injected"⟩]

end Stale

namespace World

theorem refreshed_after_outage :
    (Turn.play Stale.broker (.sweep []) (Stale.world.after Stale.broker
        [.sweep (Stale.outages 3), .wait 300])).1 = some true ∧
      Refreshed Stale.broker Stale.world [.sweep (Stale.outages 3), .wait 300] [] ∧
      (Stale.world.after Stale.broker [.sweep (Stale.outages 3), .wait 300, .sweep []]).Current
        Stale.broker := by
  have recalculated : (Turn.play Stale.broker (.sweep []) (Stale.world.after Stale.broker
      [.sweep (Stale.outages 3), .wait 300])).1 = some true := by
    decide +kernel
  have refreshed : Refreshed Stale.broker Stale.world [.sweep (Stale.outages 3), .wait 300] [] :=
    refreshed_after rfl _ _ (Option.isSome_iff_exists.2 ⟨true, recalculated⟩)
  exact ⟨recalculated, refreshed, refreshed.current fun behind => behind.1 recalculated⟩

def StaysCurrent (b : Broker α) (w : World α (Store α)) : Prop :=
  ∀ (turns : List (Turn α)) (outages : List (Option Outage)),
    (Turn.play b (.sweep outages) (w.after b turns)).1.isSome →
      (w.after b (turns ++ [.sweep outages])).Current b

/-- A sweep fails when it writes, and the next one succeeds and writes nothing. -/
theorem not_staysCurrent_stale :
    Stale.world.book = ∅ ∧ ¬ Stale.world.StaysCurrent Stale.broker := by
  refine ⟨rfl, fun stays => ?_⟩
  have succeeds : (Turn.play Stale.broker (.sweep []) (Stale.world.after Stale.broker
      [.sweep (Stale.outages 8)])).1.isSome := by
    decide +kernel
  have current := stays [.sweep (Stale.outages 8)] [] succeeds
  generalize after : Stale.world.after Stale.broker
    ([.sweep (Stale.outages 8)] ++ [.sweep []]) = w at current
  have stored : (w.store.queues[(1 : Int)]?.map fun q => (q.definition.ownerGroup, q.priority.toBits)) =
      some ("grid", Float.toBits 1) := by
    rw [← after]
    decide +kernel
  have written : ((World.play { w with store := w.store.setPriorities [] }
      (Stale.broker.recalculate "grid")).2.store.queues[(1 : Int)]?.map fun q =>
        q.priority.toBits) = some (Float.toBits 2) := by
    rw [← after]
    decide +kernel
  obtain ⟨q, found, same⟩ := Option.map_eq_some_iff.1 stored
  obtain ⟨group, before⟩ := Prod.mk.inj same
  obtain ⟨n, w', run, priority⟩ := current 1 q found []
  rw [group] at run
  rw [run] at written
  obtain ⟨q', found', now⟩ := Option.map_eq_some_iff.1 written
  rw [found', Option.map_some, Option.some.injEq] at priority
  rw [priority, before] at now
  exact absurd now (by decide +kernel)

end World

end Matchmaker
