import Matchmaker.Proofs.Concurrency.Exclusion
import Matchmaker.Proofs.Concurrency.Handout

/-!
Which queues are enabled again once no insertion is under way. An insertion that has the gate of a
queue releases it once on each of its ways, whatever failed before. The release is not repeated: if
it fails, the insertion answers with a failure and its queue stays disabled for good.
-/
namespace Matchmaker

variable {α : Type}

/-! ### Insertions that succeed -/

def Unfailing (asked : List (Exchange α)) : Prop := ∀ x ∈ asked, x.1.loses? x.2 = none

theorem Unfailing.concat {asked : List (Exchange α)} (h : Unfailing asked) {x : Exchange α}
    (kept : x.1.loses? x.2 = none) : Unfailing (asked ++ [x]) := by
  intro y mem
  rcases List.mem_append.1 mem with old | new
  · exact h y old
  · rw [List.mem_singleton.1 new]
    exact kept

theorem Request.loses?_eq_none {q : Request α} (h : q.isRelease = false) (answer : q.Answer) :
    q.loses? answer = none := by
  cases lost : q.loses? answer with
  | none => rfl
  | some id => exact absurd (isRelease_of_loses? lost) (by simp [h])

theorem Request.not_isRelease_of_isQuiet {q : Request α} (h : q.isQuiet = true) :
    q.isRelease = false := by
  unfold isRelease
  split
  · cases h
  · rfl

namespace Reopening

open Operation

variable {β γ : Type} {asked : List (Exchange α)}

abbrev Unfailingly (x : Operation α β) (asked : List (Exchange α)) : Prop :=
  x.Shows (fun later _ => Unfailing later) asked

theorem unfailingly_other {x : Operation α β} (h : x.Within (fun q => q.isRelease = false) True)
    (clean : Unfailing asked) : Unfailingly x asked := by
  have kept : Script.Keeps .transcript (fun later r => Unfailing later ∧ (r = none → True)) x.run
      asked :=
    Script.Keeps.of_allowed h clean fun g q clean other =>
      ⟨trivial, fun a => clean.concat (Request.loses?_eq_none other a)⟩
  exact Script.Keeps.mono kept fun _ _ ended _ _ => ended.1

theorem unfailingly_release (id : Int) (clean : Unfailing asked) :
    Unfailingly (Broker.release id) asked := by
  refine (keeps_bind _ _).2 ((keeps_store _ _).2 ⟨trivial, fun changed => ?_, fun e => nofun⟩)
  exact fun _ _ => clean.concat rfl

theorem unfailingly_throw (x : Operation α γ) (e : BrokerError) :
    Unfailingly (x >>= fun _ => (throw e : Operation α β)) asked :=
  (shows_any (List.nil_sublist _) x).bind fun _ _ _ => shows_throw e

theorem unfailingly_insertIntoExisting (id : Int) (job : String) (submitted : Int) (effective : α)
    (clean : Unfailing asked) :
    Unfailingly (Broker.insertIntoExisting id job submitted effective) asked := by
  refine (unfailingly_other (within_store rfl) clean).bind fun changed later clean => ?_
  cases changed with
  | false => exact shows_pure _ clean
  | true =>
    refine (unfailingly_other (within_ask rfl) clean).bind fun added later clean => ?_
    refine (unfailingly_release id clean).bind fun _ later clean => ?_
    rcases added with e | _
    · cases e <;> first | exact shows_pure _ clean | exact shows_throw _
    · exact shows_pure _ clean

variable [Scalar α] (b : Broker α)

theorem unfailingly_insertIntoNew (d : Definition) (job : String) (submitted : Int) (effective : α)
    (clean : Unfailing asked) : Unfailingly (b.insertIntoNew d job submitted effective) asked := by
  refine (unfailingly_other (within_ask rfl) clean).bind fun created later clean => ?_
  cases created with
  | error e => cases e <;> first | exact shows_pure _ clean | exact shows_throw _
  | ok id =>
    refine (unfailingly_other (within_record rfl) clean).bind fun _ later clean => ?_
    refine (unfailingly_other (within_ask rfl) clean).bind fun added later clean => ?_
    cases added with
    | error e => exact unfailingly_throw (Broker.abandon id) _
    | ok _ =>
      have quiet := (b.quiet_recalculate d.ownerGroup).attempt.mono
        (fun q asks => Request.not_isRelease_of_isQuiet asks) fun _ => trivial
      refine (unfailingly_other quiet clean).bind fun _ later clean => ?_
      exact (unfailingly_release id clean).bind fun _ later clean => shows_pure _ clean

theorem unfailingly_insertOnce (d : Definition) (job : String) (submitted : Int) (effective : α)
    (clean : Unfailing asked) : Unfailingly (b.insertOnce d job submitted effective) asked := by
  refine (unfailingly_other (within_store rfl) clean).bind fun found later clean => ?_
  cases found with
  | some id => exact unfailingly_insertIntoExisting id job submitted effective clean
  | none => exact unfailingly_insertIntoNew b d job submitted effective clean

theorem unfailingly_insertRepeatedly (d : Definition) (job : String) (submitted : Int)
    (effective : α) (attempts : Nat) (clean : Unfailing asked) :
    Unfailingly (b.insertRepeatedly d job submitted effective attempts) asked := by
  induction attempts generalizing asked with
  | zero => exact unfailingly_throw _ _
  | succ attempts ih =>
    refine (unfailingly_insertOnce b d job submitted effective clean).bind
      fun attempt later clean => ?_
    cases attempt with
    | done id =>
      exact (unfailingly_other (within_record rfl) clean).bind fun _ _ clean => shows_pure _ clean
    | contended => exact (unfailingly_other (within_record rfl) clean).bind fun _ _ => ih

attribute [local irreducible] Broker.definitionFor

theorem unfailingly_insert (job : String) (r : Requirements) (submitted : Int)
    (clean : Unfailing asked) : Unfailingly (b.insert job r submitted) asked := by
  unfold Broker.insert
  split
  · exact unfailingly_throw _ _
  · exact (unfailingly_other (within_orAbort fun _ => trivial) clean).bind fun effective _ clean =>
      unfailingly_insertRepeatedly b _ job submitted effective _ clean

end Reopening

def reopeningRules (α : Type) : Rules (List (Exchange α)) α where
  start := []
  allows _ := Protocol.transcript.allows
  next := Protocol.transcript.next
  ends
    | .insert _ _ _, asked, r => ∀ id, r = some (.ok id) → Unfailing asked
    | _, _, _ => True

attribute [local irreducible] Broker.definitionFor in
theorem reopeningRules_keptBy [Scalar α] [Random.Logarithm α] (b : Broker α) :
    (reopeningRules α).KeptBy b := by
  have clean : Unfailing ([] : List (Exchange α)) := List.forall_mem_nil _
  intro call
  cases call with
  | insert job r submitted =>
    exact Script.Keeps.mono (Reopening.unfailingly_insert b job r submitted clean)
      fun _ _ shown id same => shown id same
  | _ => exact Script.Keeps.mono (Script.Keeps.transcript (List.nil_sublist _) _) fun _ _ _ => trivial

/-! ### Systems -/

/-- Which queues are disabled: while an insertion holds the gate, and for good after a release of it
failed. -/
structure Reopened (s : System α) : Prop where
  disabled_iff : ∀ (id : Int) (q : StoredQueue α), s.store.queues[id]? = some q →
    (q.enabled = false ↔ (∃ i, s.HoldsGate i id) ∨ ReleaseFailed id s.history)
  idle : (∀ task ∈ s.tasks, task.isInserting = false) →
    ∀ (id : Int) (q : StoredQueue α), s.store.queues[id]? = some q →
      (q.enabled = false ↔ ReleaseFailed id s.history)
  stuck : ∀ id, ReleaseFailed id s.history →
    ∃ q : StoredQueue α, s.store.queues[id]? = some q ∧ q.enabled = false
  answered : ∀ (i : Nat) (job : String) (r : Requirements) (submitted id : Int),
    s.tasks[i]? = some ⟨.insert job r submitted, .done (.ok id)⟩ →
      ∀ e ∈ s.history, e.task = i → e.question.loses? e.answer = none

theorem GateInvariant.reopened [Scalar α] {s : System α} (h : GateInvariant True s)
    (followed : (reopeningRules α).Followed s) : Reopened s := by
  have disabled (id : Int) (q : StoredQueue α) (found : s.store.queues[id]? = some q) :
      q.enabled = false ↔ (∃ i, s.HoldsGate i id) ∨ ReleaseFailed id s.history := by
    rw [← h.isClosed_iff, Store.IsClosed, found, Option.map_some, Option.some.injEq]
  refine ⟨disabled, fun none id q found => ?_, fun id failed => ?_, ?_⟩
  · rw [disabled id q found]
    refine or_iff_right ?_
    rintro ⟨i, ⟨task, waits, inserts⟩, -⟩
    rw [none task (List.mem_of_getElem? waits)] at inserts
    cases inserts
  · exact Option.map_eq_some_iff.1 ((h.isClosed_iff id).2 (.inr failed))
  · intro i job r submitted id found e mem own
    have kept := followed.kept i _ found
    rw [Rules.after_eq_askedBy rfl rfl] at kept
    have clean : Unfailing (askedBy i s.history) := kept id rfl
    exact clean e.exchange (List.mem_map_of_mem (List.mem_filter.2 ⟨mem, decide_eq_true own⟩))

/-- On a store whose queues are all enabled, in every run of a broker whose settings are not at fault,
the queues that no insertion holds are enabled but for those whose release failed. -/
theorem reopened_runOn {b : Broker Float} (checked : ∀ settings ∈ b.history, settings.fault? = none)
    {store : Store Float} (consistent : store.Consistent)
    (enabled : ∀ (id : Int) (q : StoredQueue Float), store.queues[id]? = some q → q.enabled = true)
    (moves : List (Move Float)) : Reopened (System.runOn b store moves) := by
  have faults : ∀ move ∈ moves, move.isFaultless = false → True := fun _ _ _ => trivial
  have invariant := gateInvariant_runOn (Broker.inOrder_of_checked checked) consistent enabled faults
  exact invariant.reopened (Rules.followed_runOn (reopeningRules_keptBy b) store moves)

namespace Stuck

def definition : Definition := ⟨"/CN=alice", "grid", "prod", 5000, .ofFn fun _ => none⟩

def store : Store Float := Store.replay {} [.create definition 1 true, .addJob 1 "j0" 1 1]

theorem enabled_store (id : Int) (q : StoredQueue Float) (found : store.queues[id]? = some q) :
    q.enabled = true := by
  have all : ∀ entry ∈ store.queues.toList, entry.2.enabled = true := by decide +kernel
  exact all (id, q) (Std.ExtTreeMap.mem_toList_iff_getElem?_eq_some.2 found)

def moves (before : Nat) : List (Move Float) :=
  .start (.insert "j1" Overtaken.own 1) :: Move.turns 0 before ++
    .proceed 0 (some (.connectionFailed "injected")) Request.unanswered :: Move.turns 0 1

end Stuck

theorem reopened_runOn_stuck :
    Stuck.store.Consistent ∧ Reopened (System.runOn .standard Stuck.store (Stuck.moves 3)) := by
  have consistent : Stuck.store.Consistent := Store.consistent_replay Store.consistent_empty _
  exact ⟨consistent,
    reopened_runOn Broker.checked_standard consistent Stuck.enabled_store (Stuck.moves 3)⟩

/-- Once no insertion is under way, every queue is enabled. -/
def Reopens (s : System α) : Prop :=
  (∀ task ∈ s.tasks, task.isInserting = false) →
    ∀ (id : Int) (q : StoredQueue α), s.store.queues[id]? = some q → q.enabled = true

/-- The release fails in an insertion into an empty store, and nothing else. -/
theorem not_reopens_stuck :
    ((Stuck.moves 6).filter fun move => !move.isFaultless).length = 1 ∧
      ¬ Reopens (System.runOn .standard {} (Stuck.moves 6)) := by
  have played : (∀ task ∈ (System.runOn .standard {} (Stuck.moves 6)).tasks,
        task.isInserting = false) ∧
      (System.runOn .standard {} (Stuck.moves 6)).store.queues[(1 : Int)]?.map
        StoredQueue.enabled = some false := by
    decide +kernel
  refine ⟨rfl, fun reopens => ?_⟩
  obtain ⟨q, found, disabled⟩ := Option.map_eq_some_iff.1 played.2
  rw [reopens played.1 1 q found] at disabled
  cases disabled

end Matchmaker
