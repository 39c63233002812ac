import Matchmaker.Proofs.Broker.Weights

/-!
No call is ever aborted. In every run, whatever fails and whatever the random words are, each clamp
finds its bounds in order, each roll is below a positive finite number, and each index is in range.
-/
namespace Matchmaker

/-! ### Fair answers -/

namespace Script

variable {Q : Type} {A : Q → Type} {β γ : Type} {asks : Q → Prop} {fair : (q : Q) → A q → Prop}

def Endures (asks : Q → Prop) (fair : (q : Q) → A q → Prop) : Script Q A β → Prop
  | done _ => True
  | ask q next => asks q ∧ ∀ a, fair q a → (next a).Endures asks fair
  | abort => False

theorem Endures.bind {x : Script Q A β} {f : β → Script Q A γ} (h : x.Endures asks fair)
    (rest : ∀ b, (f b).Endures asks fair) : (x.bind f).Endures asks fair := by
  induction x with
  | done b => exact rest b
  | ask q next ih => exact ⟨h.1, fun a fine => ih a (h.2 a fine)⟩
  | abort => exact h.elim

theorem Within.endures {x : Script Q A β} (h : x.Within asks False) : x.Endures asks fair := by
  induction x with
  | done b => trivial
  | ask q next ih => exact ⟨h.1, fun a _ => ih a (h.2 a)⟩
  | abort => exact h rfl

end Script

namespace Operation

variable {α β γ : Type} {asks : Request α → Prop} {fair : (q : Request α) → q.Answer → Prop}

def Endures (asks : Request α → Prop) (fair : (q : Request α) → q.Answer → Prop)
    (x : Operation α β) : Prop := Script.Endures asks fair x.run

theorem endures_pure (b : β) : (pure b : Operation α β).Endures asks fair := trivial

theorem Endures.bind {x : Operation α γ} {f : γ → Operation α β} (h : x.Endures asks fair)
    (rest : ∀ c, (f c).Endures asks fair) : (x >>= f).Endures asks fair := by
  refine Script.Endures.bind h fun r => ?_
  cases r with
  | error e => trivial
  | ok c => exact rest c

theorem Within.endures {x : Operation α β} (h : x.Within asks False) : x.Endures asks fair :=
  Script.Within.endures h

theorem endures_store_bind {call : StoreCall α} {f : call.Answer → Operation α β}
    (asked : asks (.store call))
    (rest : ∀ answer, fair (.store call) (.ok answer) → (f answer).Endures asks fair) :
    (store call >>= f).Endures asks fair := by
  refine ⟨asked, fun answer fine => ?_⟩
  cases answer with
  | error e => trivial
  | ok answer => exact rest answer fine

theorem endures_choose_bind {d : Random.Draw γ} {f : γ → Operation α β} {good : γ → Prop}
    (words : ∀ q, asks (.word q)) (returns : d.Returns good)
    (rest : ∀ c, good c → (f c).Endures asks fair) : (choose d >>= f).Endures asks fair := by
  induction d with
  | done c => exact rest c returns
  | ask q next ih => exact ⟨words q, fun a _ => ih a (returns a)⟩
  | abort => exact returns.elim

end Operation

namespace PriorityClass

variable {α : Type} [Scalar α]

def AreDrawable (classes : List (PriorityClass α)) : Prop :=
  Random.Drawable (Scalar.total ((classes.map contribution).filter Scalar.isWeight))

theorem AreDrawable.pickWeighted_returns {classes : List (PriorityClass α)}
    (drawable : AreDrawable classes) (any : classes ≠ []) :
    (Random.pickWeighted (classes.map contribution)).Returns
      fun winner => winner.getD 0 < classes.length := by
  have picked := Random.pickWeighted_getD_returns (by simpa using any) drawable
  rwa [List.length_map] at picked

end PriorityClass

variable {α : Type} [Scalar α]

/-- A class can be drawn from every answer that lists classes. -/
def Request.IsFair : (q : Request α) → q.Answer → Prop
  | store (.priorityClasses _), (.ok classes : Except StoreError (List (PriorityClass α))) =>
    PriorityClass.AreDrawable classes
  | _, _ => True

theorem Answered.isFair {faulty : Prop} {s t : Store α} {q : Request α} {answer : q.Answer}
    (h : Answered faulty s q answer t) (drawable : s.Drawable) : q.IsFair answer := by
  unfold Request.IsFair
  split
  · cases h with
    | performed effect =>
      cases effect with
      | read => exact drawable.total _
    | elsewhere other => cases other
  · trivial

theorem Answered.weighed {faulty : Prop} {s t : Store α} {q : Request α} {answer : q.Answer}
    {bounds : PriorityBounds α} (h : Answered faulty s q answer t) (weighed : s.Weighed bounds)
    (asked : q.Weighs bounds) : t.Weighed bounds := by
  cases h with
  | performed effect => exact weighed.effect effect asked
  | failed | elsewhere => exact weighed

/-! ### Calls -/

/-- Every clamp has its bounds in order, of priorities and of corrections. -/
structure Broker.Clamps (b : Broker α) : Prop where
  inOrder : b.InOrder
  effective : ∀ submitted, b.policy.bounds.effective? submitted ≠ none

namespace Endurance

open Operation

variable {b : Broker α} {β : Type}

abbrev Endures (b : Broker α) (x : Operation α β) : Prop :=
  x.Endures (Request.Weighs b.policy.bounds) Request.IsFair

theorem endures_of_apart {x : Operation α β} (h : x.Within (fun q => q.isApart = true) False) :
    Endures b x := (Weights.weighs_of_apart h).endures

section Matches

variable (clamps : b.Clamps)
include clamps

theorem endures_of_ordered {x : Operation α β}
    (h : x.Within (fun q => q.isApart = true) (¬ b.InOrder)) : Endures b x :=
  endures_of_apart (h.mono (fun _ => id) fun unordered => unordered clamps.inOrder)

theorem endures_takeFrom (candidate : Candidate α) : Endures b (b.takeFrom candidate) := by
  refine endures_store_bind trivial fun classes fair => ?_
  cases classes with
  | nil =>
    have cleaned := endures_of_ordered clamps (Asking.within_cleanUp candidate)
    exact cleaned.bind fun _ => endures_pure none
  | cons first rest =>
    -- Only here does an end depend on what was answered.
    have drawn := PriorityClass.AreDrawable.pickWeighted_returns fair (List.cons_ne_nil first rest)
    refine endures_choose_bind (fun _ => trivial) drawn fun winner below => ?_
    rw [List.getElem?_eq_getElem below]
    exact endures_store_bind trivial fun batch _ => endures_of_apart (Asking.within_takeAny batch)

theorem endures_takeFirst (candidates : List (Candidate α)) :
    Endures b (b.takeFirst candidates) := by
  induction candidates with
  | nil => exact endures_pure none
  | cons candidate rest ih =>
    refine (endures_takeFrom clamps candidate).bind fun taken => ?_
    cases taken with
    | none => exact ih
    | some job =>
      have cleaned := endures_of_ordered clamps (Asking.within_cleanUpAfter candidate)
      exact cleaned.bind fun _ => endures_pure _

variable [Random.Logarithm α]

theorem endures_extractWithin (f : Filter) (attempts : Nat) :
    Endures b (b.extractWithin f attempts) := by
  induction attempts with
  | zero => exact endures_pure none
  | succ attempts ih =>
    have ranked : Endures b (b.rankedCandidates f) :=
      endures_of_apart (Asking.within_rankedCandidates f)
    refine ranked.bind fun candidates => ?_
    cases candidates with
    | nil => exact endures_pure none
    | cons first rest =>
      refine (endures_takeFirst clamps (first :: rest)).bind fun taken => ?_
      cases taken with
      | none => exact ih
      | some found => exact endures_pure _

theorem endures_takeJob (resource : Capabilities) : Endures b (b.takeJob resource) := by
  unfold Broker.takeJob
  split
  · exact endures_of_apart (Within.bind (within_record rfl) fun _ => within_throw _)
  · refine (endures_extractWithin clamps _ _).bind fun found => ?_
    exact endures_of_apart (Within.bind (within_record rfl) fun _ => within_pure found)

theorem endures_course (call : BrokerCall) : Endures b (b.course call) := by
  by_cases matching : ∃ resource, call = .takeJob resource
  · obtain ⟨resource, rfl⟩ := matching
    exact endures_takeJob clamps resource
  · exact (Weights.weighs_course call clamps.effective (fun unordered => unordered clamps.inOrder)
      fun resource same => matching ⟨resource, same⟩).endures

end Matches

end Endurance

/-! ### Runs -/

structure System.Endures (b : Broker α) (s : System α) : Prop where
  weighed : s.store.Weighed b.policy.bounds
  tasks : ∀ task ∈ s.tasks, task.rest.Endures (Request.Weighs b.policy.bounds) Request.IsFair

variable [Random.Logarithm α] {b : Broker α}

theorem System.Endures.step (clamps : b.Clamps)
    (drawable : ∀ s : Store α, s.Weighed b.policy.bounds → s.Drawable) {s t : System α}
    {move : Move α} (h : s.Endures b) (step : Step b s move t) : t.Endures b := by
  cases step with
  | idle => exact h
  | started call =>
    refine ⟨h.weighed, fun task mem => ?_⟩
    rcases List.mem_append.1 mem with old | new
    · exact h.tasks task old
    · cases List.mem_singleton.1 new
      exact Endurance.endures_course clamps call
  | proceeded waits answered =>
    have here := h.tasks _ (List.mem_of_getElem? waits)
    refine ⟨answered.weighed h.weighed here.1, fun task mem => ?_⟩
    rcases List.mem_or_eq_of_mem_set mem with old | rfl
    · exact h.tasks task old
    · exact here.2 _ (answered.isFair (drawable _ h.weighed))

theorem System.endures_run (clamps : b.Clamps)
    (drawable : ∀ s : Store α, s.Weighed b.policy.bounds → s.Drawable) (moves : List (Move α)) :
    (System.run b moves).Endures b :=
  System.run_induct moves ⟨Store.weighed_empty, by simp⟩
    fun _ _ _ h _ step => h.step clamps drawable step

/-- What every use of a primitive that can fail finds in a state of a run. -/
structure System.Unbroken (b : Broker α) (s : System α) : Prop where
  tasks : ∀ task ∈ s.tasks, task.rest ≠ .abort
  priorities : b.policy.bounds.min ≤ b.policy.bounds.max
  overall : ∀ settings ∈ b.history,
    Scalar.one / settings.maxCorrection ≤ settings.maxCorrection
  windows : ∀ settings ∈ b.history, ∀ w ∈ settings.normalizedWindows,
    Scalar.one / w.maxCorrection ≤ w.maxCorrection
  /-- A roll is only drawn below a weight. -/
  totals : ∀ id : Int, PriorityClass.AreDrawable (s.store.priorityClasses id)
  /-- The class that is drawn is one of those listed. -/
  winners : ∀ id : Int, s.store.priorityClasses id ≠ [] →
    (Random.pickWeighted ((s.store.priorityClasses id).map PriorityClass.contribution)).Returns
      fun winner => winner.getD 0 < (s.store.priorityClasses id).length
  /-- The index that is drawn is a place in the batch. -/
  batches : ∀ batch : List String, batch ≠ [] →
    (Random.Draw.index batch.length).Returns (· < batch.length)

theorem Broker.Validated.clamps {b : Broker Float} (valid : b.Validated) : b.Clamps where
  inOrder := Broker.inOrder_of_checked valid.history
  effective submitted none := by
    obtain ⟨effective, clamped⟩ := PriorityBounds.exists_effective valid.sound.bounds submitted
    rw [clamped] at none
    cases none

/-- With settings that have passed their checks no call is aborted, in any run: whatever calls are
made, whatever the order of their turns, whatever fails, and whatever the random words are. -/
theorem unbroken_run {b : Broker Float} (valid : b.Validated) (moves : List (Move Float)) :
    (System.run b moves).Unbroken b := by
  have drawable (s : Store Float) (weighed : s.Weighed b.policy.bounds) : s.Drawable :=
    weighed.drawable valid.sound.bounds
  have endures := System.endures_run valid.clamps drawable moves
  have totals := (drawable _ endures.weighed).total
  constructor
  · intro task mem aborted
    have here := endures.tasks task mem
    rw [aborted] at here
    exact here
  · have bounds := valid.sound.bounds
    simp only [PriorityBounds.isValid, Bool.and_eq_true, decide_eq_true_eq] at bounds
    exact Double.le_of_lt bounds.2
  · exact fun settings mem => (valid.clamps.inOrder settings mem).overall
  · exact fun settings mem => (valid.clamps.inOrder settings mem).normalized
  · exact totals
  · exact fun id any => PriorityClass.AreDrawable.pickWeighted_returns (totals id) any
  · exact fun batch any => Random.index_returns (mt List.length_eq_zero_iff.1 any)

namespace Endurance

def insertions : List (Move Float) :=
  let requirements : Requirements :=
    ⟨some "alice", some "users", some "prod", some 700, .ofFn fun _ => none⟩
  .start (.insert "j1" requirements 3) :: Move.turns 0 8 ++
    .start (.insert "j2" requirements 5) :: Move.turns 1 5

def moves : List (Move Float) :=
  insertions ++ .start (.takeJob { site := some "here" }) :: .start .sweep ::
    .start (.reprioritize [("j1", 7)]) :: Move.turns 2 4 ++ Move.turns 3 2 ++
    .proceed 4 (some (.queryFailed "gone")) Request.unanswered :: Move.turns 2 5

end Endurance

theorem unbroken_run_standard :
    Broker.standard.Validated ∧
      (((System.run .standard Endurance.insertions).store.priorityClasses 1).length = 2 ∧
        (System.run .standard Endurance.insertions).store.jobs.keys = ["j1", "j2"] ∧
        (System.run .standard Endurance.moves).store.jobs.keys = ["j2"]) ∧
      (System.run .standard Endurance.insertions).Unbroken .standard ∧
      (System.run .standard Endurance.moves).Unbroken .standard := by
  refine ⟨Broker.validated_standard, ?_, unbroken_run Broker.validated_standard _,
    unbroken_run Broker.validated_standard _⟩
  decide +kernel

end Matchmaker
