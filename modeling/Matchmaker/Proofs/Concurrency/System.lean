import Matchmaker.Broker.Bulk
import Matchmaker.Broker.Insert
import Matchmaker.Broker.Match
import Matchmaker.Broker.Sweep
import Matchmaker.Broker.World
import Matchmaker.Proofs.Script.Protocol
import Matchmaker.Proofs.Settings.Policy
import Matchmaker.Proofs.Store.Consistency

/-!
Any number of calls to a broker over one store, in turns of one question each. A call to the store
is atomic and may be made to fail; every other question may be answered in any way. A system is all
that is under way, together with a history of what was asked and answered.
-/
namespace Matchmaker

inductive BrokerCall where
  | insert (job : String) (requirements : Requirements) (submitted : Int)
  | takeJob (resource : Capabilities)
  | candidates (resource : Capabilities)
  | delete (jobs : List String)
  | reprioritize (updates : List (String × Int))
  | recalculate (group : String)
  | recalculateAll
  | clean
  | refreshShares
  | refreshHistory
  | sweep

def BrokerCall.Result (α : Type) : BrokerCall → Type
  | insert _ _ _ => Int
  | takeJob _ => Option MatchedJob
  | candidates _ => List (Candidate α)
  | delete _ => DeleteReport
  | reprioritize _ => PriorityReport
  | recalculate _ => Nat
  | recalculateAll => Nat
  | clean => List Int
  | refreshShares => Bool
  | refreshHistory => Option Bool
  | sweep => Bool

variable {α : Type} [Scalar α] [Random.Logarithm α]

def Broker.course (b : Broker α) : (call : BrokerCall) → Operation α (call.Result α)
  | .insert job requirements submitted => b.insert job requirements submitted
  | .takeJob resource => b.takeJob resource
  | .candidates resource => b.candidates resource
  | .delete jobs => b.delete jobs
  | .reprioritize updates => b.reprioritize updates
  | .recalculate group => b.recalculate group
  | .recalculateAll => b.recalculateAll
  | .clean => b.clean
  | .refreshShares => Broker.refreshShares
  | .refreshHistory => b.refreshHistory
  | .sweep => b.sweep

/-- A call under way: what is left of its course. -/
structure Task (α : Type) where
  call : BrokerCall
  rest : Course α (Except BrokerError (call.Result α))

/-- A question of a task with its answer, and the store before and after. -/
structure Entry (α : Type) where
  task : Nat
  question : Request α
  answer : question.Answer
  before : Store α
  after : Store α

structure System (α : Type) where
  store : Store α := {}
  tasks : List (Task α) := []
  history : List (Entry α) := []

/-- A turn. A task that proceeds has its question answered: the store fails as `fault` says, and
`others` answers what is not for the store. -/
inductive Move (α : Type) where
  | start (call : BrokerCall)
  | proceed (task : Nat) (fault : Option StoreError) (others : (q : Request α) → q.Answer)

def Move.isFaultless : Move α → Bool
  | start _ => true
  | proceed _ fault _ => fault.isNone

def Request.call? : Request α → Option (StoreCall α)
  | store call => some call
  | _ => none

namespace System

def respond (fault : Option StoreError) (others : (q : Request α) → q.Answer) (s : Store α) :
    (q : Request α) → q.Answer × Store α
  | .store call =>
    match fault with
    | some e => (.error e, s)
    | none => s.perform call
  | q => (others q, s)

def step (b : Broker α) (s : System α) : Move α → System α
  | .start call => { s with tasks := s.tasks ++ [⟨call, (b.course call).run⟩] }
  | .proceed i fault others =>
    match s.tasks[i]? with
    | some ⟨call, .ask q next⟩ =>
      let (answer, store) := respond fault others s.store q
      ⟨store, s.tasks.set i ⟨call, next answer⟩, s.history ++ [⟨i, q, answer, s.store, store⟩]⟩
    | _ => s

def run (b : Broker α) (moves : List (Move α)) : System α := moves.foldl (step b) {}

/-- A run that starts with what is in a store. -/
def runOn (b : Broker α) (store : Store α) (moves : List (Move α)) : System α :=
  moves.foldl (step b) { store }

end System

/-! ### Turns -/

section Answers

omit [Random.Logarithm α]

/-- How a question may be answered, and the store after it. -/
inductive Answered (faulty : Prop) (s : Store α) : (q : Request α) → q.Answer → Store α → Prop where
  | performed {call : StoreCall α} {answer : Except StoreError call.Answer} {t : Store α}
      (effect : s.Effect call answer t) : Answered faulty s (.store call) answer t
  | failed (call : StoreCall α) (e : StoreError) (fault : faulty) :
      Answered faulty s (.store call) (Except.error e) s
  | elsewhere {q : Request α} (other : q.call? = none) (answer : q.Answer) :
      Answered faulty s q answer s

theorem answered_respond (fault : Option StoreError) (others : (q : Request α) → q.Answer)
    (s : Store α) (q : Request α) :
    Answered (fault ≠ none) s q (System.respond fault others s q).1
      (System.respond fault others s q).2 := by
  cases q with
  | store call =>
    cases fault with
    | none => exact .performed (s.effect_perform call)
    | some e => exact .failed call e nofun
  | _ => exact .elsewhere rfl _

theorem Answered.mono {faulty faulty' : Prop} {s t : Store α} {q : Request α} {answer : q.Answer}
    (h : Answered faulty s q answer t) (freer : faulty → faulty') :
    Answered faulty' s q answer t := by
  cases h with
  | performed effect => exact .performed effect
  | failed call e fault => exact .failed call e (freer fault)
  | elsewhere other => exact .elsewhere other _

theorem Answered.consistent {faulty : Prop} {s t : Store α} {q : Request α} {answer : q.Answer}
    (h : Answered faulty s q answer t) (consistent : s.Consistent) : t.Consistent := by
  cases h with
  | performed effect => exact effect.consistent consistent
  | failed | elsewhere => exact consistent

end Answers

inductive Step (b : Broker α) (s : System α) : Move α → System α → Prop where
  | idle (move : Move α) : Step b s move s
  | started (call : BrokerCall) :
      Step b s (.start call) { s with tasks := s.tasks ++ [⟨call, (b.course call).run⟩] }
  | proceeded {i : Nat} {fault : Option StoreError} {others : (q : Request α) → q.Answer}
      {call : BrokerCall} {q : Request α}
      {next : q.Answer → Course α (Except BrokerError (call.Result α))} {answer : q.Answer}
      {t : Store α} (waits : s.tasks[i]? = some ⟨call, .ask q next⟩)
      (answered : Answered (fault ≠ none) s.store q answer t) :
      Step b s (.proceed i fault others)
        ⟨t, s.tasks.set i ⟨call, next answer⟩, s.history ++ [⟨i, q, answer, s.store, t⟩]⟩

theorem step_step (b : Broker α) (s : System α) (move : Move α) : Step b s move (s.step b move) := by
  cases move with
  | start call => exact .started call
  | proceed i fault others =>
    simp only [System.step]
    split
    · rename_i call q next waits
      exact .proceeded waits (answered_respond fault others s.store q)
    · exact .idle _

/-- What holds at first and after each turn holds of every run. -/
theorem System.runOn_induct {b : Broker α} {store : Store α} {motive : System α → Prop}
    (moves : List (Move α)) (init : motive { store })
    (step : ∀ s move t, motive s → move ∈ moves → Step b s move t → motive t) :
    motive (runOn b store moves) :=
  List.foldlRecOn moves (System.step b) init fun s holds move mem =>
    step s move _ holds mem (step_step b s move)

theorem System.run_induct {b : Broker α} {motive : System α → Prop} (moves : List (Move α))
    (init : motive {})
    (step : ∀ s move t, motive s → move ∈ moves → Step b s move t → motive t) :
    motive (run b moves) := runOn_induct moves init step

/-! ### Traces -/

section Traces

omit [Random.Logarithm α]

/-- The entries lead from one store to another. -/
inductive Trace (faulty : Prop) : Store α → List (Entry α) → Store α → Prop where
  | nil (s : Store α) : Trace faulty s [] s
  | cons {e : Entry α} {rest : List (Entry α)} {t : Store α}
      (answered : Answered faulty e.before e.question e.answer e.after)
      (later : Trace faulty e.after rest t) : Trace faulty e.before (e :: rest) t

omit [Scalar α] in
theorem mem_between {h : List (Entry α)} {k l : Nat} {e : Entry α}
    (mem : e ∈ (h.drop (k + 1)).take (l - (k + 1))) : ∃ j, k < j ∧ j < l ∧ h[j]? = some e := by
  obtain ⟨j, found⟩ := List.mem_iff_getElem?.1 mem
  rw [List.getElem?_take] at found
  split at found
  · rw [List.getElem?_drop] at found
    exact ⟨k + 1 + j, by omega, by omega, found⟩
  · cases found

namespace Trace

variable {faulty : Prop} {s t : Store α}

theorem append {h h' : List (Entry α)} {u : Store α} (first : Trace faulty s h u)
    (second : Trace faulty u h' t) : Trace faulty s (h ++ h') t := by
  induction first with
  | nil => exact second
  | cons answered _ ih => exact .cons answered (ih second)

theorem split {h h' : List (Entry α)} (trace : Trace faulty s (h ++ h') t) :
    ∃ u, Trace faulty s h u ∧ Trace faulty u h' t := by
  induction h generalizing s with
  | nil => exact ⟨s, .nil s, trace⟩
  | cons e rest ih =>
    cases trace with
    | cons answered later =>
      obtain ⟨u, first, second⟩ := ih later
      exact ⟨u, .cons answered first, second⟩

theorem split_cons {h h' : List (Entry α)} {e : Entry α} (trace : Trace faulty s (h ++ e :: h') t) :
    Trace faulty s h e.before ∧ Answered faulty e.before e.question e.answer e.after ∧
      Trace faulty e.after h' t := by
  obtain ⟨u, first, second⟩ := trace.split
  cases second with
  | cons answered later => exact ⟨first, answered, later⟩

theorem through {h : List (Entry α)} (trace : Trace faulty s h t) {k : Nat} {e : Entry α}
    (here : h[k]? = some e) :
    Trace faulty s (h.take k) e.before ∧ Answered faulty e.before e.question e.answer e.after ∧
      Trace faulty e.after (h.drop (k + 1)) t := by
  obtain ⟨bound, same⟩ := List.getElem?_eq_some_iff.1 here
  rw [← List.take_append_drop k h, List.drop_eq_getElem_cons bound, same] at trace
  exact trace.split_cons

theorem between {h : List (Entry α)} (trace : Trace faulty s h t) {k l : Nat} {e f : Entry α}
    (here : h[k]? = some e) (there : h[l]? = some f) (order : k < l) :
    Trace faulty e.after ((h.drop (k + 1)).take (l - (k + 1))) f.before := by
  have shifted : (h.drop (k + 1))[l - (k + 1)]? = some f := by
    rw [List.getElem?_drop, Nat.add_sub_cancel' order]
    exact there
  exact ((trace.through here).2.2.through shifted).1

theorem consistent {h : List (Entry α)} (trace : Trace faulty s h t) (c : s.Consistent) :
    t.Consistent := by
  induction trace with
  | nil => exact c
  | cons answered _ ih => exact ih (answered.consistent c)

end Trace

end Traces

namespace System

variable (b : Broker α) (moves : List (Move α))

theorem trace_run {faulty : Prop} (h : ∀ move ∈ moves, move.isFaultless = false → faulty) :
    Trace faulty {} (run b moves).history (run b moves).store := by
  refine run_induct (motive := fun s => Trace faulty {} s.history s.store) moves (.nil _) ?_
  intro s move t trace mem step
  cases step with
  | idle => exact trace
  | started => exact trace
  | @proceeded i fault _ _ _ _ _ _ _ answered =>
    refine trace.append (.cons (e := ⟨_, _, _, _, _⟩) (answered.mono fun fails => ?_) (.nil _))
    cases fault with
    | none => exact absurd rfl fails
    | some e => exact h _ mem rfl

theorem consistent_run : (run b moves).store.Consistent :=
  (trace_run b moves fun _ _ _ => trivial).consistent Store.consistent_empty

end System

/-! ### Rules -/

/-- Rules for all calls to a broker. The state of a task is that of its call. -/
structure Rules (σ α : Type) where
  start : σ
  allows : BrokerCall → σ → Request α → Prop
  next : σ → (q : Request α) → q.Answer → σ
  ends : (call : BrokerCall) → σ → Option (Except BrokerError (call.Result α)) → Prop

namespace Rules

variable {σ : Type} (R : Rules σ α)

def protocol (call : BrokerCall) : Protocol σ (Request α) Request.Answer :=
  ⟨R.allows call, R.next⟩

def KeptBy (b : Broker α) : Prop :=
  ∀ call, (b.course call).Keeps (R.protocol call) (R.ends call) R.start

def after (i : Nat) (history : List (Entry α)) : σ :=
  history.foldl (fun g e => if e.task = i then R.next g e.question e.answer else g) R.start

omit [Scalar α] [Random.Logarithm α] in
theorem after_concat (i : Nat) (history : List (Entry α)) (e : Entry α) :
    R.after i (history ++ [e]) =
      if e.task = i then R.next (R.after i history) e.question e.answer
      else R.after i history := by
  rw [after, List.foldl_append]
  rfl

omit [Scalar α] [Random.Logarithm α] in
theorem after_eq (i : Nat) (history : List (Entry α)) :
    R.after i history =
      (history.filter (·.task = i)).foldl (fun g e => R.next g e.question e.answer) R.start :=
  List.foldl_ite_left

omit [Scalar α] [Random.Logarithm α] in
theorem after_of_unused {i : Nat} {history : List (Entry α)} (h : ∀ e ∈ history, e.task ≠ i) :
    R.after i history = R.start := by
  have none : history.filter (·.task = i) = [] := by simpa using h
  rw [after_eq, none]
  rfl

omit [Scalar α] [Random.Logarithm α] in
/-- The tasks of a system keep the rules: what they asked was allowed, and what is left of them
keeps the rules from here. -/
structure Followed (s : System α) : Prop where
  known : ∀ e ∈ s.history, e.task < s.tasks.length
  kept : ∀ (i : Nat) (task : Task α), s.tasks[i]? = some task →
    task.rest.Keeps (R.protocol task.call) (R.ends task.call) (R.after i s.history)
  allowed : ∀ (n : Nat) (e : Entry α), s.history[n]? = some e →
    ∃ task, s.tasks[e.task]? = some task ∧
      R.allows task.call (R.after e.task (s.history.take n)) e.question

variable {R} {b : Broker α} {s : System α}

omit [Scalar α] [Random.Logarithm α] in
theorem followed_init {store : Store α} : R.Followed ({ store } : System α) where
  known e mem := by cases mem
  kept i task found := by simp at found
  allowed n e found := by simp at found

theorem Followed.started (kept : R.KeptBy b) (followed : R.Followed s) (call : BrokerCall) :
    R.Followed { s with tasks := s.tasks ++ [⟨call, (b.course call).run⟩] } where
  known e mem := by
    have bound := followed.known e mem
    rw [List.length_append]
    exact Nat.lt_add_right _ bound
  kept i task found := by
    rw [List.getElem?_append] at found
    by_cases old : i < s.tasks.length
    · rw [if_pos old] at found
      exact followed.kept i task found
    · rw [if_neg old, List.getElem?_singleton] at found
      have fresh : R.after i s.history = R.start := by
        refine R.after_of_unused fun e mem same => old ?_
        exact same ▸ followed.known e mem
      rw [fresh]
      split at found
      · cases found
        exact kept call
      · cases found
  allowed n e asked := by
    obtain ⟨task, found, allowed⟩ := followed.allowed n e asked
    have old : e.task < s.tasks.length := (List.getElem?_eq_some_iff.1 found).1
    exact ⟨task, (List.getElem?_append_left old).trans found, allowed⟩

omit [Scalar α] [Random.Logarithm α] in
theorem Followed.proceeded {i : Nat} {call : BrokerCall} {q : Request α}
    {next : q.Answer → Course α (Except BrokerError (call.Result α))}
    (followed : R.Followed s) (waits : s.tasks[i]? = some ⟨call, .ask q next⟩) (answer : q.Answer)
    (t : Store α) :
    R.Followed ⟨t, s.tasks.set i ⟨call, next answer⟩,
      s.history ++ [⟨i, q, answer, s.store, t⟩]⟩ := by
  obtain ⟨allowed, kept⟩ := followed.kept i _ waits
  have bound : i < s.tasks.length := (List.getElem?_eq_some_iff.1 waits).1
  constructor
  · intro e mem
    rw [List.length_set]
    rcases List.mem_append.1 mem with old | new
    · exact followed.known e old
    · cases List.mem_singleton.1 new
      exact bound
  · intro j task found
    rw [after_concat]
    by_cases same : i = j
    · subst same
      rw [List.getElem?_set_self bound] at found
      cases found
      rw [if_pos rfl]
      exact kept answer
    · rw [List.getElem?_set_ne same] at found
      rw [if_neg same]
      exact followed.kept j task found
  · intro n e asked
    have calls (j : Nat) (task : Task α) (found : s.tasks[j]? = some task) :
        ∃ task', (s.tasks.set i ⟨call, next answer⟩)[j]? = some task' ∧
          task'.call = task.call := by
      by_cases own : i = j
      · subst own
        rw [waits] at found
        cases found
        exact ⟨_, List.getElem?_set_self bound, rfl⟩
      · exact ⟨task, (List.getElem?_set_ne own).trans found, rfl⟩
    by_cases old : n < s.history.length
    · rw [List.getElem?_append_left old] at asked
      obtain ⟨task, found, fine⟩ := followed.allowed n e asked
      obtain ⟨task', found', sameCall⟩ := calls e.task task found
      refine ⟨task', found', ?_⟩
      rw [sameCall, List.take_append_of_le_length (Nat.le_of_lt old)]
      exact fine
    · rw [List.getElem?_append_right (Nat.le_of_not_lt old), List.getElem?_singleton] at asked
      split at asked
      · cases asked
        obtain ⟨task', found', sameCall⟩ := calls i _ waits
        refine ⟨task', found', ?_⟩
        rw [sameCall, List.take_append_of_le_length (by omega), List.take_of_length_le (by omega)]
        exact allowed
      · cases asked

omit [Scalar α] [Random.Logarithm α] in
theorem Followed.after_induct (followed : R.Followed s) {i : Nat} {task : Task α}
    (found : s.tasks[i]? = some task) {motive : σ → Prop} (start : motive R.start)
    (step : ∀ g q a, motive g → R.allows task.call g q → motive (R.next g q a)) :
    motive (R.after i s.history) := by
  have prefixes (n : Nat) : motive (R.after i (s.history.take n)) := by
    induction n with
    | zero => exact start
    | succ n ih =>
      rw [List.take_add_one]
      cases asked : s.history[n]? with
      | none => simpa using ih
      | some e =>
        rw [Option.toList_some, after_concat]
        split
        · rename_i own
          obtain ⟨task', found', allowed⟩ := followed.allowed n e asked
          rw [own] at found' allowed
          rw [found] at found'
          cases found'
          exact step _ _ _ ih allowed
        · exact ih
  have whole := prefixes s.history.length
  rwa [List.take_length] at whole

/-- In every run the tasks keep the rules that their calls keep. -/
theorem followed_runOn (kept : R.KeptBy b) (store : Store α) (moves : List (Move α)) :
    R.Followed (System.runOn b store moves) := by
  refine System.runOn_induct moves followed_init fun s move t followed _ step => ?_
  cases step with
  | idle => exact followed
  | started call => exact followed.started kept call
  | proceeded waits => exact followed.proceeded waits _ _

theorem followed_run (kept : R.KeptBy b) (moves : List (Move α)) :
    R.Followed (System.run b moves) := followed_runOn kept {} moves

end Rules

/-! ### A broker to run -/

/-- Answers when no collaborator can be reached and all random words are zero. -/
def Request.unanswered : (q : Request α) → q.Answer
  | store _ => .error (.connectionFailed "no answer")
  | reloadShares => .error .unreadable
  | listedGroups => .error .unreadable
  | groupSettings _ => .error .unreadable
  | usage _ _ => .error .unreadable
  | booked _ => none
  | bookedGroups => []
  | book _ => false
  | held _ => []
  | groupings => []
  | isDue _ _ => false
  | hold _ _ _ => ()
  | word .word32 => (0 : UInt32)
  | word .word64 => (0 : UInt64)
  | record _ => ()

def Move.turns (task count : Nat) : List (Move α) :=
  List.replicate count (.proceed task none Request.unanswered)

def Broker.standard : Broker Float where
  policy := {
    segments := .standard
    bounds := Settings.standard.bounds
    initialPriority := Settings.standard.initialPriority
    insertAttempts := 10
    matchAttempts := 3
    candidateLimit := 10
    batchSize := 10
    privateTypes := .ofList ["private"]
    minShare := Settings.standard.minShare
    backgroundThreshold := Settings.standard.backgroundThreshold }
  history := some .standard

theorem Broker.policy_standard : Settings.standard.policy = .ok Broker.standard.policy := rfl

theorem Broker.checked_standard : ∀ settings ∈ Broker.standard.history, settings.fault? = none := by
  have fine : (HistorySettings.standard : HistorySettings Float).fault? = none := by
    decide +kernel
  rintro settings mem
  cases mem
  exact fine

theorem Broker.validated_standard : Broker.standard.Validated :=
  ⟨⟨_, policy_standard⟩, checked_standard⟩

end Matchmaker
