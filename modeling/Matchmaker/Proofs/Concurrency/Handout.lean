import Matchmaker.Proofs.Broker.Selection
import Matchmaker.Proofs.Concurrency.Conservation
import Matchmaker.Proofs.Store.Sight

/-!
Which queue a job is handed out for. A match names the queue in which it saw the job. Before it
removes the job, others may remove it and add it elsewhere, and the match does not look at where the
job was: the queue is the right one exactly when the job was not last added to another one meanwhile.
-/
namespace Matchmaker

variable {α : Type}

/-! ### Where a job is -/

def Request.addedTo? (job : String) : (q : Request α) → q.Answer → Option Int
  | store call, answer => call.addedTo? job answer
  | _, _ => none

def lastAddedTo? (job : String) : List (Entry α) → Option Int
  | [] => none
  | e :: rest => (lastAddedTo? job rest).or (e.question.addedTo? job e.answer)

section Answers

variable [Scalar α] {faulty : Prop} {s t : Store α}

namespace Answered

variable {q : Request α} {answer : q.Answer}

theorem defines (h : Answered faulty s q answer t) {id : Int} {d : Definition}
    (defines : s.Defines id d) : t.Defines id d := by
  cases h with
  | performed effect => exact effect.defines defines
  | failed | elsewhere => exact defines

theorem home? (h : Answered faulty s q answer t) {job : String} {id : Int}
    (there : t.home? job = some id) :
    q.addedTo? job answer = some id ∨ q.addedTo? job answer = none ∧ s.home? job = some id := by
  cases h with
  | performed effect => exact effect.home? there
  | failed call e fault => exact .inr ⟨call.addedTo?_of_error job e, there⟩
  | elsewhere other =>
    have none : q.addedTo? job answer = none := by cases q <;> first | rfl | cases other
    exact .inr ⟨none, there⟩

theorem of_reads {call : StoreCall α} {answer : Except StoreError call.Answer} {a : call.Answer}
    (h : Answered faulty s (.store call) answer t) (reads : call.reads = true)
    (shown : answer = .ok a) : (s.perform call).1 = .ok a ∧ t = s := by
  cases h with
  | performed effect =>
    cases effect with
    | read => exact ⟨shown, rfl⟩
    | _ => cases reads
  | failed => cases shown
  | elsewhere other => cases other

theorem home?_of_removed {job : String} {answer : Except StoreError (Option Int)} {home : Int}
    (h : Answered faulty s (.store (.removeJob job)) answer t) (shown : answer = .ok (some home)) :
    s.home? job = some home := by
  cases h with
  | performed effect =>
    cases effect with
    | read reads => cases reads
    | removed job record stored =>
      cases shown
      rw [Store.home?, stored, Option.map_some]
    | missing => cases shown
  | failed => cases shown
  | elsewhere other => cases other

end Answered

namespace Trace

variable {h : List (Entry α)}

theorem defines (trace : Trace faulty s h t) {id : Int} {d : Definition}
    (defines : s.Defines id d) : t.Defines id d := by
  induction trace with
  | nil => exact defines
  | cons answered _ ih => exact ih (answered.defines defines)

theorem home? (trace : Trace faulty s h t) {job : String} {id : Int}
    (there : t.home? job = some id) :
    lastAddedTo? job h = some id ∨ lastAddedTo? job h = none ∧ s.home? job = some id := by
  induction trace with
  | nil => exact .inr ⟨rfl, there⟩
  | cons answered _ ih =>
    rw [lastAddedTo?]
    rcases ih there with added | ⟨none, before⟩
    · rw [added]
      exact .inl rfl
    · rw [none]
      exact answered.home? before

end Trace

end Answers

/-! ### What a task asked -/

def Entry.exchange (e : Entry α) : Exchange α := ⟨e.question, e.answer⟩

def askedBy (i : Nat) (history : List (Entry α)) : List (Exchange α) :=
  (history.filter (·.task = i)).map Entry.exchange

theorem askedBy_cons (i : Nat) (e : Entry α) (rest : List (Entry α)) :
    askedBy i (e :: rest) =
      if e.task = i then e.exchange :: askedBy i rest else askedBy i rest := by
  by_cases own : e.task = i
  · simp [askedBy, own]
  · simp [askedBy, own]

theorem exists_split_of_asked {i : Nat} {x : Exchange α} {later : List (Exchange α)}
    {history : List (Entry α)} (asked : (x :: later).Sublist (askedBy i history)) :
    ∃ first e rest, history = first ++ e :: rest ∧ e.task = i ∧
      e.exchange = x ∧ later.Sublist (askedBy i rest) := by
  induction history with
  | nil => cases asked
  | cons e rest ih =>
    rw [askedBy_cons] at asked
    have skip (there : (x :: later).Sublist (askedBy i rest)) :
        ∃ first e' rest', e :: rest = first ++ e' :: rest' ∧ e'.task = i ∧
          e'.exchange = x ∧ later.Sublist (askedBy i rest') := by
      obtain ⟨first, e', rest', same, own, shown, kept⟩ := ih there
      exact ⟨e :: first, e', rest', congrArg (e :: ·) same, own, shown, kept⟩
    by_cases own : e.task = i
    · rw [if_pos own] at asked
      cases asked with
      | cons _ there => exact skip there
      | cons_cons _ there => exact ⟨[], e, rest, rfl, own, rfl, there⟩
    · rw [if_neg own] at asked
      exact skip asked

/-- A match has asked for what it hands out. -/
def transcriptRules (b : Broker α) : Rules (List (Exchange α)) α where
  start := []
  allows _ := Protocol.transcript.allows
  next := Protocol.transcript.next
  ends
    | .takeJob c, exchanges, r => ∀ m, r = some (.ok (some m)) →
        ∃ f, b.filterFor c = .ok f ∧ Selection.Selected f exchanges m
    | _, _, _ => True

attribute [local irreducible] Broker.definitionFor in
theorem transcriptRules_keptBy [Scalar α] [Random.Logarithm α] (b : Broker α) : (transcriptRules b).KeptBy b := by
  intro call
  cases call with
  | takeJob c =>
    exact Script.Keeps.mono (Selection.shows_takeJob c) fun _ r shown m same => shown _ same m rfl
  | _ => exact Script.Keeps.mono (Script.Keeps.transcript (List.nil_sublist _) _) fun _ _ _ => trivial

theorem Rules.after_eq_askedBy {R : Rules (List (Exchange α)) α} (start : R.start = [])
    (next : R.next = Protocol.transcript.next) (i : Nat) (history : List (Entry α)) :
    R.after i history = askedBy i history := by
  rw [Rules.after_eq, start, next, askedBy, List.map_eq_flatMap, List.flatMap_eq_foldl]
  rfl

theorem after_transcriptRules (b : Broker α) (i : Nat) (history : List (Entry α)) :
    (transcriptRules b).after i history = askedBy i history := Rules.after_eq_askedBy rfl rfl i history

/-! ### Handing out -/

/-- The job of a match is in the queue that the match names, which the filter admits and whose owner
is the one named. -/
def Rightful (f : Filter) (m : MatchedJob) (s : Store α) : Prop :=
  ∃ d, s.HasJob m.queue d m.job ∧ f.admits d = true ∧
    m.ownerIdentity = d.ownerIdentity ∧ m.ownerGroup = d.ownerGroup

/-- A match handed out a job after it listed the queue, saw the job in it and removed the job. The
queue was fit and is named with its owner; the job was still there unless it was last added to
another queue between the sight and the removal. -/
structure Handout (f : Filter) (m : MatchedJob) (listing sight removal : Entry α)
    (between : List (Entry α)) : Prop where
  listed : ∃ q, listing.before.queues[m.queue]? = some q ∧
    removal.before.Defines m.queue q.definition ∧ f.admits q.definition = true ∧
    m.ownerIdentity = q.definition.ownerIdentity ∧ m.ownerGroup = q.definition.ownerGroup
  seen : Rightful f m sight.before
  removed : removal.removed? = some m.job
  rightful_iff : Rightful f m removal.before ↔
    ∀ id, lastAddedTo? m.job between = some id → id = m.queue

def HandsOut (b : Broker α) (s : System α) : Prop :=
  ∀ (i : Nat) (c : Capabilities) (m : MatchedJob),
    s.tasks[i]? = some ⟨.takeJob c, .done (.ok (some m))⟩ →
      ∃ f first listing early sight between removal last,
        b.filterFor c = .ok f ∧
        s.history = first ++ listing :: (early ++ sight :: (between ++ removal :: last)) ∧
        (listing.task = i ∧ sight.task = i ∧ removal.task = i) ∧
        Handout f m listing sight removal between

theorem rightful_iff {f : Filter} {m : MatchedJob} {s : Store α} {d : Definition}
    (consistent : s.Consistent) (defines : s.Defines m.queue d) (admitted : f.admits d = true)
    (owner : m.ownerIdentity = d.ownerIdentity ∧ m.ownerGroup = d.ownerGroup) :
    Rightful f m s ↔ s.home? m.job = some m.queue := by
  rw [← Store.hasJob_iff defines m.job consistent]
  constructor
  · rintro ⟨d', ⟨q, found, -, stored⟩, -⟩
    exact ⟨q, found, defines.2 q found, stored⟩
  · intro here
    exact ⟨d, here, admitted, owner⟩

section Entries

variable [Scalar α] {faulty : Prop} {e : Entry α}
  (h : Answered faulty e.before e.question e.answer e.after)

include h

theorem Answered.of_listing {f : Filter} {found : List (Candidate α)}
    (asked : e.exchange = Exchange.listing f found) :
    found = e.before.matching f ∧ e.after = e.before := by
  obtain ⟨task, question, answer, before, after⟩ := e
  cases asked
  obtain ⟨shown, same⟩ := h.of_reads rfl rfl
  exact ⟨(Except.ok.inj shown).symm, same⟩

theorem Answered.of_sight {id : Int} {priority : α} {limit : Nat} {batch : List String}
    (asked : e.exchange = Exchange.sight id priority limit batch) :
    batch = e.before.jobsWithPriority id priority limit ∧ e.after = e.before := by
  obtain ⟨task, question, answer, before, after⟩ := e
  cases asked
  obtain ⟨shown, same⟩ := h.of_reads rfl rfl
  exact ⟨(Except.ok.inj shown).symm, same⟩

theorem Answered.of_removal {job : String} {home : Int}
    (asked : e.exchange = Exchange.removal job home) :
    e.removed? = some job ∧ e.before.home? job = some home := by
  obtain ⟨task, question, answer, before, after⟩ := e
  cases asked
  refine ⟨rfl, ?_⟩
  exact h.home?_of_removed rfl

end Entries

section Runs

variable [Scalar α]

/-- What the three exchanges tell of the store. -/
theorem Trace.handout {faulty : Prop} {s t : Store α} {first early between last : List (Entry α)}
    {listing sight removal : Entry α}
    (trace : Trace faulty s
      (first ++ listing :: (early ++ sight :: (between ++ removal :: last))) t)
    (consistent : s.Consistent) {f : Filter} {m : MatchedJob} {found : List (Candidate α)}
    {candidate : Candidate α} {priority : α} {limit : Nat} {batch : List String} {home : Int}
    (listed : candidate ∈ found)
    (named : m = ⟨m.job, candidate.queue, candidate.ownerIdentity, candidate.ownerGroup⟩)
    (mem : m.job ∈ batch) (shown : listing.exchange = Exchange.listing f found)
    (seen : sight.exchange = Exchange.sight m.queue priority limit batch)
    (taken : removal.exchange = Exchange.removal m.job home) :
    Handout f m listing sight removal between := by
  obtain ⟨job, queue, ownerIdentity, ownerGroup⟩ := m
  cases named
  obtain ⟨toListing, atListing, trace⟩ := trace.split_cons
  obtain ⟨toSight, atSight, trace⟩ := trace.split_cons
  obtain ⟨toRemoval, atRemoval, -⟩ := trace.split_cons
  obtain ⟨rfl, listingKept⟩ := atListing.of_listing shown
  obtain ⟨rfl, sightKept⟩ := atSight.of_sight seen
  obtain ⟨removed, stored⟩ := atRemoval.of_removal taken
  obtain ⟨q, there, admitted, owner⟩ := Store.exists_of_mem_matching listed
  have fineListing : listing.before.Consistent := toListing.consistent consistent
  have fineSight : sight.before.Consistent := toSight.consistent (listingKept ▸ fineListing)
  have fineRemoval : removal.before.Consistent := toRemoval.consistent (sightKept ▸ fineSight)
  -- What was listed is carried to the removal by numbers of queues, where the job is only by what
  -- is added on the way.
  have definesSight : sight.before.Defines candidate.queue q.definition :=
    toSight.defines (listingKept ▸ fineListing.defines there)
  have definesRemoval : removal.before.Defines candidate.queue q.definition :=
    toRemoval.defines (sightKept ▸ definesSight)
  have homeSight : sight.before.home? job = some candidate.queue :=
    Store.home?_of_mem_jobsWithPriority mem fineSight
  have moved := toRemoval.home? stored
  rw [sightKept, homeSight] at moved
  refine ⟨⟨q, there, definesRemoval, admitted, owner⟩,
    (rightful_iff fineSight definesSight admitted owner).2 homeSight, removed, ?_⟩
  rw [rightful_iff fineRemoval definesRemoval admitted owner, stored]
  rcases moved with added | ⟨none, same⟩
  · rw [added]
    simp
  · rw [none, same]
    simp

variable [Random.Logarithm α]

theorem handsOut_run (b : Broker α) (moves : List (Move α)) : HandsOut b (System.run b moves) := by
  intro i c m found
  have trace : Trace True {} (System.run b moves).history (System.run b moves).store :=
    System.trace_run b moves fun _ _ _ => trivial
  have kept := (Rules.followed_run (transcriptRules_keptBy b) moves).kept i _ found
  rw [after_transcriptRules] at kept
  obtain ⟨f, filter, found, candidate, listed, priority, limit, batch, home, named, mem, asked⟩ :=
    kept m rfl
  obtain ⟨first, listing, rest, history, ownListing, shown, asked⟩ := exists_split_of_asked asked
  obtain ⟨early, sight, rest, rfl, ownSight, seen, asked⟩ := exists_split_of_asked asked
  obtain ⟨between, removal, last, rfl, ownRemoval, removed, -⟩ := exists_split_of_asked asked
  rw [history] at trace
  exact ⟨f, first, listing, early, sight, between, removal, last, filter, history,
    ⟨ownListing, ownSight, ownRemoval⟩,
    trace.handout Store.consistent_empty listed named mem shown seen removed⟩

end Runs

/-! ### A job added again -/

/-- Every job is handed out for the queue that it is removed from. -/
def HandsOutRightly (b : Broker α) (s : System α) : Prop :=
  ∀ (i : Nat) (c : Capabilities) (m : MatchedJob),
    s.tasks[i]? = some ⟨.takeJob c, .done (.ok (some m))⟩ →
      ∃ f, b.filterFor c = .ok f ∧
        ∃ e ∈ s.history, e.task = i ∧ e.removed? = some m.job ∧ Rightful f m e.before

def Task.handedOut? : Task α → Option MatchedJob
  | ⟨.takeJob _, .done (.ok found)⟩ => found
  | _ => none

theorem Task.eq_of_handedOut? {task : Task α} {m : MatchedJob} (h : task.handedOut? = some m) :
    ∃ c, task = ⟨.takeJob c, .done (.ok (some m))⟩ := by
  obtain ⟨call, rest⟩ := task
  cases call with
  | takeJob c =>
    cases rest with
    | done result =>
      cases result with
      | ok found =>
        cases h
        exact ⟨c, rfl⟩
      | error => cases h
    | _ => cases h
  | _ => cases h

namespace Overtaken

def pilot : Capabilities where
  ownerIdentity := some "/CN=alice"
  ownerGroup := some "grid"
  cpuTime := some 1000
  pilotType := some "private"
  site := some "here"

def own : Requirements :=
  ⟨some "/CN=alice", some "grid", some "prod", some 1000, .ofFn fun _ => none⟩

def other : Requirements :=
  ⟨some "/CN=bob", some "other", some "prod", some 500,
    .ofFn fun a => if a = .bannedSites then some ["here"] else none⟩

/-- While a match is about to remove the job that it saw, the job is deleted and inserted again with
other requirements. -/
def moves : List (Move Float) :=
  .start (.insert "j1" own 1) :: Move.turns 0 8 ++ .start (.takeJob pilot) :: Move.turns 1 5 ++
    .start (.delete ["j1"]) :: Move.turns 2 1 ++ .start (.insert "j1" other 1) :: Move.turns 3 4 ++
      Move.turns 1 8

end Overtaken

theorem not_handsOutRightly_overtaken :
    ¬ HandsOutRightly .standard (System.run .standard Overtaken.moves) := by
  intro rightly
  have played : (System.run .standard Overtaken.moves).tasks[1]?.bind Task.handedOut? =
        some ⟨"j1", 1, "/CN=alice", "grid"⟩ ∧
      ∀ e ∈ (System.run .standard Overtaken.moves).history, e.task = 1 →
        e.removed? = some "j1" → ∀ q ∈ e.before.queues[(1 : Int)]?, "j1" ∉ q.jobs := by
    decide +kernel
  obtain ⟨matched, elsewhere⟩ := played
  obtain ⟨task, found, handed⟩ := Option.bind_eq_some_iff.1 matched
  obtain ⟨c, rfl⟩ := Task.eq_of_handedOut? handed
  obtain ⟨f, -, e, mem, own, removed, d, ⟨q, here, -, stored⟩, -⟩ := rightly 1 c _ found
  exact elsewhere e mem own removed q here stored

end Matchmaker
