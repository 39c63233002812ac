import Matchmaker.Broker.Sweep
import Matchmaker.Proofs.Broker.Basis
import Matchmaker.Proofs.Broker.Selection
import Matchmaker.Proofs.Broker.Trial

/-!
Refreshes of the usage of one grouping, for any number of callers. A gate lets in one caller at a
time; between any two of its questions time may pass, others may call, and all else may be asked.
What is held is what the latest attempt fetched, of all windows or of none.
-/
namespace Matchmaker

variable {α : Type}

/-! ### Callers -/

/-- A refresh behind the gate: when it got through, what it was answered, and what is left. -/
structure Refresh (α : Type) where
  began : Nat
  exchanges : List (Exchange α)
  rest : Course α (Except BrokerError Bool)

structure PastRefresh (α : Type) where
  began : Nat
  ended : Nat
  exchanges : List (Exchange α)
  result : Except BrokerError Bool

structure Callers (α : Type) where
  world : World α (Store α)
  waiting : Nat := 0
  inside : Option (Refresh α) := none
  past : List (PastRefresh α) := []

def Request.holds (g : Grouping) : Request α → Bool
  | hold g' _ _ => g' = g
  | _ => false

namespace Callers

/-- A turn. The source of usage answers with a report as it likes. -/
inductive Turn (α : Type) where
  | wait (seconds : Nat)
  | call
  | proceed (report : Except CollaboratorError (Usage α))
  | other (q : Request α)

variable [Scalar α]

def reply (report : Except CollaboratorError (Usage α)) (w : World α (Store α)) :
    (q : Request α) → q.Answer × World α (Store α)
  | .usage _ _ => (report, w)
  | q => w.reply q

omit [Scalar α] in
def settle (s : Callers α) (r : Refresh α) : Callers α :=
  match r.rest with
  | .done result =>
    { s with inside := none, past := s.past ++ [⟨r.began, s.world.now, r.exchanges, result⟩] }
  | _ => { s with inside := some r }

def advance (s : Callers α) (report : Except CollaboratorError (Usage α)) (r : Refresh α) :
    Callers α :=
  match r.rest with
  | .ask q next =>
    let (answer, world) := reply report s.world q
    settle { s with world := world } ⟨r.began, r.exchanges ++ [⟨q, answer⟩], next answer⟩
  | _ => s

def step (settings : HistorySettings α) (g : Grouping) (s : Callers α) : Turn α → Callers α
  | .wait seconds => { s with world := { s.world with now := s.world.now + seconds } }
  | .call => { s with waiting := s.waiting + 1 }
  | .proceed report =>
    match s.inside, s.waiting with
    | some r, _ => s.advance report r
    | none, n + 1 =>
      advance { s with waiting := n } report
        ⟨s.world.now, [], (Broker.refreshGrouping settings g).run⟩
    | none, 0 => s
  | .other q => if q.holds g then s else { s with world := (s.world.reply q).2 }

def run (settings : HistorySettings α) (g : Grouping) (w : World α (Store α))
    (turns : List (Turn α)) : Callers α :=
  turns.foldl (step settings g) { world := { w with ledger := {} } }

end Callers

/-! ### Attempts -/

namespace Exchange

def check (g : Grouping) (period : Nat) (due : Bool) : Exchange α := ⟨.isDue g period, due⟩

def report (g : Grouping) (w : UsageWindow α) (answer : Except CollaboratorError (Usage α)) :
    Exchange α := ⟨.usage w.span g, answer⟩

def reported (g : Grouping) (answered : UsageWindow α × Usage α) : Exchange α :=
  report g answered.1 (.ok answered.2)

def outcome (g : Grouping) (windows : Nat) (fetched : Option (List (Usage α))) : Exchange α :=
  ⟨.hold g windows fetched, ()⟩

def held? : Exchange α → Option (Option (List (Usage α)))
  | ⟨.hold _ _ fetched, _⟩ => some fetched
  | _ => none

@[simp] theorem held?_check (g : Grouping) (period : Nat) (due : Bool) :
    held? (check g period due : Exchange α) = none := rfl

@[simp] theorem held?_report (g : Grouping) (w : UsageWindow α)
    (answer : Except CollaboratorError (Usage α)) : held? (report g w answer) = none := rfl

@[simp] theorem held?_outcome (g : Grouping) (windows : Nat) (fetched : Option (List (Usage α))) :
    held? (outcome g windows fetched) = some fetched := rfl

end Exchange

/-- When a refresh ended its attempt, and what was fetched; none if it made no attempt. -/
def PastRefresh.attempt? (p : PastRefresh α) : Option (Nat × Option (List (Usage α))) :=
  (p.exchanges.findSome? Exchange.held?).map (p.ended, ·)

/-- The latest attempt. -/
def latest (past : List (PastRefresh α)) : Option (Nat × Option (List (Usage α))) :=
  (past.filterMap PastRefresh.attempt?).getLast?

/-- A time is less than a period after the end of the latest attempt. -/
def Recent (period : Nat) (past : List (PastRefresh α)) (time : Nat) : Prop :=
  ∃ a ∈ latest past, time < a.1 + period

variable [Scalar α]

/-- The course of an attempt: the windows are asked for in order, up to the first that fails. -/
inductive Attempt (settings : HistorySettings α) (g : Grouping) :
    List (Exchange α) → Option (List (Usage α)) → Prop where
  | complete (answered : List (UsageWindow α × Usage α))
      (all : settings.normalizedWindows = answered.map Prod.fst) :
      Attempt settings g
        (.check g settings.period true :: (answered.map (Exchange.reported g) ++
          [.outcome g settings.normalizedWindows.length (some (answered.map Prod.snd))]))
        (some (answered.map Prod.snd))
  | failed (answered : List (UsageWindow α × Usage α)) (w : UsageWindow α)
      (left : List (UsageWindow α)) (e : CollaboratorError)
      (split : settings.normalizedWindows = answered.map Prod.fst ++ w :: left) :
      Attempt settings g
        (.check g settings.period true :: (answered.map (Exchange.reported g) ++
          [.report g w (.error e), .outcome g settings.normalizedWindows.length none]))
        none

namespace Broker

open Operation

omit [Scalar α] in
def finish (g : Grouping) (windows : Nat) (fetched : Option (List (Usage α))) :
    Operation α Bool := do
  ask (.hold g windows fetched)
  pure fetched.isSome

omit [Scalar α] in
/-- An attempt from where usage of some windows has been fetched and others are left. -/
def fetchRest (g : Grouping) (windows : Nat) (usage : List (Usage α))
    (left : List (UsageWindow α)) : Operation α Bool := do
  finish g windows ((← fetchWindows g left).map (usage ++ ·))

omit [Scalar α] in
theorem fetchRest_nil (g : Grouping) (windows : Nat) (usage : List (Usage α)) :
    fetchRest g windows usage [] = finish g windows (some usage) := by
  simp [fetchRest, fetchWindows]

omit [Scalar α] in
theorem fetchRest_cons (g : Grouping) (windows : Nat) (usage : List (Usage α)) (w : UsageWindow α)
    (left : List (UsageWindow α)) :
    fetchRest g windows usage (w :: left) = ask (.usage w.span g) >>= fun
      | .error _ => finish g windows none
      | .ok u => fetchRest g windows (usage ++ [u]) left := by
  simp only [fetchRest, fetchWindows, bind_assoc]
  congr 1
  funext answer
  cases answer with
  | error e => rfl
  | ok u => simp [Function.comp_def]

theorem run_refreshGrouping (settings : HistorySettings α) (g : Grouping) :
    (refreshGrouping settings g).run = .ask (.isDue g settings.period) fun (due : Bool) =>
      (if due then
        fetchRest g settings.normalizedWindows.length [] settings.normalizedWindows
      else pure false).run := by
  simp only [fetchRest, List.nil_append, Option.map_id']
  rfl

end Broker

/-- An attempt under way, after some exchanges. -/
inductive Attempting (settings : HistorySettings α) (g : Grouping) :
    List (Exchange α) → Course α (Except BrokerError Bool) → Prop where
  | fetching (answered : List (UsageWindow α × Usage α)) (left : List (UsageWindow α))
      (split : settings.normalizedWindows = answered.map Prod.fst ++ left) :
      Attempting settings g (.check g settings.period true :: answered.map (Exchange.reported g))
        (Broker.fetchRest g settings.normalizedWindows.length (answered.map Prod.snd) left).run
  | failing (answered : List (UsageWindow α × Usage α)) (w : UsageWindow α)
      (left : List (UsageWindow α)) (e : CollaboratorError)
      (split : settings.normalizedWindows = answered.map Prod.fst ++ w :: left) :
      Attempting settings g
        (.check g settings.period true ::
          (answered.map (Exchange.reported g) ++ [.report g w (.error e)]))
        (Broker.finish g settings.normalizedWindows.length none).run

variable {settings : HistorySettings α} {g : Grouping}

theorem Attempting.next {exchanges : List (Exchange α)} {rest : Course α (Except BrokerError Bool)}
    (h : Attempting settings g exchanges rest) :
    (∃ (w : UsageWindow α) (next : Except CollaboratorError (Usage α) → _),
      rest = .ask (.usage w.span g) next ∧
        ∀ answer, Attempting settings g (exchanges ++ [.report g w answer]) (next answer)) ∨
      ∃ fetched,
        rest = .ask (.hold g settings.normalizedWindows.length fetched)
          (fun _ => .done (.ok fetched.isSome)) ∧
        Attempt settings g
          (exchanges ++ [.outcome g settings.normalizedWindows.length fetched]) fetched := by
  cases h with
  | fetching answered left split =>
    cases left with
    | nil =>
      refine .inr ⟨_, congrArg ExceptT.run (Broker.fetchRest_nil g _ _), ?_⟩
      exact .complete answered (by simpa using split)
    | cons w left =>
      refine .inl ⟨w, _, congrArg ExceptT.run (Broker.fetchRest_cons g _ _ w left), fun answer => ?_⟩
      cases answer with
      | error e => exact .failing answered w left e split
      | ok u =>
        have shorter : settings.normalizedWindows =
            (answered ++ [(w, u)]).map Prod.fst ++ left := by simp [split]
        have later := Attempting.fetching (g := g) _ left shorter
        rw [List.map_append, List.map_append] at later
        exact later
  | failing answered w left e split =>
    refine .inr ⟨none, rfl, ?_⟩
    simpa using Attempt.failed answered w left e split

theorem Attempt.held? {exchanges : List (Exchange α)} {fetched : Option (List (Usage α))}
    (h : Attempt settings g exchanges fetched) :
    exchanges.findSome? Exchange.held? = some fetched := by
  have reported (answered : List (UsageWindow α × Usage α)) :
      (answered.map (Exchange.reported g)).findSome? Exchange.held? = none := by
    refine List.findSome?_eq_none_iff.2 fun exchange mem => ?_
    obtain ⟨pair, -, rfl⟩ := List.mem_map.1 mem
    rfl
  cases h <;> simp [List.findSome?_cons, reported]

theorem Attempt.length_eq {exchanges : List (Exchange α)} {usage : List (Usage α)}
    (h : Attempt settings g exchanges (some usage)) :
    usage.length = settings.normalizedWindows.length := by
  cases h with
  | complete answered all => simp [all]

/-! ### Worlds -/

theorem World.now_reply (w : World α (Store α)) (q : Request α) : (w.reply q).2.now = w.now := by
  cases q with
  | book settings => simp only [World.reply, World.answer]; split <;> rfl
  | _ => rfl

theorem World.record_reply (w : World α (Store α)) {q : Request α} (h : q.holds g = false) :
    (w.reply q).2.ledger.record g = w.ledger.record g := by
  cases q with
  | book settings => simp only [World.reply, World.answer]; split <;> rfl
  | held g' => exact w.ledger.record_register g' g
  | hold g' windows fetched =>
    exact w.ledger.record_setRecord_of_ne _ (by simpa [Request.holds] using h)
  | _ => rfl

omit [Scalar α] in
theorem latest_concat (past : List (PastRefresh α)) (p : PastRefresh α) :
    latest (past ++ [p]) = p.attempt?.or (latest past) := by
  unfold latest
  cases attempt : p.attempt? <;> simp [attempt]

def heldAfter (windows : Nat) : Option (Nat × Option (List (Usage α))) → UsageRecord α
  | none => {}
  | some (ended, fetched) => .ofAttempt windows fetched ended

omit [Scalar α] in
theorem isDue_heldAfter {windows period now : Nat} {past : List (PastRefresh α)}
    (clock : ∀ a ∈ latest past, a.1 ≤ now) :
    (heldAfter windows (latest past)).isDue period now = true ↔ ¬ Recent period past now := by
  unfold Recent
  cases attempt : latest past with
  | none => simp [heldAfter, UsageRecord.isDue]
  | some a =>
    have before := clock a attempt
    simp only [heldAfter, UsageRecord.isDue, UsageRecord.ofAttempt, decide_eq_true_eq,
      Option.mem_some, exists_eq_left']
    omega

namespace Callers

/-- What a refresh that has returned did, after those before it. -/
structure Follows (settings : HistorySettings α) (g : Grouping) (before : List (PastRefresh α))
    (p : PastRefresh α) : Prop where
  throttled : Recent settings.period before p.began →
    p.exchanges = [.check g settings.period false] ∧ p.result = .ok false
  attempted : ¬ Recent settings.period before p.began →
    ∃ fetched, Attempt settings g p.exchanges fetched ∧ p.result = .ok fetched.isSome

structure Kept (settings : HistorySettings α) (g : Grouping) (s : Callers α) : Prop where
  record : s.world.ledger.record g =
    heldAfter settings.normalizedWindows.length (latest s.past)
  clock : ∀ a ∈ latest s.past, a.1 ≤ s.world.now
  whole : ∀ a ∈ latest s.past, ∀ usage ∈ a.2, usage.length = settings.normalizedWindows.length
  inside : ∀ r ∈ s.inside, Attempting settings g r.exchanges r.rest ∧
    ¬ Recent settings.period s.past r.began
  past : ∀ (i : Nat) (p : PastRefresh α), s.past[i]? = some p →
    Follows settings g (s.past.take i) p

variable {s : Callers α}

theorem past_concat {past : List (PastRefresh α)} {q : PastRefresh α}
    (h : ∀ (i : Nat) (p : PastRefresh α), past[i]? = some p → Follows settings g (past.take i) p)
    (last : Follows settings g past q) (i : Nat) (p : PastRefresh α)
    (found : (past ++ [q])[i]? = some p) : Follows settings g ((past ++ [q]).take i) p := by
  by_cases old : i < past.length
  · rw [List.getElem?_append_left old] at found
    rw [List.take_append_of_le_length (Nat.le_of_lt old)]
    exact h i p found
  · rw [List.getElem?_append_right (Nat.le_of_not_lt old), List.getElem?_singleton] at found
    split at found
    · cases found
      rw [List.take_append_of_le_length (by omega), List.take_of_length_le (by omega)]
      exact last
    · cases found

theorem settle_of_attempting {r : Refresh α} (h : Attempting settings g r.exchanges r.rest) :
    s.settle r = { s with inside := some r } := by
  unfold settle
  rcases h.next with ⟨w, next, same, -⟩ | ⟨fetched, same, -⟩ <;> rw [same]

theorem advance_enter (report : Except CollaboratorError (Usage α)) :
    s.advance report ⟨s.world.now, [], (Broker.refreshGrouping settings g).run⟩ =
      s.settle ⟨s.world.now,
        [.check g settings.period ((s.world.ledger.record g).isDue settings.period s.world.now)],
        (if (s.world.ledger.record g).isDue settings.period s.world.now then
          Broker.fetchRest g settings.normalizedWindows.length [] settings.normalizedWindows
        else pure false).run⟩ := by
  simp only [advance, Broker.run_refreshGrouping]
  rfl

theorem Kept.isDue (kept : s.Kept settings g) :
    (s.world.ledger.record g).isDue settings.period s.world.now = true ↔
      ¬ Recent settings.period s.past s.world.now := by
  rw [kept.record]
  exact isDue_heldAfter kept.clock

theorem Kept.enter_recent (kept : s.Kept settings g)
    (report : Except CollaboratorError (Usage α))
    (recent : Recent settings.period s.past s.world.now) :
    s.advance report ⟨s.world.now, [], (Broker.refreshGrouping settings g).run⟩ =
      { s with
        inside := none
        past := s.past ++ [⟨s.world.now, s.world.now, [.check g settings.period false],
          .ok false⟩] } := by
  have early : (s.world.ledger.record g).isDue settings.period s.world.now = false := by
    rw [← Bool.not_eq_true, kept.isDue]
    exact not_not_intro recent
  rw [advance_enter, early]
  rfl

theorem Kept.enter (kept : s.Kept settings g) (report : Except CollaboratorError (Usage α)) :
    (s.advance report ⟨s.world.now, [], (Broker.refreshGrouping settings g).run⟩).Kept
      settings g := by
  by_cases recent : Recent settings.period s.past s.world.now
  · rw [kept.enter_recent report recent]
    have same (p : PastRefresh α) (skipped : p.exchanges = [.check g settings.period false]) :
        latest (s.past ++ [p]) = latest s.past := by
      simp [latest_concat, PastRefresh.attempt?, skipped, List.findSome?_cons]
    refine ⟨?_, ?_, ?_, by simp, past_concat kept.past ⟨fun _ => ⟨rfl, rfl⟩, fun due => ?_⟩⟩
    · rw [same _ rfl]
      exact kept.record
    · rw [same _ rfl]
      exact kept.clock
    · rw [same _ rfl]
      exact kept.whole
    · exact (due recent).elim
  · have attempting : Attempting settings g [.check g settings.period true]
        (Broker.fetchRest g settings.normalizedWindows.length []
          settings.normalizedWindows).run := .fetching [] _ rfl
    rw [advance_enter, kept.isDue.2 recent, if_pos rfl, settle_of_attempting attempting]
    refine ⟨kept.record, kept.clock, kept.whole, fun r now => ?_, kept.past⟩
    cases now
    exact ⟨attempting, recent⟩

theorem Kept.advance (kept : s.Kept settings g) (report : Except CollaboratorError (Usage α))
    {r : Refresh α} (inside : s.inside = some r) : (s.advance report r).Kept settings g := by
  obtain ⟨attempting, due⟩ := kept.inside r inside
  rcases attempting.next with ⟨w, next, same, later⟩ | ⟨fetched, same, attempt⟩
  · -- One more window is asked for, and nothing is held yet.
    have asked : s.advance report r =
        { s with inside := some ⟨r.began, r.exchanges ++ [.report g w report], next report⟩ } := by
      rw [← settle_of_attempting (later report), Callers.advance, same]
      rfl
    rw [asked]
    refine ⟨kept.record, kept.clock, kept.whole, fun r' now => ?_, kept.past⟩
    cases now
    exact ⟨later report, due⟩
  · -- All is held in one turn, in which the refresh also returns.
    have ended : s.advance report r =
        { s with
          world := { s.world with
            ledger := s.world.ledger.setRecord
              (.ofAttempt settings.normalizedWindows.length fetched s.world.now) g }
          inside := none
          past := s.past ++ [⟨r.began, s.world.now,
            r.exchanges ++ [.outcome g settings.normalizedWindows.length fetched],
            .ok fetched.isSome⟩] } := by
      rw [Callers.advance, same]
      rfl
    rw [ended]
    have last (p : PastRefresh α) (attempt : Attempt settings g p.exchanges fetched) :
        latest (s.past ++ [p]) = some (p.ended, fetched) := by
      simp [latest_concat, PastRefresh.attempt?, attempt.held?]
    refine ⟨?_, ?_, ?_, by simp, past_concat kept.past ⟨fun recent => (due recent).elim, fun _ => ?_⟩⟩
    · rw [last _ attempt]
      exact UsageLedger.record_setRecord_self _ _ g
    · rw [last _ attempt]
      intro a now
      cases now
      exact Nat.le_refl _
    · rw [last _ attempt]
      intro a now usage all
      cases now
      cases all
      exact attempt.length_eq
    · exact ⟨fetched, attempt, rfl⟩

theorem Kept.withWaiting (kept : s.Kept settings g) (n : Nat) :
    Kept settings g { s with waiting := n } :=
  ⟨kept.record, kept.clock, kept.whole, kept.inside, kept.past⟩

theorem Kept.step (kept : s.Kept settings g) (turn : Turn α) :
    (s.step settings g turn).Kept settings g := by
  cases turn with
  | wait seconds =>
    exact ⟨kept.record, fun a last => Nat.le_add_right_of_le (kept.clock a last), kept.whole,
      kept.inside, kept.past⟩
  | call => exact kept.withWaiting _
  | proceed report =>
    simp only [Callers.step]
    split
    · rename_i r _ inside
      exact kept.advance report inside
    · rename_i n inside waiting
      exact (kept.withWaiting n).enter report
    · exact kept
  | other q =>
    simp only [Callers.step]
    split
    · exact kept
    · rename_i other
      refine ⟨?_, ?_, kept.whole, kept.inside, kept.past⟩
      · exact (World.record_reply s.world (by simpa using other)).trans kept.record
      · rw [World.now_reply]
        exact kept.clock

/-- The source fails, a second caller is too early, and a third one late enough. -/
example :
    (run (.standard : HistorySettings Float) .groups
      { store := {}, shares := { table := { defaultShare := 1 } }, generator := .ofWords [] }
      [.call, .call, .proceed (.ok ∅), .wait 5, .proceed (.error .unreadable), .proceed (.ok ∅),
        .proceed (.ok ∅), .wait 600, .call, .proceed (.ok ∅), .proceed (.ok ∅),
        .proceed (.ok ∅)]).past.map
        (fun p => (p.began, p.ended, p.exchanges.length, p.result.toOption)) =
      [(0, 5, 3, some false), (5, 5, 1, some false), (605, 605, 3, some true)] := by
  decide +kernel

end Callers

end Matchmaker
