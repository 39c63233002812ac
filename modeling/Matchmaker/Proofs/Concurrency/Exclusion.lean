import Matchmaker.Proofs.Concurrency.Gate

/-!
A queue is disabled exactly while one insertion has its gate, or after a release of it failed.
Numbers of queues are not used again, so that what was found out about a queue that is gone does no
harm.
-/
namespace Matchmaker

variable {α : Type}

def Store.IsClosed (s : Store α) (id : Int) : Prop :=
  s.queues[id]?.map StoredQueue.enabled = some false

namespace Request

def opens? : (q : Request α) → q.Answer → Option Int
  | store (.setEnabled id false true), (.ok true : Except StoreError Bool) => some id
  | _, _ => none

def loses? : (q : Request α) → q.Answer → Option Int
  | store (.setEnabled id false true), (.error _ : Except StoreError Bool) => some id
  | _, _ => none

/-- Gates are released with success, and the queue behind a gate is there. -/
def GateHolds : (q : Request α) → q.Answer → Prop
  | store (.setEnabled _ false true), answer => answer = (.ok true : Except StoreError Bool)
  | store (.addJob _ _ _ _), answer =>
    ∀ id, answer ≠ (.error (.unknownQueue id) : Except StoreError Unit)
  | _, _ => True

theorem obtains?_eq_none {q : Request α} (h : q.isGate = false) (answer : q.Answer) :
    q.obtains? answer = none ∧ q.opens? answer = none ∧ q.isRelease = false ∧
      q.GateHolds answer := by
  cases q with
  | store call =>
    cases call with
    | create | setEnabled | addJob => cases h
    | _ => exact ⟨rfl, rfl, rfl, trivial⟩
  | _ => exact ⟨rfl, rfl, rfl, trivial⟩

theorem obtains?_of_error (call : StoreCall α) (e : StoreError) :
    (store call).obtains? (Except.error e) = none ∧ (store call).opens? (Except.error e) = none := by
  cases call with
  | create d priority enabled => cases enabled <;> exact ⟨rfl, rfl⟩
  | setEnabled id expected new => cases expected <;> cases new <;> exact ⟨rfl, rfl⟩
  | _ => exact ⟨rfl, rfl⟩

theorem loses?_eq_none_of_gateHolds {q : Request α} {answer : q.Answer}
    (h : q.GateHolds answer) : q.loses? answer = none := by
  unfold loses?
  split
  · cases (h : _ = (.ok true : Except StoreError Bool))
  · rfl

theorem isRelease_of_loses? {q : Request α} {answer : q.Answer} {id : Int}
    (h : q.loses? answer = some id) : q.isRelease = true := by
  unfold loses? at h
  split at h
  · rfl
  · cases h

end Request

variable [Scalar α]

namespace Store.Effect

variable {s t : Store α} {call : StoreCall α} {answer : Except StoreError call.Answer}

theorem isClosed_iff (e : s.Effect call answer t) (c : s.Consistent) (id : Int) :
    t.IsClosed id ↔
      s.IsClosed id ∧ (Request.store call).opens? answer ≠ some id ∨
        (Request.store call).obtains? answer = some id := by
  cases e with
  | read reads =>
    have other : (Request.store call).isGate = false := by
      cases call <;> first | rfl | cases reads
    obtain ⟨noneObtained, noneOpened, -, -⟩ := Request.obtains?_eq_none other (s.perform call).1
    simp [noneObtained, noneOpened]
  | created d priority enabled fresh =>
    have unused := c.next_unused
    simp only [IsClosed, Std.ExtTreeMap.getElem?_insert, Std.LawfulEqOrd.compare_eq_iff_eq]
    by_cases new : s.lastId + 1 = id
    · subst new
      cases enabled with
      | true => simp [unused, Request.opens?, Request.obtains?]
      | false => exact iff_of_true (by simp) (.inr rfl)
    · cases enabled with
      | true => simp [new, Request.opens?, Request.obtains?]
      | false =>
        rw [if_neg new]
        refine ⟨fun closed => .inl ⟨closed, nofun⟩, fun h => ?_⟩
        rcases h with closed | obtained
        · exact closed.1
        · exact absurd (Option.some.inj obtained) new
  | switched id' expected new q found held =>
    simp only [IsClosed, Std.ExtTreeMap.getElem?_insert, Std.LawfulEqOrd.compare_eq_iff_eq]
    by_cases own : id' = id
    · subst own
      cases expected <;> cases new <;> simp [found, held, Request.opens?, Request.obtains?]
    · cases expected <;> cases new <;> simp [own, Request.opens?, Request.obtains?]
  | unswitched id' expected new other =>
    cases expected <;> cases new <;> simp [Request.opens?, Request.obtains?]
  | added id' job submitted effective q absent found =>
    simp only [IsClosed, Std.ExtTreeMap.getElem?_insert, Std.LawfulEqOrd.compare_eq_iff_eq]
    by_cases own : id' = id
    · subst own
      simp [found, Request.opens?, Request.obtains?]
    · simp [own, Request.opens?, Request.obtains?]
  | removed job record stored =>
    simp only [IsClosed, Std.ExtTreeMap.getElem?_modify]
    by_cases own : record.queue = id
    · simp [own, Function.comp_def, Request.opens?, Request.obtains?]
    · simp [own, Request.opens?, Request.obtains?]
  | deleted id' q found enabled empty =>
    simp only [IsClosed, Std.ExtTreeMap.getElem?_erase, Std.LawfulEqOrd.compare_eq_iff_eq]
    by_cases own : id' = id
    · subst own
      simp [found, enabled, Request.opens?, Request.obtains?]
    · simp [own, Request.opens?, Request.obtains?]
  | prioritized priorities =>
    simp [IsClosed, getElem?_queues_setPriorities, Function.comp_def, Request.opens?,
      Request.obtains?]
  | known d priority enabled =>
    cases enabled <;> simp [Request.opens?, Request.obtains?]
  | duplicate | homeless | missing | kept | updated | unknown =>
    simp [IsClosed, Request.opens?, Request.obtains?]

theorem not_isClosed_of_obtains? (e : s.Effect call answer t) (c : s.Consistent) {id : Int}
    (obtained : (Request.store call).obtains? answer = some id) : ¬ s.IsClosed id := by
  cases e with
  | created d priority enabled fresh =>
    cases enabled with
    | true => cases obtained
    | false =>
      obtain rfl : s.lastId + 1 = id := Option.some.inj obtained
      intro closed
      rw [IsClosed, c.next_unused] at closed
      cases closed
  | switched id' expected new q found held =>
    cases expected <;> cases new <;> cases obtained
    rw [IsClosed, found, Option.map_some, held]
    nofun
  | read reads => cases call <;> first | cases obtained | cases reads
  | known d priority enabled => cases enabled <;> cases obtained
  | unswitched id' expected new => cases expected <;> cases new <;> cases obtained
  | _ => cases obtained

theorem gateHolds (e : s.Effect call answer t) {gate : Option Int}
    (allowed : (Request.store call).GateAllows gate) (closed : ∀ id ∈ gate, s.IsClosed id) :
    (Request.store call).GateHolds answer := by
  cases e with
  | switched id' expected new => cases expected <;> cases new <;> first | rfl | trivial
  | unswitched id' expected new other =>
    cases expected <;> cases new
    · trivial
    · -- Only the holder of the gate asks for its release, and the queue is still closed.
      have own : gate = some id' := by simpa [Request.GateAllows] using allowed
      have here := closed id' own
      rw [IsClosed, Option.map_eq_some_iff] at here
      obtain ⟨q, found, disabled⟩ := here
      exact absurd disabled (other q found)
    · trivial
    · trivial
  | added => nofun
  | duplicate => nofun
  | homeless id' job submitted effective absent gone =>
    have here := closed id' allowed
    rw [IsClosed, gone] at here
    cases here
  | read reads => cases call <;> trivial
  | _ => trivial

end Store.Effect

/-! ### Exclusion -/

/-- Exactly the queues are closed whose gate is taken or lost, and no gate is taken twice. -/
structure Guarded (gates : Nat → Option Int) (lost : Int → Prop) (s : Store α) : Prop where
  closed_iff : ∀ id : Int, s.IsClosed id ↔ (∃ i, gates i = some id) ∨ lost id
  alone : ∀ (i j : Nat) (id : Int), gates i = some id → gates j = some id → i = j
  apart : ∀ (i : Nat) (id : Int), gates i = some id → ¬ lost id

omit [Scalar α] in
theorem guarded_of_enabled {s : Store α}
    (enabled : ∀ (id : Int) (q : StoredQueue α), s.queues[id]? = some q → q.enabled = true) :
    Guarded (fun _ => none) (fun _ => False) s where
  closed_iff id := by
    simp only [Store.IsClosed, Option.map_eq_some_iff, reduceCtorEq, exists_false, or_false,
      iff_false, not_exists, not_and]
    intro q found
    simp [enabled id q found]
  alone i j id taken := by cases taken
  apart i id taken := by cases taken

namespace Answered

variable {faulty : Prop} {s t : Store α} {q : Request α} {answer : q.Answer}

theorem isClosed_iff (h : Answered faulty s q answer t) (c : s.Consistent) (id : Int) :
    t.IsClosed id ↔ s.IsClosed id ∧ q.opens? answer ≠ some id ∨ q.obtains? answer = some id := by
  cases h with
  | performed effect => exact effect.isClosed_iff c id
  | failed call e fault =>
    obtain ⟨noneObtained, noneOpened⟩ := Request.obtains?_of_error call e
    simp [noneObtained, noneOpened]
  | elsewhere other =>
    have apart : q.isGate = false := by cases q <;> first | rfl | cases other
    obtain ⟨noneObtained, noneOpened, -, -⟩ := Request.obtains?_eq_none apart answer
    simp [noneObtained, noneOpened]

theorem not_isClosed_of_obtains? (h : Answered faulty s q answer t) (c : s.Consistent) {id : Int}
    (obtained : q.obtains? answer = some id) : ¬ s.IsClosed id := by
  cases h with
  | performed effect => exact effect.not_isClosed_of_obtains? c obtained
  | failed call e fault =>
    rw [(Request.obtains?_of_error call e).1] at obtained
    cases obtained
  | elsewhere other =>
    have apart : q.isGate = false := by cases q <;> first | rfl | cases other
    rw [(Request.obtains?_eq_none apart answer).1] at obtained
    cases obtained

theorem gateHolds (h : Answered False s q answer t) {gate : Option Int}
    (allowed : q.isGate = true → q.GateAllows gate) (closed : ∀ id ∈ gate, s.IsClosed id) :
    q.GateHolds answer := by
  by_cases isGate : q.isGate = true
  · cases h with
    | performed effect => exact effect.gateHolds (allowed isGate) closed
    | failed call e fault => exact fault.elim
    | elsewhere other => cases q <;> first | cases isGate | cases other
  · exact (Request.obtains?_eq_none (by simpa using isGate) answer).2.2.2

theorem opens?_or_loses? (h : Answered faulty s q answer t) {gate : Option Int}
    (allowed : q.isGate = true → q.GateAllows gate) (closed : ∀ id ∈ gate, s.IsClosed id)
    (release : q.isRelease = true) :
    ∃ id, gate = some id ∧
      (q.opens? answer = some id ∧ q.loses? answer = none ∨
        q.opens? answer = none ∧ q.loses? answer = some id) := by
  unfold Request.isRelease at release
  split at release
  · rename_i id
    have may := allowed rfl
    have own : gate = some id := by simpa [Request.GateAllows] using may
    refine ⟨id, own, ?_⟩
    cases h with
    | performed effect =>
      have opened : answer = (.ok true : Except StoreError Bool) := effect.gateHolds may closed
      rw [opened]
      exact .inl ⟨rfl, rfl⟩
    | failed call e fault => exact .inr ⟨rfl, rfl⟩
    | elsewhere other => cases other
  · cases release

end Answered

namespace Request

variable {q : Request α} {answer : q.Answer} {gate : Option Int}

omit [Scalar α]

theorem gate_eq_none_of_obtains? (allowed : q.isGate = true → q.GateAllows gate) {id : Int}
    (obtained : q.obtains? answer = some id) : gate = none := by
  unfold obtains? at obtained
  split at obtained
  · exact (allowed rfl).1
  · have may := allowed rfl
    simpa [GateAllows] using may
  · cases obtained

theorem opens?_eq_none_of_obtains? {id : Int} (obtained : q.obtains? answer = some id) :
    q.opens? answer = none := by
  unfold obtains? at obtained
  split at obtained
  · rfl
  · rfl
  · cases obtained

theorem loses?_eq_none_of_obtains? {id : Int} (obtained : q.obtains? answer = some id) :
    q.loses? answer = none := by
  unfold obtains? at obtained
  split at obtained
  · rfl
  · rfl
  · cases obtained

theorem isRelease_of_opens? {id : Int} (opened : q.opens? answer = some id) :
    q.isRelease = true := by
  unfold opens? at opened
  split at opened
  · rfl
  · cases opened

end Request

namespace Guarded

variable {gates : Nat → Option Int} {lost : Int → Prop} {s t : Store α} (h : Guarded gates lost s)

include h

omit [Scalar α]

theorem take {i : Nat} {new : Int} (free : gates i = none) (unclosed : ¬ s.IsClosed new)
    (closed : ∀ id, t.IsClosed id ↔ s.IsClosed id ∨ id = new) :
    Guarded (fun j => if i = j then some new else gates j) lost t where
  closed_iff id := by
    rw [closed, h.closed_iff]
    constructor
    · rintro ((⟨j, taken⟩ | gone) | rfl)
      · refine .inl ⟨j, ?_⟩
        rw [if_neg (fun same => by rw [← same, free] at taken; cases taken)]
        exact taken
      · exact .inr gone
      · exact .inl ⟨i, if_pos rfl⟩
    · rintro (⟨j, taken⟩ | gone)
      · by_cases own : i = j
        · rw [if_pos own] at taken
          exact .inr (Option.some.inj taken).symm
        · rw [if_neg own] at taken
          exact .inl (.inl ⟨j, taken⟩)
      · exact .inl (.inr gone)
  alone j k id first second := by
    have other (l : Nat) (taken : gates l = some new) : False :=
      unclosed ((h.closed_iff new).2 (.inl ⟨l, taken⟩))
    by_cases ownFirst : i = j <;> by_cases ownSecond : i = k
    · exact ownFirst.symm.trans ownSecond
    · rw [if_pos ownFirst] at first
      rw [if_neg ownSecond, ← first] at second
      exact (other k second).elim
    · rw [if_pos ownSecond] at second
      rw [if_neg ownFirst, ← second] at first
      exact (other j first).elim
    · rw [if_neg ownFirst] at first
      rw [if_neg ownSecond] at second
      exact h.alone j k id first second
  apart j id taken gone := by
    by_cases own : i = j
    · rw [if_pos own] at taken
      cases taken
      exact unclosed ((h.closed_iff new).2 (.inr gone))
    · rw [if_neg own] at taken
      exact h.apart j id taken gone

theorem other_of_give {i j : Nat} {old id : Int} (own : gates i = some old)
    (taken : (if i = j then none else gates j) = some id) : gates j = some id ∧ id ≠ old := by
  by_cases same : i = j
  · rw [if_pos same] at taken
    cases taken
  · rw [if_neg same] at taken
    refine ⟨taken, ?_⟩
    rintro rfl
    exact same (h.alone i j id own taken)

theorem alone_of_give {i : Nat} {old : Int} (own : gates i = some old) (j k : Nat) (id : Int)
    (first : (if i = j then none else gates j) = some id)
    (second : (if i = k then none else gates k) = some id) : j = k :=
  h.alone j k id (h.other_of_give own first).1 (h.other_of_give own second).1

theorem release {i : Nat} {old : Int} (own : gates i = some old)
    (closed : ∀ id, t.IsClosed id ↔ s.IsClosed id ∧ id ≠ old) :
    Guarded (fun j => if i = j then none else gates j) lost t where
  closed_iff id := by
    rw [closed, h.closed_iff]
    constructor
    · rintro ⟨⟨j, taken⟩ | gone, other⟩
      · refine .inl ⟨j, ?_⟩
        rw [if_neg (fun same => other (by rw [← same, own] at taken; exact (Option.some.inj taken).symm))]
        exact taken
      · exact .inr gone
    · rintro (⟨j, taken⟩ | gone)
      · exact ⟨.inl ⟨j, (h.other_of_give own taken).1⟩, (h.other_of_give own taken).2⟩
      · refine ⟨.inr gone, ?_⟩
        rintro rfl
        exact h.apart i id own gone
  alone := h.alone_of_give own
  apart j id taken := h.apart j id (h.other_of_give own taken).1

theorem lose {i : Nat} {old : Int} (own : gates i = some old)
    (closed : ∀ id, t.IsClosed id ↔ s.IsClosed id) :
    Guarded (fun j => if i = j then none else gates j) (fun id => lost id ∨ id = old) t where
  closed_iff id := by
    rw [closed, h.closed_iff]
    constructor
    · rintro (⟨j, taken⟩ | gone)
      · by_cases same : i = j
        · rw [← same, own] at taken
          exact .inr (.inr (Option.some.inj taken).symm)
        · exact .inl ⟨j, (if_neg same).trans taken⟩
      · exact .inr (.inl gone)
    · rintro (⟨j, taken⟩ | gone | rfl)
      · exact .inl ⟨j, (h.other_of_give own taken).1⟩
      · exact .inr gone
      · exact .inl ⟨i, own⟩
  alone := h.alone_of_give own
  apart j id taken := by
    have other := h.other_of_give own taken
    exact not_or.2 ⟨h.apart j id other.1, other.2⟩

theorem keep (i : Nat) (closed : ∀ id, t.IsClosed id ↔ s.IsClosed id) :
    Guarded (fun j => if i = j then gates i else gates j) lost t := by
  have same : (fun j => if i = j then gates i else gates j) = gates := by
    funext j
    split
    · rename_i own
      rw [own]
    · rfl
  rw [same]
  exact ⟨fun id => (closed id).trans (h.closed_iff id), h.alone, h.apart⟩

end Guarded

/-- What one question makes of the gates. -/
theorem Guarded.step {gates : Nat → Option Int} {lost : Int → Prop} {faulty : Prop} {s t : Store α}
    {q : Request α} {answer : q.Answer} (h : Guarded gates lost s) (c : s.Consistent) {i : Nat}
    (answered : Answered faulty s q answer t)
    (allowed : q.isGate = true → q.GateAllows (gates i)) :
    Guarded (fun j => if i = j then q.gateAfter (gates i) answer else gates j)
      (fun id => lost id ∨ q.loses? answer = some id) t := by
  have closed := answered.isClosed_iff c
  rw [Request.gateAfter]
  -- A gate is obtained, or given up with or without success, or nothing changes; what an exchange
  -- opens is what is released.
  cases obtained : q.obtains? answer with
  | some new =>
    have kept : q.loses? answer = none := Request.loses?_eq_none_of_obtains? obtained
    simp only [kept, reduceCtorEq, or_false]
    refine h.take (Request.gate_eq_none_of_obtains? allowed obtained)
      (answered.not_isClosed_of_obtains? c obtained) fun id => ?_
    rw [closed, Request.opens?_eq_none_of_obtains? obtained, obtained]
    simp [eq_comm]
  | none =>
    by_cases release : q.isRelease = true
    · have taken (id : Int) (own : id ∈ gates i) : s.IsClosed id :=
        (h.closed_iff id).2 (.inl ⟨i, own⟩)
      obtain ⟨old, own, ⟨opened, kept⟩ | ⟨unopened, gone⟩⟩ :=
        answered.opens?_or_loses? allowed taken release
      · simp only [release, if_true, kept, reduceCtorEq, or_false]
        refine h.release own fun id => ?_
        rw [closed, opened, obtained]
        simp [eq_comm]
      · simp only [release, if_true, gone, Option.some.injEq, @eq_comm _ old]
        refine h.lose own fun id => ?_
        rw [closed, unopened, obtained]
        simp
    · have kept : q.loses? answer = none := by
        cases gone : q.loses? answer with
        | none => rfl
        | some id => exact absurd (Request.isRelease_of_loses? gone) release
      simp only [release, kept, reduceCtorEq, or_false]
      refine h.keep i fun id => ?_
      rw [closed, obtained]
      have unopened : q.opens? answer ≠ some id := fun opened =>
        release (Request.isRelease_of_opens? opened)
      simp [unopened]

/-! ### Runs -/

def ReleaseFailed (id : Int) (history : List (Entry α)) : Prop :=
  ∃ e ∈ history, e.question.loses? e.answer = some id

structure GateInvariant (faulty : Prop) (s : System α) : Prop where
  followed : (gateRules α).Followed s
  consistent : s.store.Consistent
  guarded : Guarded (fun i => (gateRules α).after i s.history)
    (fun id => ReleaseFailed id s.history) s.store
  holds : ¬ faulty → ∀ e ∈ s.history, e.question.GateHolds e.answer

section Meaning

omit [Scalar α]

theorem releaseFailed_concat (id : Int) (history : List (Entry α)) (e : Entry α) :
    ReleaseFailed id (history ++ [e]) ↔
      ReleaseFailed id history ∨ e.question.loses? e.answer = some id := by
  simp [ReleaseFailed, or_and_right, exists_or]

theorem gateInvariant_init {faulty : Prop} {store : Store α} (consistent : store.Consistent)
    (enabled : ∀ (id : Int) (q : StoredQueue α), store.queues[id]? = some q → q.enabled = true) :
    GateInvariant faulty ({ store } : System α) where
  followed := Rules.followed_init
  consistent := consistent
  guarded := by simpa [ReleaseFailed, Rules.after, gateRules] using guarded_of_enabled enabled
  holds _ e mem := by cases mem

def Task.isInserting : Task α → Bool
  | ⟨.insert _ _ _, .ask _ _⟩ => true
  | _ => false

theorem GateInvariant.insertion {faulty : Prop} {s : System α} (h : GateInvariant faulty s) {i : Nat} {id : Int}
    (own : (gateRules α).after i s.history = some id) :
    ∃ task, s.tasks[i]? = some task ∧ task.isInserting = true := by
  cases found : s.tasks[i]? with
  | none =>
    have unused : (gateRules α).after i s.history = none :=
      (gateRules α).after_of_unused fun e mem same => by
        have bound := h.followed.known e mem
        have beyond := List.getElem?_eq_none_iff.1 found
        omega
    rw [unused] at own
    cases own
  | some task =>
    have inserts : task.call.isInsert = false → (gateRules α).after i s.history = none := by
      refine h.followed.after_induct found
        (motive := fun gate => task.call.isInsert = false → gate = none) (fun _ => rfl) ?_
      intro gate q a none allowed other
      by_cases isGate : q.isGate = true
      · rw [(allowed isGate).1] at other
        cases other
      · exact (Request.gateAfter_of_not_isGate (by simpa using isGate) gate a).trans (none other)
    have kept := h.followed.kept i task found
    obtain ⟨call, rest⟩ := task
    cases call with
    | insert job requirements submitted =>
      cases rest with
      | done result => exact absurd (own.symm.trans kept) nofun
      | abort => exact absurd (own.symm.trans kept) nofun
      | ask q next => exact ⟨_, rfl, rfl⟩
    | _ => exact absurd (own.symm.trans (inserts rfl)) nofun

/-- A task is an insertion under way that has obtained the gate of a queue and not yet released
it. -/
def System.HoldsGate (s : System α) (i : Nat) (id : Int) : Prop :=
  (∃ task, s.tasks[i]? = some task ∧ task.isInserting = true) ∧
    (gateRules α).after i s.history = some id

structure GatesExclude (s : System α) : Prop where
  disabled_iff : ∀ (id : Int) (q : StoredQueue α), s.store.queues[id]? = some q →
    (q.enabled = false ↔ ∃ i, s.HoldsGate i id ∧ ∀ j, s.HoldsGate j id → j = i)
  present : ∀ (i : Nat) (id : Int), s.HoldsGate i id →
    ∃ q, s.store.queues[id]? = some q ∧ q.enabled = false
  released : ∀ (i : Nat) (id : Int) (answer : Except StoreError Bool) (before after : Store α),
    (⟨i, .store (.setEnabled id false true), answer, before, after⟩ : Entry α) ∈ s.history →
      answer = .ok true
  queued : ∀ (i : Nat) (id : Int) (job : String) (submitted : Int) (effective : α)
    (answer : Except StoreError Unit) (before after : Store α),
      (⟨i, .store (.addJob id job submitted effective), answer, before, after⟩ : Entry α) ∈
          s.history →
        ∀ gone, answer ≠ .error (.unknownQueue gone)
  idle : (∀ task ∈ s.tasks, task.isInserting = false) →
    ∀ (id : Int) (q : StoredQueue α), s.store.queues[id]? = some q → q.enabled = true

theorem GateInvariant.holder {faulty : Prop} {s : System α} (h : GateInvariant faulty s) {i : Nat}
    {id : Int} : (gateRules α).after i s.history = some id ↔ s.HoldsGate i id :=
  ⟨fun own => ⟨h.insertion own, own⟩, fun own => own.2⟩

theorem GateInvariant.isClosed_iff {faulty : Prop} {s : System α} (h : GateInvariant faulty s)
    (id : Int) : s.store.IsClosed id ↔ (∃ i, s.HoldsGate i id) ∨ ReleaseFailed id s.history := by
  simp only [h.guarded.closed_iff, h.holder]

theorem GateInvariant.not_releaseFailed {s : System α} (h : GateInvariant False s) (id : Int) :
    ¬ ReleaseFailed id s.history := by
  rintro ⟨e, mem, gone⟩
  have opened := h.holds not_false e mem
  rw [Request.loses?_eq_none_of_gateHolds opened] at gone
  cases gone

theorem GateInvariant.gatesExclude {s : System α} (h : GateInvariant False s) : GatesExclude s := by
  have closed {id : Int} {q : StoredQueue α} (found : s.store.queues[id]? = some q)
      (disabled : q.enabled = false) : ∃ i, s.HoldsGate i id := by
    have isClosed : s.store.IsClosed id := by
      rw [Store.IsClosed, found, Option.map_some, disabled]
    exact ((h.isClosed_iff id).1 isClosed).resolve_right (h.not_releaseFailed id)
  have present (i : Nat) (id : Int) (own : s.HoldsGate i id) :
      ∃ q, s.store.queues[id]? = some q ∧ q.enabled = false :=
    Option.map_eq_some_iff.1 ((h.isClosed_iff id).2 (.inl ⟨i, own⟩))
  constructor
  · intro id q found
    constructor
    · intro disabled
      obtain ⟨i, own⟩ := closed found disabled
      exact ⟨i, own, fun j other => h.guarded.alone j i id other.2 own.2⟩
    · rintro ⟨i, own, -⟩
      obtain ⟨q', found', disabled⟩ := present i id own
      rw [found] at found'
      cases found'
      exact disabled
  · exact present
  · intro i id answer before after mem
    exact h.holds not_false _ mem
  · intro i id job submitted effective answer before after mem gone
    exact h.holds not_false _ mem gone
  · intro none id q found
    cases enabled : q.enabled with
    | true => rfl
    | false =>
      obtain ⟨i, ⟨task, waits, inserts⟩, -⟩ := closed found enabled
      have other := none task (List.mem_of_getElem? waits)
      rw [other] at inserts
      cases inserts

end Meaning

theorem gateInvariant_runOn [Random.Logarithm α] {b : Broker α} (inOrder : b.InOrder)
    {store : Store α} (consistent : store.Consistent)
    (enabled : ∀ (id : Int) (q : StoredQueue α), store.queues[id]? = some q → q.enabled = true)
    {faulty : Prop} {moves : List (Move α)}
    (faults : ∀ move ∈ moves, move.isFaultless = false → faulty) :
    GateInvariant faulty (System.runOn b store moves) := by
  refine System.runOn_induct moves (gateInvariant_init consistent enabled)
    fun s move t h mem step => ?_
  cases step with
  | idle => exact h
  | started call =>
    exact ⟨h.followed.started (Gate.keptBy inOrder) call, h.consistent, h.guarded, h.holds⟩
  | @proceeded i fault others call q next answer t waits answered =>
    have sound : Answered faulty s.store q answer t := by
      refine answered.mono fun fails => ?_
      cases fault with
      | none => exact absurd rfl fails
      | some e => exact faults _ mem rfl
    have allowed : q.isGate = true → q.GateAllows ((gateRules α).after i s.history) := fun gate =>
      ((h.followed.kept i _ waits).1 gate).2
    refine ⟨h.followed.proceeded waits answer t, sound.consistent h.consistent, ?_, ?_⟩
    · have guarded := h.guarded.step h.consistent sound allowed
      simp only [releaseFailed_concat, Rules.after_concat]
      refine Eq.mp (congrArg (Guarded · _ t) (funext fun j => ?_)) guarded
      split
      · rename_i own
        rw [own]
        rfl
      · rfl
    · intro never e mem
      rcases List.mem_append.1 mem with old | new
      · exact h.holds never e old
      · cases List.mem_singleton.1 new
        have taken (id : Int) (own : id ∈ (gateRules α).after i s.history) : s.store.IsClosed id :=
          (h.guarded.closed_iff id).2 (.inl ⟨i, own⟩)
        exact (sound.mono never).gateHolds allowed taken

theorem gateInvariant_run [Random.Logarithm α] {b : Broker α} (inOrder : b.InOrder)
    {moves : List (Move α)} (faultless : ∀ move ∈ moves, move.isFaultless = true) :
    GateInvariant False (System.run b moves) := by
  refine gateInvariant_runOn inOrder Store.consistent_empty (fun id q found => ?_)
    fun move mem fails => ?_
  · simp at found
  · rw [faultless move mem] at fails
    cases fails

/-- In every run without faults of the store, gates exclude, if the settings of the broker are not at
fault. -/
theorem gatesExclude_run {b : Broker Float}
    (checked : ∀ settings ∈ b.history, settings.fault? = none) {moves : List (Move Float)}
    (faultless : ∀ move ∈ moves, move.isFaultless = true) : GatesExclude (System.run b moves) :=
  (gateInvariant_run (Broker.inOrder_of_checked checked) faultless).gatesExclude

/-- An insertion has added its job to a new queue and still holds the gate, and another one for that
queue has given up. -/
def GatesExclude.moves : List (Move Float) :=
  let requirements : Requirements :=
    ⟨some "alice", some "users", some "prod", some 700, .ofFn fun _ => none⟩
  .start (.insert "j1" requirements 3) :: .start (.insert "j2" requirements 5) ::
    Move.turns 0 4 ++ Move.turns 1 31

theorem gatesExclude_run_standard :
    (∀ move ∈ GatesExclude.moves, move.isFaultless = true) ∧
      ((gateRules Float).after 0 (System.run .standard GatesExclude.moves).history = some 1 ∧
        (System.run .standard GatesExclude.moves).store.queues[(1 : Int)]?.map
          StoredQueue.enabled = some false ∧
        (System.run .standard GatesExclude.moves).tasks.map Task.isInserting = [true, false] ∧
        (System.run .standard GatesExclude.moves).store.jobs.keys = ["j1"]) ∧
      GatesExclude (System.run .standard GatesExclude.moves) := by
  have faultless : ∀ move ∈ GatesExclude.moves, move.isFaultless = true := by decide
  refine ⟨faultless, ?_, gatesExclude_run Broker.checked_standard faultless⟩
  decide +kernel

end Matchmaker
