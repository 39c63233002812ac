import Matchmaker.Proofs.Concurrency.Conservation
import Matchmaker.Proofs.Store.Priorities
import Mathlib.Algebra.BigOperators.Group.Finset.Piecewise
import Mathlib.Algebra.Ring.Int.Defs
import Mathlib.Algebra.Group.Prod

/-!
The counters of jobs and queues agree with the store whenever no call is under way. Some changes are
counted right after they were made, others at the end of a call for all that it did. What a call has
changed and not counted is zero at each of its ends, unless a call to the store fails.
-/
namespace Matchmaker

variable {α : Type}

abbrev Tally := Int × Int

/-! ### Counters -/

def Event.reported : Event → Tally
  | insertion .inserted => (1, 0)
  | answer .matched => (-1, 0)
  | jobsDeleted count => (-count, 0)
  | queueCreated => (0, 1)
  | queuesDeleted count => (0, -count)
  | _ => 0

namespace Metrics

def stock (m : Metrics) : Tally :=
  ((m.inserts.getD "inserted" 0 : Int) - m.answers.getD "matched" 0 - m.deletedJobs,
    (m.queues.getD "created" 0 : Int) - m.queues.getD "deleted" 0)

theorem getD_add (c : Counts) (label other : String) (count : Nat) :
    (c.add label count).getD other 0 = c.getD other 0 + if label = other then count else 0 := by
  rw [Counts.add, Std.ExtTreeMap.getD_insert]
  by_cases same : label = other
  · simp [same]
  · simp [same]

theorem stock_record (m : Metrics) (event : Event) :
    (m.record event).stock = m.stock + event.reported := by
  cases event with
  | insertion outcome =>
    cases outcome <;> simp [stock, record, Event.reported, getD_add, InsertOutcome.label]
    omega
  | answer result =>
    cases result <;> simp [stock, record, Event.reported, getD_add, MatchResult.label]
    omega
  | jobsDeleted count => simp [stock, record, Event.reported]; omega
  | queueCreated => simp [stock, record, Event.reported, getD_add]; omega
  | queuesDeleted count => simp [stock, record, Event.reported, getD_add]; omega
  | _ => simp [stock, record, Event.reported]

end Metrics

/-! ### One exchange -/

namespace Request

def brought : (q : Request α) → q.Answer → Tally
  | store (.addJob _ _ _ _), (.ok _ : Except StoreError Unit) => (1, 0)
  | store (.removeJob _), (.ok (some _) : Except StoreError (Option Int)) => (-1, 0)
  | store (.create _ _ _), (.ok _ : Except StoreError Int) => (0, 1)
  | store (.deleteIfEmpty _), (.ok true : Except StoreError Bool) => (0, -1)
  | _, _ => 0

def reported : Request α → Tally
  | record event => event.reported
  | _ => 0

/-- What an exchange changes and does not count. -/
def unreported (q : Request α) (answer : q.Answer) : Tally := q.brought answer - q.reported

end Request

/-- Whether a call can be refused by a store that works. -/
def StoreCall.mayBeRefused : StoreCall α → Bool
  | create _ _ _ => true
  | addJob _ _ _ _ => true
  | _ => false

def Request.fails : (q : Request α) → q.Answer → Bool
  | store call, answer => !call.mayBeRefused && !Except.isOk (answer : Except StoreError call.Answer)
  | _, _ => false

def Request.IsNeutral (q : Request α) : Prop := ∀ answer, q.unreported answer = 0

theorem Request.isNeutral_of_reprices {q : Request α} (h : q.reprices = true) : q.IsNeutral := by
  unfold reprices at h
  split at h <;> first | exact fun _ => rfl | cases h

theorem Request.isNeutral_of_refreshes {q : Request α} (h : q.refreshes = true) : q.IsNeutral := by
  unfold refreshes at h
  split at h <;> first | exact fun _ => rfl | cases h

/-! ### Rules -/

variable (α) in
/-- The state is what was changed and not counted; after a failure of the store there is none. -/
def bookkeeping : Protocol (Option Tally) (Request α) Request.Answer where
  allows _ _ := True
  next g q answer := if q.fails answer then none else g.map (· + q.unreported answer)

variable (α) in
def bookkeepingRules : Rules (Option Tally) α where
  start := some 0
  allows _ _ _ := True
  next := (bookkeeping α).next
  ends _ g _ := ∀ t ∈ g, t = 0

namespace Operation

variable {β γ : Type}

/-- Unless the store fails, all ends are as `post` says of what is not counted there. -/
def Accounts (post : Tally → Ending β → Prop) (x : Operation α β) (t : Tally) : Prop :=
  x.Keeps (bookkeeping α) (fun g r => ∀ t ∈ g, post t r) (some t)

variable {post : Tally → Ending β → Prop} {t : Tally}

theorem Accounts.mono {post' : Tally → Ending β → Prop} {x : Operation α β}
    (h : x.Accounts post t) (weaker : ∀ t r, post t r → post' t r) : x.Accounts post' t :=
  Keeps.mono h fun _ r ended t here => weaker t r (ended t here)

theorem keeps_failed (x : Operation α β) :
    x.Keeps (bookkeeping α) (fun g r => ∀ t ∈ g, post t r) none := by
  unfold Keeps
  generalize x.run = script
  induction script with
  | done r => exact nofun
  | ask q next ih =>
    refine ⟨trivial, fun answer => ?_⟩
    -- There is no way back from a failure.
    have still : (bookkeeping α).next none q answer = none := ite_self none
    rw [still]
    exact ih answer
  | abort => exact nofun

theorem accounts_pure {b : β} (h : post t (some (.ok b))) :
    (pure b : Operation α β).Accounts post t := fun _ here => Option.some.inj here ▸ h

theorem accounts_throw {e : BrokerError} (h : post t (some (.error e))) :
    (throw e : Operation α β).Accounts post t := fun _ here => Option.some.inj here ▸ h

theorem accounts_orAbort {value : Option β} (h : post t (value.map .ok)) :
    (orAbort value : Operation α β).Accounts post t :=
  (keeps_orAbort value).2 fun _ here => Option.some.inj here ▸ h

theorem accounts_bind {x : Operation α γ} {f : γ → Operation α β}
    (h : x.Accounts (proceed post fun t c => (f c).Accounts post t) t) :
    (x >>= f).Accounts post t := by
  refine (keeps_bind x f).2 (Keeps.mono h fun g r ended => ?_)
  cases g with
  | none =>
    rcases r with _ | e | c
    · exact nofun
    · exact nofun
    · exact keeps_failed (f c)
  | some t =>
    have here := ended t rfl
    rcases r with _ | e | c
    · exact fun _ same => Option.some.inj same ▸ here
    · exact fun _ same => Option.some.inj same ▸ here
    · exact here

theorem accounts_ask {q : Request α} {post : Tally → Ending q.Answer → Prop}
    (h : ∀ answer, q.fails answer = false → post (t + q.unreported answer) (some (.ok answer))) :
    (ask q).Accounts post t := by
  refine (keeps_ask q _).2 ⟨trivial, fun answer later here => ?_⟩
  change later ∈ (if q.fails answer then none else some (t + q.unreported answer)) at here
  cases fails : q.fails answer with
  | true => simp [fails] at here
  | false =>
    simp only [fails, Bool.false_eq_true, if_false, Option.mem_some_iff] at here
    exact here ▸ h answer fails

theorem accounts_tryStore {call : StoreCall α} (granted : call.mayBeRefused = false)
    {post : Tally → Ending (Except StoreError call.Answer) → Prop}
    (h : ∀ answer : call.Answer,
      post (t + (Request.store call).unreported (Except.ok answer)) (some (.ok (.ok answer)))) :
    (tryStore call).Accounts post t := by
  refine accounts_ask (q := .store call) fun answer works => ?_
  cases answer with
  | ok answer => exact h answer
  | error e => simp [Request.fails, granted, Except.isOk, Except.toBool] at works

theorem accounts_store {call : StoreCall α} (granted : call.mayBeRefused = false)
    {post : Tally → Ending call.Answer → Prop}
    (h : ∀ answer : call.Answer,
      post (t + (Request.store call).unreported (Except.ok answer)) (some (.ok answer))) :
    (store call).Accounts post t :=
  accounts_bind (accounts_tryStore granted fun answer => accounts_pure (h answer))

theorem accounts_neutral {call : StoreCall α} (granted : call.mayBeRefused = false)
    (neutral : (Request.store call).IsNeutral) {post : Tally → Ending call.Answer → Prop}
    (h : ∀ answer : call.Answer, post t (some (.ok answer))) : (store call).Accounts post t := by
  refine accounts_store granted fun answer => ?_
  have same : t + (Request.store call).unreported (Except.ok answer) = t :=
    (congrArg (t + ·) (neutral _)).trans (add_zero t)
  rw [same]
  exact h answer

theorem accounts_record {event : Event} {post : Tally → Ending Unit → Prop}
    (h : post (t - event.reported) (some (.ok ()))) : (record event : Operation α Unit).Accounts post t := by
  refine accounts_ask (q := .record event) fun answer _ => ?_
  have same : t + (Request.record (α := α) event).unreported answer = t - event.reported := by
    change t + (0 - event.reported) = _
    rw [zero_sub, ← sub_eq_add_neg]
  rw [same]
  exact h

theorem accounts_of_only {ends : Ending β → Prop} {x : Operation α β}
    (h : x.Keeps (.only Request.IsNeutral) (fun _ r => ends r) ())
    (result : ∀ r, ends r → post t r) : x.Accounts post t := by
  have kept : Script.Keeps (bookkeeping α) (fun g r => (∀ t' ∈ g, t' = t) ∧ ends r) x.run
      (some t) := by
    refine Script.Keeps.of_allowed h (by simp) fun g q stays neutral => ⟨trivial, fun answer => ?_⟩
    intro later here
    change later ∈ (if q.fails answer then none else g.map (· + q.unreported answer)) at here
    split at here
    · cases here
    · rw [neutral answer] at here
      obtain ⟨t', mem, rfl⟩ := Option.map_eq_some_iff.1 here
      rw [stays t' mem, add_zero]
  exact Keeps.mono kept fun _ r ended later here => ended.1 later here ▸ result r ended.2

theorem accounts_of_within {x : Operation α β} (h : x.Within Request.IsNeutral True)
    (result : ∀ r, post t r) : x.Accounts post t := accounts_of_only h fun r _ => result r

theorem accounts_attempt {x : Operation α β} (h : x.Within Request.IsNeutral False)
    {post : Tally → Ending Unit → Prop} (result : post t (some (.ok ()))) :
    (attempt x).Accounts post t :=
  accounts_of_only h.attempt_settles fun _ settled => settled ▸ result

end Operation

namespace Bookkeeping

open Operation

attribute [local simp] Request.unreported Request.brought Request.reported Event.reported

def Settled (before t : Tally) (r : Ending Unit) : Prop := t = before ∧ r = some (.ok ())

/-! ### Insertions -/

/-- A job that was added is still to be counted. -/
def AttemptEnds (t : Tally) : Ending Broker.Attempt → Prop
  | some (.ok (.done _)) => t = (1, 0)
  | _ => t = 0

theorem accounts_release (id : Int) (t : Tally) :
    (Broker.release (α := α) id).Accounts (Settled t) t := by
  rw [Broker.release]
  exact accounts_bind (accounts_neutral rfl (fun _ => rfl) fun _ => accounts_pure ⟨rfl, rfl⟩)

theorem accounts_abandon (id : Int) (t : Tally) :
    (Broker.abandon (α := α) id).Accounts (fun t' _ => t' = t) t := by
  rw [Broker.abandon]
  refine accounts_bind (accounts_tryStore rfl fun changed => ?_)
  refine accounts_bind (accounts_tryStore rfl fun deleted => ?_)
  cases deleted with
  | false => exact accounts_pure (by simp)
  | true => exact accounts_record (by simp)

theorem accounts_insertIntoExisting (id : Int) (job : String) (submitted : Int) (effective : α) :
    (Broker.insertIntoExisting id job submitted effective).Accounts AttemptEnds 0 := by
  rw [Broker.insertIntoExisting]
  refine accounts_bind (accounts_neutral rfl (fun _ => rfl) fun changed => ?_)
  cases changed with
  | false => exact accounts_pure rfl
  | true =>
    refine accounts_bind (accounts_ask fun added _ => ?_)
    refine accounts_bind ((accounts_release id _).mono ?_)
    rintro t _ ⟨rfl, rfl⟩
    rcases added with e | _
    · cases e <;> first | exact accounts_pure rfl | exact accounts_throw rfl
    · exact accounts_pure rfl

variable [Scalar α] {b : Broker α}

theorem accounts_recalculate (inOrder : b.InOrder) (group : String) (t : Tally) :
    (attempt (b.recalculate group)).Accounts (Settled t) t := by
  refine accounts_attempt ?_ ⟨rfl, rfl⟩
  exact (b.reprices_recalculate group).mono (fun _ => Request.isNeutral_of_reprices)
    fun fails => fails inOrder

theorem accounts_insertIntoNew (inOrder : b.InOrder) (d : Definition) (job : String)
    (submitted : Int) (effective : α) :
    (b.insertIntoNew d job submitted effective).Accounts AttemptEnds 0 := by
  rw [Broker.insertIntoNew]
  refine accounts_bind (accounts_ask fun created _ => ?_)
  rcases created with e | id
  · cases e <;> first | exact accounts_pure rfl | exact accounts_throw rfl
  · refine accounts_bind (accounts_record ?_)
    refine accounts_bind (accounts_ask fun added _ => ?_)
    rcases added with e | _
    · refine accounts_bind ((accounts_abandon id _).mono fun t r same => ?_)
      subst same
      rcases r with _ | e' | _ <;> first | exact accounts_throw rfl | rfl
    · refine accounts_bind ((accounts_recalculate inOrder d.ownerGroup _).mono ?_)
      rintro t _ ⟨rfl, rfl⟩
      refine accounts_bind ((accounts_release id _).mono ?_)
      rintro t _ ⟨rfl, rfl⟩
      exact accounts_pure rfl

theorem accounts_insertRepeatedly (inOrder : b.InOrder) (d : Definition) (job : String)
    (submitted : Int) (effective : α) (attempts : Nat) :
    (b.insertRepeatedly d job submitted effective attempts).Accounts (fun t _ => t = 0) 0 := by
  induction attempts with
  | zero => exact accounts_bind (accounts_record (accounts_throw rfl))
  | succ attempts ih =>
    have once : (b.insertOnce d job submitted effective).Accounts AttemptEnds 0 := by
      rw [Broker.insertOnce]
      refine accounts_bind (accounts_neutral rfl (fun _ => rfl) fun found => ?_)
      cases found with
      | some id => exact accounts_insertIntoExisting id job submitted effective
      | none => exact accounts_insertIntoNew inOrder d job submitted effective
    rw [Broker.insertRepeatedly]
    refine accounts_bind (once.mono fun t r ended => ?_)
    rcases r with _ | e | id | _
    · exact ended
    · exact ended
    · cases ended
      exact accounts_bind (accounts_record (accounts_pure rfl))
    · cases ended
      exact accounts_bind (accounts_record ih)

attribute [local irreducible] Broker.definitionFor

theorem accounts_insert (inOrder : b.InOrder) (job : String) (requirements : Requirements)
    (submitted : Int) :
    (b.insert job requirements submitted).Accounts (fun t _ => t = 0) 0 := by
  unfold Broker.insert
  split
  · exact accounts_bind (accounts_record (accounts_throw rfl))
  · refine accounts_bind (accounts_orAbort ?_)
    cases b.policy.bounds.effective? submitted with
    | none => rfl
    | some effective => exact accounts_insertRepeatedly inOrder _ job submitted effective _

/-! ### Matches -/

/-- A job that was removed is still to be counted. -/
def Taken {β : Type} (t : Tally) : Ending (Option β) → Prop
  | some (.ok (some _)) => t = (-1, 0)
  | _ => t = 0

omit [Scalar α] in
theorem accounts_choose {β : Type} {d : Random.Draw β} {post : Tally → Ending β → Prop} {t : Tally}
    (h : ∀ r, post t r) : (choose d : Operation α β).Accounts post t :=
  accounts_of_within (within_choose (fun _ _ => rfl) trivial) h

omit [Scalar α] in
theorem accounts_takeAny (batch : List String) :
    (Broker.takeAny (α := α) batch).Accounts Taken 0 := by
  induction size : batch.length generalizing batch with
  | zero =>
    obtain rfl := List.length_eq_zero_iff.1 size
    rw [Broker.takeAny]
    exact accounts_pure rfl
  | succ n ih =>
    obtain ⟨first, rest, rfl⟩ := List.exists_cons_of_length_eq_add_one size
    rw [Broker.takeAny]
    refine accounts_bind (accounts_choose fun r => ?_)
    rcases r with _ | e | i
    · rfl
    · rfl
    · refine accounts_bind (accounts_orAbort ?_)
      cases (first :: rest)[i]? with
      | none => rfl
      | some job =>
        refine accounts_bind (accounts_store rfl fun home => ?_)
        cases home with
        | some home => exact accounts_pure rfl
        | none =>
          refine ih _ ?_
          rw [Broker.length_swapRemove, size]
          rfl

theorem accounts_cleanUp (inOrder : b.InOrder) (candidate : Candidate α) (t : Tally) :
    (b.cleanUp candidate).Accounts (Settled t) t := by
  rw [Broker.cleanUp]
  refine accounts_bind (accounts_tryStore rfl fun deleted => ?_)
  cases deleted with
  | false => exact accounts_pure ⟨by simp, rfl⟩
  | true =>
    refine accounts_bind (accounts_record ?_)
    refine (accounts_recalculate inOrder candidate.ownerGroup _).mono ?_
    rintro t _ ⟨rfl, rfl⟩
    exact ⟨by simp, rfl⟩

theorem accounts_cleanUpAfter (inOrder : b.InOrder) (candidate : Candidate α) (t : Tally) :
    (b.cleanUpAfter candidate).Accounts (Settled t) t := by
  rw [Broker.cleanUpAfter]
  refine accounts_bind (accounts_tryStore rfl fun left => ?_)
  cases left with
  | zero => exact (accounts_cleanUp inOrder candidate _).mono fun t _ ended => by simpa using ended
  | succ n => exact accounts_pure ⟨by simp, rfl⟩

theorem accounts_takeFrom (inOrder : b.InOrder) (candidate : Candidate α) :
    (b.takeFrom candidate).Accounts Taken 0 := by
  rw [Broker.takeFrom]
  refine accounts_bind (accounts_neutral rfl (fun _ => rfl) fun classes => ?_)
  cases classes with
  | nil =>
    refine accounts_bind ((accounts_cleanUp inOrder candidate 0).mono ?_)
    rintro t _ ⟨rfl, rfl⟩
    exact accounts_pure rfl
  | cons first rest =>
    refine accounts_bind (accounts_choose fun r => ?_)
    rcases r with _ | e | winner
    · rfl
    · rfl
    · refine accounts_bind (accounts_orAbort ?_)
      cases (first :: rest)[winner.getD 0]? with
      | none => rfl
      | some chosen =>
        refine accounts_bind (accounts_neutral rfl (fun _ => rfl) fun batch => ?_)
        exact accounts_takeAny batch

theorem accounts_takeFirst (inOrder : b.InOrder) (candidates : List (Candidate α)) :
    (b.takeFirst candidates).Accounts Taken 0 := by
  induction candidates with
  | nil => exact accounts_pure rfl
  | cons candidate rest ih =>
    rw [Broker.takeFirst]
    refine accounts_bind ((accounts_takeFrom inOrder candidate).mono fun t r taken => ?_)
    rcases r with _ | e | _ | job
    · exact taken
    · exact taken
    · cases taken
      exact ih
    · refine accounts_bind ((accounts_cleanUpAfter inOrder candidate t).mono ?_)
      rintro t' _ ⟨rfl, rfl⟩
      exact accounts_pure taken

variable [Random.Logarithm α]

theorem accounts_extractWithin (inOrder : b.InOrder) (f : Filter) (attempts : Nat) :
    (b.extractWithin f attempts).Accounts Taken 0 := by
  induction attempts with
  | zero => exact accounts_pure rfl
  | succ attempts ih =>
    have ranked : (b.rankedCandidates f).Within Request.IsNeutral True :=
      Within.bind (within_store fun _ => rfl) fun _ => within_choose (fun _ _ => rfl) trivial
    rw [Broker.extractWithin]
    refine accounts_bind (accounts_of_within ranked fun r => ?_)
    rcases r with _ | e | _ | ⟨first, rest⟩
    · rfl
    · rfl
    · exact accounts_pure rfl
    · refine accounts_bind ((accounts_takeFirst inOrder (first :: rest)).mono fun t r taken => ?_)
      rcases r with _ | e | _ | found
      · exact taken
      · exact taken
      · cases taken
        exact ih
      · exact accounts_pure taken

theorem accounts_takeJob (inOrder : b.InOrder) (c : Capabilities) :
    (b.takeJob c).Accounts (fun t _ => t = 0) 0 := by
  unfold Broker.takeJob
  split
  · exact accounts_bind (accounts_record (accounts_throw rfl))
  · refine accounts_bind ((accounts_extractWithin inOrder _ _).mono fun t r taken => ?_)
    rcases r with _ | e | _ | found
    · exact taken
    · exact taken
    · cases taken
      exact accounts_bind (accounts_record (accounts_pure rfl))
    · cases taken
      exact accounts_bind (accounts_record (accounts_pure rfl))

/-! ### Deletions -/

omit [Scalar α] [Random.Logarithm α] in
theorem accounts_removeJobs (r : Broker.Removals) (jobs : List String) {t : Tally}
    (counted : t + ((r.removed : Int), 0) = 0) :
    (Broker.removeJobs (α := α) r jobs).Accounts
      (fun t e => ∃ r' : Broker.Removals, e = some (.ok r') ∧ t + ((r'.removed : Int), 0) = 0) t := by
  -- On the jobs that are left: what was removed is counted together, after all of it.
  induction jobs generalizing r t with
  | nil => exact accounts_pure ⟨r, rfl, counted⟩
  | cons job rest ih =>
    rw [Broker.removeJobs]
    refine accounts_bind (accounts_store rfl fun home => ?_)
    cases home with
    | none => exact ih _ (by simpa using counted)
    | some home =>
      refine ih _ ?_
      rw [← counted]
      ext <;> simp
      omega

def Dropped (before t : Tally) (count : Nat) : Prop := t + (0, (count : Int)) = before

theorem dropped_zero (t : Tally) : Dropped t t 0 := add_zero t

theorem Dropped.trans {before middle t : Tally} {count others : Nat}
    (first : Dropped before middle count) (second : Dropped middle t others) :
    Dropped before t (others + count) := by
  rw [Dropped, ← first, ← second]
  ext <;> simp [add_assoc]

theorem Dropped.reported {before t : Tally} {count : Nat} (h : Dropped before t count) :
    t - (Event.queuesDeleted count).reported = before := by
  rw [← h]
  ext <;> simp

omit [Scalar α] [Random.Logarithm α] in
theorem accounts_deleteIfEmpty (id : Int) (t : Tally) :
    (store (.deleteIfEmpty id) : Operation α Bool).Accounts
      (fun t' e => ∃ deleted : Bool, e = some (.ok deleted) ∧ Dropped t t' deleted.toNat) t := by
  refine accounts_store rfl fun deleted => ⟨deleted, rfl, ?_⟩
  cases deleted with
  | false => ext <;> simp
  | true => ext <;> simp

omit [Scalar α] [Random.Logarithm α] in
theorem accounts_dropEmptied (ids : List Int) (t : Tally) :
    (Broker.dropEmptied (α := α) ids).Accounts
      (fun t' e => ∃ dropped, e = some (.ok dropped) ∧ Dropped t t' dropped.1.length) t := by
  induction ids generalizing t with
  | nil => exact accounts_pure ⟨_, rfl, dropped_zero t⟩
  | cons id rest ih =>
    rw [Broker.dropEmptied]
    refine accounts_bind (accounts_neutral rfl (fun _ => rfl) fun found => ?_)
    cases found with
    | none => exact ih t
    | some q =>
      change Accounts _ (ite _ _ _) t
      split
      · refine accounts_bind ((accounts_deleteIfEmpty id t).mono ?_)
        rintro t' _ ⟨deleted, rfl, here⟩
        refine accounts_bind ((ih t').mono ?_)
        rintro t'' _ ⟨others, rfl, there⟩
        refine accounts_pure ⟨_, rfl, ?_⟩
        cases deleted <;> exact here.trans there
      · refine accounts_bind (accounts_pure ?_)
        refine accounts_bind ((ih t).mono ?_)
        rintro t' _ ⟨others, rfl, there⟩
        exact accounts_pure ⟨_, rfl, there⟩

omit [Scalar α] [Random.Logarithm α] in
theorem accounts_dropEach (found : List (Int × String)) (t : Tally) :
    (Broker.dropEach (α := α) found).Accounts
      (fun t' e => ∃ dropped, e = some (.ok dropped) ∧ Dropped t t' dropped.1.length) t := by
  induction found generalizing t with
  | nil => exact accounts_pure ⟨_, rfl, dropped_zero t⟩
  | cons entry rest ih =>
    rw [Broker.dropEach]
    refine accounts_bind ((accounts_deleteIfEmpty entry.1 t).mono ?_)
    rintro t' _ ⟨deleted, rfl, here⟩
    refine accounts_bind ((ih t').mono ?_)
    rintro t'' _ ⟨others, rfl, there⟩
    refine accounts_pure ⟨_, rfl, ?_⟩
    cases deleted <;> exact here.trans there

omit [Random.Logarithm α] in
theorem accounts_recalculateGroups (groups : List String) {t : Tally}
    {post : Tally → Ending Unit → Prop} (h : ∀ r, post t r) :
    (b.recalculateGroups groups).Accounts post t :=
  accounts_of_within ((b.reprices_recalculateGroups groups).mono
    (fun _ => Request.isNeutral_of_reprices) fun _ => trivial) h

omit [Random.Logarithm α] in
theorem accounts_delete (jobs : List String) :
    (b.delete jobs).Accounts (fun t _ => t = 0) 0 := by
  rw [Broker.delete]
  refine accounts_bind ((accounts_removeJobs {} jobs rfl).mono ?_)
  rintro t _ ⟨removals, rfl, removed⟩
  have jobsCounted : t - (Event.jobsDeleted removals.removed).reported = 0 := by
    rw [← removed]
    ext <;> simp
  refine accounts_bind (accounts_record ?_)
  rw [jobsCounted]
  refine accounts_bind ((accounts_dropEmptied _ 0).mono ?_)
  rintro t' _ ⟨dropped, rfl, counted⟩
  refine accounts_bind (accounts_record ?_)
  rw [counted.reported]
  refine accounts_bind (accounts_recalculateGroups _ fun r => ?_)
  rcases r with _ | e | _
  · rfl
  · rfl
  · exact accounts_pure rfl

omit [Random.Logarithm α] in
theorem accounts_clean : b.clean.Accounts (fun t _ => t = 0) 0 := by
  rw [Broker.clean]
  refine accounts_bind (accounts_neutral rfl (fun _ => rfl) fun found => ?_)
  refine accounts_bind ((accounts_dropEach found 0).mono ?_)
  rintro t _ ⟨dropped, rfl, counted⟩
  refine accounts_bind (accounts_record ?_)
  rw [counted.reported]
  refine accounts_bind (accounts_recalculateGroups _ fun r => ?_)
  rcases r with _ | e | _
  · rfl
  · rfl
  · exact accounts_pure rfl

/-! ### All calls -/

theorem keptBy (inOrder : b.InOrder) : (bookkeepingRules α).KeptBy b := by
  have neutral {call : BrokerCall} (h : (b.course call).Within Request.IsNeutral True) :
      (b.course call).Accounts (fun t _ => t = 0) 0 := accounts_of_within h fun _ => rfl
  have repriced {β : Type} {ends : Prop} {x : Operation α β} (h : Broker.Reprices ends x) :
      x.Within Request.IsNeutral True :=
    h.mono (fun _ => Request.isNeutral_of_reprices) fun _ => trivial
  have refreshed {β : Type} {x : Operation α β} (h : Broker.Refreshes x) :
      x.Within Request.IsNeutral True :=
    h.mono (fun _ => Request.isNeutral_of_refreshes) fun _ => trivial
  intro call
  cases call with
  | insert job requirements submitted => exact accounts_insert inOrder job requirements submitted
  | takeJob resource => exact accounts_takeJob inOrder resource
  | candidates resource =>
    refine neutral (Within.bind (within_ofValidation _) fun f => ?_)
    exact Within.bind (within_store fun _ => rfl) fun _ => within_choose (fun _ _ => rfl) trivial
  | delete jobs => exact accounts_delete jobs
  | reprioritize updates =>
    exact neutral (b.within_reprioritize (fun _ _ _ _ => rfl) (fun _ _ => rfl)
      (fun _ => Request.isNeutral_of_reprices) updates)
  | recalculate group => exact neutral (repriced (b.reprices_recalculate group))
  | recalculateAll => exact neutral (repriced b.reprices_recalculateAll)
  | clean => exact accounts_clean
  | refreshShares => exact neutral (refreshed Broker.refreshes_refreshShares)
  | refreshHistory => exact neutral (refreshed b.refreshes_refreshHistory)
  | sweep =>
    refine neutral (Within.bind (refreshed b.refreshes_refreshHistory) fun usageChanged => ?_)
    refine Within.bind (refreshed Broker.refreshes_refreshShares) fun sharesChanged => ?_
    split
    · exact Within.bind (repriced b.reprices_recalculateAll) fun _ => within_pure true
    · exact within_pure false

end Bookkeeping

/-! ### Stores -/

def Store.contents (s : Store α) : Tally := (s.jobs.size, s.queues.size)

namespace Request

theorem brought_of_reads {call : StoreCall α} (h : call.reads = true)
    (answer : Except StoreError call.Answer) : (store call).brought answer = 0 := by
  cases call <;> first | rfl | cases h

theorem brought_of_error (call : StoreCall α) (e : StoreError) :
    (store call).brought (Except.error e) = 0 := by
  cases call <;> rfl

theorem brought_of_call?_eq_none {q : Request α} (h : q.call? = none) (answer : q.Answer) :
    q.brought answer = 0 := by
  cases q with
  | store => cases h
  | _ => rfl

theorem brought_fst (q : Request α) (answer : q.Answer) :
    (q.brought answer).1 =
      (q.added? answer).toList.length - ((q.removed? answer).toList.length : Int) := by
  cases q with
  | store call =>
    cases call with
    | addJob => rcases answer with e | _ <;> rfl
    | removeJob => rcases answer with e | _ | home <;> rfl
    | create => rcases answer with e | id <;> rfl
    | deleteIfEmpty => rcases answer with e | _ | _ <;> rfl
    | _ => rfl
  | _ => rfl

end Request

variable [Scalar α]

namespace Store.Effect

variable {s t : Store α} {call : StoreCall α} {answer : Except StoreError call.Answer}

theorem works (e : s.Effect call answer t) : (Request.store call).fails answer = false := by
  cases e with
  | read => cases call <;> rfl
  | _ => rfl

omit [Scalar α] in
theorem queues_size_of_found {id : Int} {q : StoredQueue α} (found : s.queues[id]? = some q)
    (q' : StoredQueue α) : (s.queues.insert id q').size = s.queues.size := by
  have present : s.queues.contains id := by
    simp [Std.ExtTreeMap.contains_eq_isSome_getElem?, found]
  rw [Std.ExtTreeMap.size_insert, if_pos present]

theorem queues_size (e : s.Effect call answer t) (c : s.Consistent) :
    (t.queues.size : Int) = s.queues.size + ((Request.store call).brought answer).2 := by
  cases e with
  | read reads => simp [Request.brought_of_reads reads]
  | created d priority enabled fresh =>
    have absent : ¬ s.queues.contains (s.lastId + 1) := by
      simp [Std.ExtTreeMap.contains_eq_isSome_getElem?, c.next_unused]
    rw [Std.ExtTreeMap.size_insert, if_neg absent]
    rfl
  | switched id expected new q found held =>
    simp [queues_size_of_found found, Request.brought]
  | added id job submitted effective q absent found =>
    simp [queues_size_of_found found, Request.brought]
  | removed job record stored => simp [Std.ExtTreeMap.size_modify, Request.brought]
  | deleted id q found enabled empty =>
    have present : s.queues.contains id := by
      simp [Std.ExtTreeMap.contains_eq_isSome_getElem?, found]
    have positive : s.queues.size ≠ 0 := by
      intro none
      rw [Std.ExtTreeMap.eq_empty_iff_size_eq_zero.2 none] at present
      simp at present
    change ((s.queues.erase id).size : Int) = s.queues.size + -1
    rw [Std.ExtTreeMap.size_erase, if_pos present]
    omega
  | prioritized priorities =>
    simp [queues_setPriorities, Std.ExtTreeMap.size_map, Request.brought]
  | _ => simp [Request.brought]

theorem contents (e : s.Effect call answer t) (c : s.Consistent) :
    t.contents = s.contents + (Request.store call).brought answer := by
  have jobs := e.size
  have job := Request.brought_fst (.store call) answer
  have queues := e.queues_size c
  ext
  · simp only [Store.contents, Prod.fst_add]
    omega
  · exact queues

end Store.Effect

theorem Answered.contents {faulty : Prop} {s t : Store α} {q : Request α} {answer : q.Answer}
    (h : Answered faulty s q answer t) (c : s.Consistent) :
    t.contents = s.contents + q.brought answer := by
  cases h with
  | performed effect => exact effect.contents c
  | failed call e fault => rw [Request.brought_of_error, add_zero]
  | elsewhere other => rw [Request.brought_of_call?_eq_none other, add_zero]

theorem Answered.works {s t : Store α} {q : Request α} {answer : q.Answer}
    (h : Answered False s q answer t) : q.fails answer = false := by
  cases h with
  | performed effect => exact effect.works
  | failed call e fault => exact fault.elim
  | elsewhere other => cases q <;> first | rfl | cases other

/-! ### Histories -/

namespace Entry

def brought (e : Entry α) : Tally := e.question.brought e.answer

def unreported (e : Entry α) : Tally := e.question.unreported e.answer

end Entry

def Request.count (m : Metrics) : Request α → Metrics
  | record event => m.record event
  | _ => m

omit [Scalar α] in
theorem Request.stock_count (m : Metrics) (q : Request α) :
    (q.count m).stock = m.stock + q.reported := by
  cases q with
  | record event => exact m.stock_record event
  | _ => exact (add_zero m.stock).symm

def System.metrics (s : System α) : Metrics :=
  s.history.foldl (fun m e => e.question.count m) {}

omit [Scalar α] in
theorem stock_foldl (m : Metrics) (history : List (Entry α)) :
    (history.foldl (fun m e => e.question.count m) m).stock =
      m.stock + (history.map fun e => e.question.reported).sum := by
  induction history generalizing m with
  | nil => simp
  | cons e rest ih =>
    rw [List.foldl_cons, ih, Request.stock_count, List.map_cons, List.sum_cons, add_assoc]

theorem Trace.contents {faulty : Prop} {s t : Store α} {h : List (Entry α)}
    (trace : Trace faulty s h t) (c : s.Consistent) :
    t.contents = s.contents + (h.map Entry.brought).sum := by
  induction trace with
  | nil => simp
  | cons answered _ ih =>
    rw [ih (answered.consistent c), answered.contents c, List.map_cons, List.sum_cons, add_assoc]
    rfl

theorem Trace.works {s t : Store α} {h : List (Entry α)} (trace : Trace False s h t) :
    ∀ e ∈ h, e.question.fails e.answer = false := by
  induction trace with
  | nil => exact fun _ mem => absurd mem List.not_mem_nil
  | cons answered _ ih => exact List.forall_mem_cons.2 ⟨answered.works, ih⟩

omit [Scalar α] in
theorem after_bookkeepingRules (i : Nat) {history : List (Entry α)}
    (works : ∀ e ∈ history, e.question.fails e.answer = false) :
    (bookkeepingRules α).after i history =
      some ((history.filter (·.task = i)).map Entry.unreported).sum := by
  rw [Rules.after_eq]
  have own (e : Entry α) (mem : e ∈ history.filter (·.task = i)) :
      e.question.fails e.answer = false := works e (List.mem_of_mem_filter mem)
  generalize history.filter (·.task = i) = asked at own ⊢
  have moved (before : Tally) : asked.foldl (fun g e =>
      (bookkeepingRules α).next g e.question e.answer) (some before) =
        some (before + (asked.map Entry.unreported).sum) := by
    induction asked generalizing before with
    | nil => simp
    | cons e rest ih =>
      have next : (bookkeepingRules α).next (some before) e.question e.answer =
          some (before + e.unreported) := if_neg (by simp [own e List.mem_cons_self])
      rw [List.foldl_cons, next, ih fun e' mem => own e' (List.mem_cons_of_mem e mem),
        List.map_cons, List.sum_cons, add_assoc]
  exact (moved 0).trans (congrArg some (zero_add _))

omit [Scalar α] in
theorem sum_map_unreported (history : List (Entry α)) :
    (history.map Entry.unreported).sum =
      (history.map Entry.brought).sum - (history.map fun e => e.question.reported).sum := by
  induction history with
  | nil => rfl
  | cons e rest ih =>
    rw [List.map_cons, List.map_cons, List.map_cons, List.sum_cons, List.sum_cons, List.sum_cons, ih,
      add_sub_add_comm]
    rfl

omit [Scalar α] in
theorem sum_unreported {n : Nat} {history : List (Entry α)} (known : ∀ e ∈ history, e.task < n) :
    ∑ i ∈ Finset.range n, ((history.filter (·.task = i)).map Entry.unreported).sum =
      (history.map Entry.unreported).sum := by
  induction history with
  | nil => simp
  | cons e rest ih =>
    have here (i : Nat) : (((e :: rest).filter (·.task = i)).map Entry.unreported).sum =
        (if e.task = i then e.unreported else 0) +
          ((rest.filter (·.task = i)).map Entry.unreported).sum := by
      by_cases own : e.task = i <;> simp [own]
    simp only [here, Finset.sum_add_distrib]
    rw [ih fun e' mem => known e' (List.mem_cons_of_mem e mem), Finset.sum_ite_eq,
      if_pos (Finset.mem_range.2 (known e List.mem_cons_self)), List.map_cons, List.sum_cons]

/-! ### Runs -/

def Task.isUnderWay : Task α → Bool
  | ⟨_, .ask _ _⟩ => true
  | _ => false

/-- The counters of jobs and of queues agree with the store. -/
structure Booked (s : System α) : Prop where
  jobs : (s.metrics.inserts.getD "inserted" 0 : Int) - s.metrics.answers.getD "matched" 0 -
    s.metrics.deletedJobs = s.store.jobs.size
  queues : (s.metrics.queues.getD "created" 0 : Int) - s.metrics.queues.getD "deleted" 0 =
    s.store.queues.size

variable [Random.Logarithm α]

omit [Scalar α] [Random.Logarithm α] in
theorem Rules.Followed.unreported {s : System α} (followed : (bookkeepingRules α).Followed s)
    (works : ∀ e ∈ s.history, e.question.fails e.answer = false)
    (still : ∀ task ∈ s.tasks, task.isUnderWay = false) {i : Nat} (bound : i < s.tasks.length) :
    ((s.history.filter (·.task = i)).map Entry.unreported).sum = 0 := by
  have kept := followed.kept i _ (List.getElem?_eq_getElem bound)
  rw [after_bookkeepingRules i works] at kept
  have ended := still _ (List.getElem_mem bound)
  generalize s.tasks[i] = task at kept ended
  obtain ⟨call, rest⟩ := task
  cases rest with
  | ask q next => cases ended
  | done r => exact kept _ rfl
  | abort => exact kept _ rfl

theorem booked_of_inOrder {b : Broker α} (inOrder : b.InOrder) {moves : List (Move α)}
    (faultless : ∀ move ∈ moves, move.isFaultless)
    (still : ∀ task ∈ (System.run b moves).tasks, task.isUnderWay = false) :
    Booked (System.run b moves) := by
  have followed := Rules.followed_run (Bookkeeping.keptBy inOrder) moves
  have trace : Trace False {} (System.run b moves).history (System.run b moves).store :=
    System.trace_run b moves fun move mem fails => by simp [faultless move mem] at fails
  have settled : ((System.run b moves).history.map Entry.unreported).sum = 0 := by
    rw [← sum_unreported followed.known]
    exact Finset.sum_eq_zero fun i mem =>
      followed.unreported trace.works still (Finset.mem_range.1 mem)
  have counted : (System.run b moves).metrics.stock = (System.run b moves).store.contents := by
    rw [sum_map_unreported, sub_eq_zero] at settled
    rw [trace.contents Store.consistent_empty, settled, System.metrics, stock_foldl]
    rfl
  exact ⟨congrArg Prod.fst counted, congrArg Prod.snd counted⟩

/-- In every run of a broker whose settings are not at fault in which the store does not fail, the
counters agree with the store when no call is under way, whatever the order of turns and whatever
the collaborators answer. -/
theorem booked_run {b : Broker Float} (checked : ∀ settings ∈ b.history, settings.fault? = none)
    {moves : List (Move Float)} (faultless : ∀ move ∈ moves, move.isFaultless)
    (still : ∀ task ∈ (System.run b moves).tasks, task.isUnderWay = false) :
    Booked (System.run b moves) :=
  booked_of_inOrder (Broker.inOrder_of_checked checked) faultless still

/-- A job is deleted before the insertion that queues it has counted it, and no collaborator
answers. -/
def Booked.moves : List (Move Float) :=
  .start (.insert "j1" ⟨some "alice", some "users", some "prod", some 700, .ofFn fun _ => none⟩ 3) ::
    .start (.delete ["j1", "j2"]) :: Move.turns 0 4 ++ Move.turns 1 9 ++ Move.turns 0 4

theorem booked_run_moves :
    (∀ task ∈ (System.run .standard Booked.moves).tasks, task.isUnderWay = false) ∧
      (System.run .standard Booked.moves).store.queues.size = 1 ∧
      Booked (System.run .standard Booked.moves) := by
  have ended : (∀ task ∈ (System.run .standard Booked.moves).tasks, task.isUnderWay = false) ∧
      (System.run .standard Booked.moves).store.queues.size = 1 := by
    decide +kernel
  exact ⟨ended.1, ended.2, booked_run Broker.checked_standard (by decide) ended.1⟩

end Matchmaker
