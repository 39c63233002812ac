import Matchmaker.Proofs.Broker.Asking
import Matchmaker.Proofs.Concurrency.System

/-!
Which jobs a call removes. A match removes at most one job and then cannot but hand it out, whatever
fails afterwards; a deletion counts the jobs that it removes; no other call removes any.
-/
namespace Matchmaker

variable {α : Type}

/-! ### Queueing and removing -/

def Request.added? : (q : Request α) → q.Answer → Option String
  | store (.addJob _ job _ _), (.ok _ : Except StoreError Unit) => some job
  | _, _ => none

def Request.removed? : (q : Request α) → q.Answer → Option String
  | store (.removeJob job), (.ok (some _) : Except StoreError (Option Int)) => some job
  | _, _ => none

def Request.isRemoval : Request α → Bool
  | store (.removeJob _) => true
  | _ => false

theorem Request.removed?_of_not_isRemoval {q : Request α} (h : q.isRemoval = false)
    (answer : q.Answer) : q.removed? answer = none := by
  unfold removed?
  split
  · cases h
  · rfl

theorem Request.not_isRemoval_of_isQuiet {q : Request α} (h : q.isQuiet = true) :
    q.isRemoval = false := by
  unfold isRemoval
  split
  · cases h
  · rfl

theorem Request.not_isRemoval_of_inserts {job : String} {submitted : Int} {effective : α}
    {q : Request α} (h : q.Inserts job submitted effective) : q.isRemoval = false := by
  unfold isRemoval
  split
  · cases h
  · rfl

/-! ### Rules -/

namespace BrokerCall

/-- Whether a call that has removed these jobs may remove another one. -/
def mayRemove : BrokerCall → List String → Prop
  | takeJob _, removed => removed = []
  | delete _, _ => True
  | _, _ => False

/-- How a match ends: with the job that it removed, if it removed one. -/
def MatchEnds (removed : List String) : Operation.Ending (Option MatchedJob) → Prop
  | some (.ok (some m)) => removed = [m.job]
  | _ => removed = []

def DeleteEnds (removed : List String) : Operation.Ending DeleteReport → Prop
  | some (.ok report) => report.removed = removed.length
  | _ => True

def RemovalEnds : (call : BrokerCall) → List String → Operation.Ending (call.Result α) → Prop
  | takeJob _ => MatchEnds
  | delete _ => DeleteEnds
  | _ => fun _ _ => True

end BrokerCall

variable (α) in
/-- The state of a call are the jobs that it has removed. -/
def removalRules : Rules (List String) α where
  start := []
  allows call removed q := q.isRemoval = true → call.mayRemove removed
  next removed q answer := removed ++ (q.removed? answer).toList
  ends := BrokerCall.RemovalEnds

namespace Removal

open Operation

variable {β : Type} {call : BrokerCall} {removed : List String}

theorem keeps_of_only {ends : Ending β → Prop} {x : Operation α β}
    (h : x.Keeps (.only fun q => q.isRemoval = false) (fun _ r => ends r) ())
    {post : List String → Ending β → Prop} (result : ∀ r, ends r → post removed r) :
    x.Keeps ((removalRules α).protocol call) post removed := by
  refine Script.Keeps.of_ignored h (fun q other => ⟨fun removal => ?_, fun a => ?_⟩) result
  · rw [other] at removal
    cases removal
  · change removed ++ (q.removed? a).toList = removed
    rw [Request.removed?_of_not_isRemoval other]
    exact List.append_nil removed

theorem keeps_of_other {x : Operation α β} (h : x.Within (fun q => q.isRemoval = false) True)
    {post : List String → Ending β → Prop} (result : ∀ r, post removed r) :
    x.Keeps ((removalRules α).protocol call) post removed :=
  keeps_of_only h fun r _ => result r

theorem keeps_of_quiet {ends : Ending β → Prop} {x : Operation α β}
    (h : x.Keeps (.only fun q => q.isQuiet = true) (fun _ r => ends r) ())
    {post : List String → Ending β → Prop} (result : ∀ r, ends r → post removed r) :
    x.Keeps ((removalRules α).protocol call) post removed :=
  keeps_of_only (Script.Keeps.widen h fun _ => Request.not_isRemoval_of_isQuiet) result

theorem within_of_quiet {ends : Prop} {x : Operation α β} (h : Broker.Quiet ends x) :
    x.Within (fun q => q.isRemoval = false) True :=
  h.mono (fun _ => Request.not_isRemoval_of_isQuiet) fun _ => trivial

theorem keeps_bind_other {γ : Type} {x : Operation α β} {f : β → Operation α γ}
    {post : List String → Ending γ → Prop} (h : x.Within (fun q => q.isRemoval = false) True)
    (stuck : post removed none) (fails : ∀ e, post removed (some (.error e)))
    (rest : ∀ c, (f c).Keeps ((removalRules α).protocol call) post removed) :
    (x >>= f).Keeps ((removalRules α).protocol call) post removed := by
  refine (keeps_bind x f).2 (keeps_of_other h fun r => ?_)
  rcases r with _ | e | c
  · exact stuck
  · exact fails e
  · exact rest c

theorem keeps_bind_settled {f : Unit → Operation α β} {x : Operation α Unit}
    {post : List String → Ending β → Prop}
    (h : x.Keeps (.only fun q => q.isQuiet = true) (fun _ r => r = some (.ok ())) ())
    (rest : (f ()).Keeps ((removalRules α).protocol call) post removed) :
    (x >>= f).Keeps ((removalRules α).protocol call) post removed := by
  refine (keeps_bind x f).2 (keeps_of_quiet h fun r settled => ?_)
  rw [settled]
  exact rest

/-! ### Matches -/

def Taken (removed : List String) : Ending (Option String) → Prop
  | some (.ok (some job)) => removed = [job]
  | _ => removed = []

variable {c : Capabilities}

theorem keeps_takeAny (batch : List String) :
    (Broker.takeAny (α := α) batch).Keeps ((removalRules α).protocol (.takeJob c)) Taken [] := by
  induction size : batch.length generalizing batch with
  | zero =>
    obtain rfl := List.length_eq_zero_iff.1 size
    rw [Broker.takeAny]
    rfl
  | succ n ih =>
    obtain ⟨first, rest, rfl⟩ := List.exists_cons_of_length_eq_add_one size
    rw [Broker.takeAny]
    refine keeps_bind_other (within_choose (fun _ => rfl) trivial) rfl (fun _ => rfl) fun i => ?_
    refine keeps_bind_other (within_orAbort fun _ => trivial) rfl (fun _ => rfl) fun job => ?_
    rw [keeps_bind, keeps_store]
    refine ⟨fun _ => rfl, fun home => ?_, fun e => rfl⟩
    cases home with
    | some home => rfl
    | none =>
      refine ih _ ?_
      rw [Broker.length_swapRemove, size]
      rfl

variable [Scalar α] {b : Broker α}

theorem keeps_takeFrom (inOrder : b.InOrder) (candidate : Candidate α) :
    (b.takeFrom candidate).Keeps ((removalRules α).protocol (.takeJob c)) Taken [] := by
  rw [Broker.takeFrom]
  refine keeps_bind_other (within_store rfl) rfl (fun _ => rfl) fun classes => ?_
  cases classes with
  | nil => exact keeps_bind_settled (b.settles_cleanUp inOrder candidate) rfl
  | cons first rest =>
    refine keeps_bind_other (within_choose (fun _ => rfl) trivial) rfl (fun _ => rfl) fun winner => ?_
    refine keeps_bind_other (within_orAbort fun _ => trivial) rfl (fun _ => rfl) fun chosen => ?_
    refine keeps_bind_other (within_store rfl) rfl (fun _ => rfl) fun batch => ?_
    exact keeps_takeAny batch

theorem keeps_takeFirst (inOrder : b.InOrder) (candidates : List (Candidate α)) :
    (b.takeFirst candidates).Keeps ((removalRules α).protocol (.takeJob c))
      BrokerCall.MatchEnds [] := by
  induction candidates with
  | nil => rfl
  | cons candidate rest ih =>
    rw [Broker.takeFirst]
    refine (keeps_takeFrom inOrder candidate).bind (fun _ taken => taken) (fun _ _ taken => taken) ?_
    intro removed job taken
    cases job with
    | none =>
      cases taken
      exact ih
    -- What comes after the removal cannot keep the job from being handed out.
    | some job => exact keeps_bind_settled (b.settles_cleanUpAfter inOrder candidate) taken

variable [Random.Logarithm α]

theorem keeps_extractWithin (inOrder : b.InOrder) (f : Filter) (attempts : Nat) :
    (b.extractWithin f attempts).Keeps ((removalRules α).protocol (.takeJob c))
      BrokerCall.MatchEnds [] := by
  induction attempts with
  | zero => rfl
  | succ attempts ih =>
    have ranked : (b.rankedCandidates f).Within (fun q => q.isRemoval = false) True :=
      Within.bind (within_store rfl) fun found => within_choose (fun _ => rfl) trivial
    rw [Broker.extractWithin]
    refine keeps_bind_other ranked rfl (fun _ => rfl) fun candidates => ?_
    cases candidates with
    | nil => rfl
    | cons first rest =>
      refine (keeps_takeFirst inOrder _).bind (fun _ ended => ended) (fun _ _ ended => ended) ?_
      intro removed found ended
      cases found with
      | none =>
        cases ended
        exact ih
      | some m => exact ended

theorem keeps_takeJob (inOrder : b.InOrder) :
    (b.takeJob c).Keeps ((removalRules α).protocol (.takeJob c)) BrokerCall.MatchEnds [] := by
  unfold Broker.takeJob
  split
  · exact keeps_bind_other (within_record rfl) rfl (fun _ => rfl) fun _ => rfl
  · refine (keeps_extractWithin inOrder _ _).bind (fun _ ended => ended) (fun _ _ ended => ended) ?_
    intro removed found ended
    exact keeps_bind_settled ⟨rfl, fun _ => rfl⟩ ended

/-! ### Deletions -/

def Counted (removed : List String) : Ending Broker.Removals → Prop
  | some (.ok r) => r.removed = removed.length
  | _ => True

omit [Scalar α] [Random.Logarithm α] in
theorem keeps_removeJobs {jobs : List String} (r : Broker.Removals) (batch : List String)
    (counted : r.removed = removed.length) :
    (Broker.removeJobs (α := α) r batch).Keeps ((removalRules α).protocol (.delete jobs)) Counted
      removed := by
  induction batch generalizing r removed with
  | nil => exact counted
  | cons job rest ih =>
    rw [Broker.removeJobs, keeps_bind, keeps_store]
    refine ⟨fun _ => trivial, fun home => ?_, fun e => trivial⟩
    cases home with
    | some home =>
      refine ih _ ?_
      change r.removed + 1 = (removed ++ [job]).length
      rw [counted, List.length_append]
      rfl
    | none =>
      refine ih _ ?_
      change r.removed = (removed ++ []).length
      rw [counted, List.append_nil]

omit [Random.Logarithm α] in
theorem keeps_delete (jobs : List String) :
    (b.delete jobs).Keeps ((removalRules α).protocol (.delete jobs)) BrokerCall.DeleteEnds [] := by
  rw [Broker.delete]
  refine (keeps_removeJobs {} jobs rfl).bind (fun _ _ => trivial) (fun _ _ _ => trivial) ?_
  intro removed removals counted
  refine keeps_bind_other (within_record rfl) trivial (fun _ => trivial) fun _ => ?_
  refine keeps_bind_other (within_of_quiet (Broker.quiet_dropEmptied False _)) trivial
    (fun _ => trivial) fun dropped => ?_
  refine keeps_bind_other (within_record rfl) trivial (fun _ => trivial) fun _ => ?_
  exact keeps_bind_other (within_of_quiet (b.quiet_recalculateGroups _)) trivial (fun _ => trivial)
    fun _ => counted

/-! ### Other calls -/

attribute [local irreducible] Broker.definitionFor

omit [Random.Logarithm α] in
theorem within_insert (job : String) (requirements : Requirements) (submitted : Int) :
    (b.insert job requirements submitted).Within (fun q => q.isRemoval = false) True :=
  Asking.within_insert job submitted (fun _ => trivial) requirements (fun _ => trivial)
    (fun _ _ _ => Request.not_isRemoval_of_inserts) rfl

theorem within_candidates (resource : Capabilities) :
    (b.candidates resource).Within (fun q => q.isRemoval = false) True := by
  refine Within.bind (within_ofValidation _) fun f => ?_
  exact Within.bind (within_store rfl) fun found => within_choose (fun _ => rfl) trivial

theorem keptBy (inOrder : b.InOrder) : (removalRules α).KeptBy b := by
  have quiet {call : BrokerCall} {ends : Prop} (removes : ∀ removed r,
      (removalRules α).ends call removed r) (h : Broker.Quiet ends (b.course call)) :
      (b.course call).Keeps ((removalRules α).protocol call) ((removalRules α).ends call) [] :=
    keeps_of_quiet h fun r _ => removes [] r
  intro call
  cases call with
  | insert job requirements submitted =>
    exact keeps_of_other (within_insert job requirements submitted) fun _ => trivial
  | takeJob resource => exact keeps_takeJob inOrder
  | candidates resource => exact keeps_of_other (within_candidates resource) fun _ => trivial
  | delete jobs => exact keeps_delete jobs
  | reprioritize updates => exact quiet (fun _ _ => trivial) (b.quiet_reprioritize updates)
  | recalculate group => exact quiet (fun _ _ => trivial) (b.quiet_recalculate group)
  | recalculateAll => exact quiet (fun _ _ => trivial) b.quiet_recalculateAll
  | clean => exact quiet (fun _ _ => trivial) b.quiet_clean
  | refreshShares => exact quiet (fun _ _ => trivial) (Broker.quiet_refreshShares False)
  | refreshHistory => exact quiet (fun _ _ => trivial) (b.quiet_refreshHistory False)
  | sweep => exact quiet (fun _ _ => trivial) b.quiet_sweep

end Removal

end Matchmaker
