import Matchmaker.Broker.Insert
import Matchmaker.Proofs.Broker.Quiet
import Matchmaker.Proofs.Random.Choice

/-!
What calls ask. An insertion adds its job and no other, with its own priorities, and removes and
changes none. Matches and deletions touch no gate and write no record of a job, but for those that
they remove.
-/
namespace Matchmaker

variable {α : Type}

namespace Request

def Inserts (job : String) (submitted : Int) (effective : α) : Request α → Prop
  | store (.addJob _ job' submitted' effective') =>
    job' = job ∧ submitted' = submitted ∧ effective' = effective
  | store (.removeJob _) => False
  | store (.updateJob _ _ _) => False
  | reloadShares => False
  | book _ => False
  | hold _ _ _ => False
  | _ => True

def keepsSources : Request α → Bool
  | reloadShares => false
  | book _ => false
  | hold _ _ _ => false
  | _ => true

/-- Whether a question touches no gate, neither adds nor changes a job, and leaves share settings and
usage as they are. -/
def isApart : Request α → Bool
  | store (.create _ _ _) => false
  | store (.setEnabled _ _ _) => false
  | store (.addJob _ _ _ _) => false
  | store (.updateJob _ _ _) => false
  | q => q.keepsSources

theorem inserts_of_reprices {q : Request α} (h : q.reprices = true) (job : String) (submitted : Int)
    (effective : α) : q.Inserts job submitted effective := by
  unfold reprices at h
  split at h <;> trivial

theorem keepsSources_of_inserts {q : Request α} {job : String} {submitted : Int} {effective : α}
    (h : q.Inserts job submitted effective) : q.keepsSources = true := by
  unfold keepsSources
  split
  · exact h.elim
  · exact h.elim
  · exact h.elim
  · rfl

theorem keepsSources_of_isApart {q : Request α} (h : q.isApart = true) : q.keepsSources = true := by
  unfold isApart at h
  split at h <;> first | exact h | cases h

theorem isApart_of_reprices {q : Request α} (h : q.reprices = true) : q.isApart = true := by
  unfold reprices at h
  split at h <;> first | rfl | cases h

end Request

namespace Asking

open Operation

variable {β : Type} {asks : Request α → Prop} {breaks : Prop}

theorem within_release {id : Int} (h : asks (.store (.setEnabled id false true))) :
    (Broker.release (α := α) id).Within asks breaks :=
  Within.bind (within_store h) fun _ => within_pure ()

theorem within_abandon {id : Int} (opens : asks (.store (.setEnabled id false true)))
    (deletes : asks (.store (.deleteIfEmpty id))) (counts : asks (.record (.queuesDeleted 1))) :
    (Broker.abandon (α := α) id).Within asks breaks := by
  refine Within.bind (within_ask opens) fun enabled => ?_
  cases enabled with
  | error e => exact within_pure ()
  | ok changed =>
    refine Within.bind (within_ask deletes) fun deleted => ?_
    rcases deleted with e | _ | _
    · exact within_pure ()
    · exact within_pure ()
    · exact within_record counts

variable [Scalar α] {b : Broker α}

/-! ### Insertions -/

section Insertions

variable (job : String) (submitted : Int) (effective : α)

omit [Scalar α] in
theorem within_insertIntoExisting (id : Int) :
    (Broker.insertIntoExisting id job submitted effective).Within
      (Request.Inserts job submitted effective) breaks := by
  refine Within.bind (within_store trivial) fun changed => ?_
  cases changed with
  | false => exact within_pure _
  | true =>
    refine Within.bind (within_ask ⟨rfl, rfl, rfl⟩) fun added => ?_
    refine Within.bind (within_release trivial) fun _ => ?_
    rcases added with e | _
    · cases e <;> first | exact within_throw _ | exact within_pure _
    · exact within_pure _

variable (unordered : ¬ b.InOrder → breaks)
include unordered

theorem within_insertIntoNew (d : Definition) :
    (b.insertIntoNew d job submitted effective).Within
      (Request.Inserts job submitted effective) breaks := by
  refine Within.bind (within_ask trivial) fun created => ?_
  rcases created with e | id
  · cases e <;> first | exact within_throw _ | exact within_pure _
  · refine Within.bind (within_record trivial) fun _ => ?_
    refine Within.bind (within_ask ⟨rfl, rfl, rfl⟩) fun added => ?_
    rcases added with e | _
    · exact Within.bind (within_abandon trivial trivial trivial) fun _ => within_throw _
    · have recalculated : (b.recalculate d.ownerGroup).Within
          (Request.Inserts job submitted effective) breaks :=
        (b.reprices_recalculate d.ownerGroup).mono
          (fun _ asked => Request.inserts_of_reprices asked job submitted effective) unordered
      refine Within.bind recalculated.attempt fun _ => ?_
      exact Within.bind (within_release trivial) fun _ => within_pure _

theorem within_insertRepeatedly (d : Definition) (attempts : Nat) :
    (b.insertRepeatedly d job submitted effective attempts).Within
      (Request.Inserts job submitted effective) breaks := by
  induction attempts with
  | zero => exact Within.bind (within_record trivial) fun _ => within_throw _
  | succ attempts ih =>
    refine Within.bind ?_ fun attempt => ?_
    · refine Within.bind (within_store trivial) fun found => ?_
      cases found with
      | some id => exact within_insertIntoExisting job submitted effective id
      | none => exact within_insertIntoNew job submitted effective unordered d
    · cases attempt with
      | done id => exact Within.bind (within_record trivial) fun _ => within_pure id
      | contended => exact Within.bind (within_record trivial) fun _ => ih

attribute [local irreducible] Broker.definitionFor

theorem within_insert (requirements : Requirements)
    (unbounded : b.policy.bounds.effective? submitted = none → breaks)
    (fine : ∀ effective, b.policy.bounds.effective? submitted = some effective →
      ∀ q, Request.Inserts job submitted effective q → asks q)
    (counts : asks (.record (.insertion .rejected))) :
    (b.insert job requirements submitted).Within asks breaks := by
  unfold Broker.insert
  split
  · exact Within.bind (within_record counts) fun _ => within_throw _
  · refine Within.orAbort_bind unbounded fun effective clamped => ?_
    exact (within_insertRepeatedly job submitted effective unordered _ _).mono
      (fine effective clamped) id

end Insertions

/-! ### Matches and deletions -/

abbrev Apart (x : Operation α β) : Prop := x.Within (fun q => q.isApart = true) True

omit [Scalar α] in
theorem within_of_reprices {ends : Prop} {x : Operation α β} (h : Broker.Reprices ends x) :
    x.Within (fun q => q.isApart = true) (¬ ends) := h.mono (fun _ => Request.isApart_of_reprices) id

omit [Scalar α] in
theorem within_takeAny (batch : List String) :
    (Broker.takeAny (α := α) batch).Within (fun q => q.isApart = true) breaks := by
  induction size : batch.length generalizing batch with
  | zero =>
    obtain rfl := List.length_eq_zero_iff.1 size
    rw [Broker.takeAny]
    exact within_pure none
  | succ n ih =>
    obtain ⟨first, rest, rfl⟩ := List.exists_cons_of_length_eq_add_one size
    rw [Broker.takeAny]
    have drawn := Random.index_returns (Nat.succ_ne_zero rest.length)
    refine Within.choose_bind (fun _ => rfl) drawn fun i below => ?_
    rw [List.getElem?_eq_getElem below]
    refine Within.orAbort_bind (by simp) fun job _ => ?_
    refine Within.bind (within_store rfl) fun home => ?_
    cases home with
    | some home => exact within_pure _
    | none =>
      refine ih _ ?_
      rw [Broker.length_swapRemove, size]
      rfl

theorem within_cleanUp (candidate : Candidate α) :
    (b.cleanUp candidate).Within (fun q => q.isApart = true) (¬ b.InOrder) := by
  refine Within.bind (within_ask rfl) fun deleted => ?_
  rcases deleted with e | _ | _
  · exact within_pure ()
  · exact within_pure ()
  · refine Within.bind (within_record rfl) fun _ => ?_
    exact (within_of_reprices (b.reprices_recalculate candidate.ownerGroup)).attempt

theorem within_cleanUpAfter (candidate : Candidate α) :
    (b.cleanUpAfter candidate).Within (fun q => q.isApart = true) (¬ b.InOrder) := by
  refine Within.bind (within_ask rfl) fun left => ?_
  rcases left with e | _ | _
  · exact within_pure ()
  · exact within_cleanUp candidate
  · exact within_pure ()

theorem apart_cleanUp (candidate : Candidate α) : Apart (b.cleanUp candidate) :=
  (within_cleanUp candidate).mono (fun _ => id) fun _ => trivial

theorem apart_cleanUpAfter (candidate : Candidate α) : Apart (b.cleanUpAfter candidate) :=
  (within_cleanUpAfter candidate).mono (fun _ => id) fun _ => trivial

theorem apart_takeFrom (candidate : Candidate α) : Apart (b.takeFrom candidate) := by
  refine Within.bind (within_store rfl) fun classes => ?_
  cases classes with
  | nil => exact Within.bind (apart_cleanUp candidate) fun _ => within_pure none
  | cons first rest =>
    refine Within.bind (within_choose (fun _ => rfl) trivial) fun winner => ?_
    refine Within.bind (within_orAbort fun _ => trivial) fun chosen => ?_
    exact Within.bind (within_store rfl) fun batch => within_takeAny batch

theorem apart_takeFirst (candidates : List (Candidate α)) : Apart (b.takeFirst candidates) := by
  induction candidates with
  | nil => exact within_pure none
  | cons candidate rest ih =>
    refine Within.bind (apart_takeFrom candidate) fun taken => ?_
    cases taken with
    | none => exact ih
    | some job => exact Within.bind (apart_cleanUpAfter candidate) fun _ => within_pure _

theorem within_delete (jobs : List String) :
    (b.delete jobs).Within (fun q => q.isApart = true) (¬ b.InOrder) := by
  refine Within.bind (Broker.within_removeJobs (fun _ _ => rfl) {}) fun r => ?_
  refine Within.bind (within_record rfl) fun _ => ?_
  refine Within.bind (Broker.within_dropEmptied (fun _ => rfl) (fun _ => rfl) _) fun dropped => ?_
  refine Within.bind (within_record rfl) fun _ => ?_
  exact Within.bind (within_of_reprices (b.reprices_recalculateGroups _)) fun _ => within_pure _

theorem apart_delete (jobs : List String) : Apart (b.delete jobs) :=
  (within_delete jobs).mono (fun _ => id) fun _ => trivial

variable [Random.Logarithm α]

theorem within_rankedCandidates (f : Filter) :
    (b.rankedCandidates f).Within (fun q => q.isApart = true) breaks := by
  refine Within.bind (within_store rfl) fun found => ?_
  exact within_choose_of_returns (fun _ => rfl) (Random.rank_returns_any found _)

theorem apart_extractWithin (f : Filter) (attempts : Nat) : Apart (b.extractWithin f attempts) := by
  induction attempts with
  | zero => exact within_pure none
  | succ attempts ih =>
    refine Within.bind (within_rankedCandidates f) fun candidates => ?_
    cases candidates with
    | nil => exact within_pure none
    | cons first rest =>
      refine Within.bind (apart_takeFirst (first :: rest)) fun taken => ?_
      cases taken with
      | none => exact ih
      | some found => exact within_pure _

theorem apart_takeJob (resource : Capabilities) : Apart (b.takeJob resource) := by
  unfold Broker.takeJob
  split
  · exact Within.bind (within_record rfl) fun _ => within_throw _
  · refine Within.bind (apart_extractWithin _ _) fun found => ?_
    exact Within.bind (within_record rfl) fun _ => within_pure found

theorem within_candidates (resource : Capabilities) :
    (b.candidates resource).Within (fun q => q.isApart = true) breaks :=
  Within.bind (within_ofValidation _) fun f => within_rankedCandidates f

end Asking

end Matchmaker
