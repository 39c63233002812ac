import Matchmaker.Proofs.Broker.Passes
import Matchmaker.Proofs.Scalar.Order
import Matchmaker.Proofs.Settings.Policy

/-!
What an insertion has asked when it ends, whatever was answered. It goes in passes, each of which
begins by looking for the queue. A gate that a pass obtains is released once before the next pass or
the end, and how the passes ended decides on the result.
-/
namespace Matchmaker

variable {α : Type}

/-! ### What an operation writes down -/

namespace Operation

variable {β γ : Type} {post : List (Exchange α) → Ending β → Prop}

def Returning (ends : Prop) (good : List (Exchange α) → Except BrokerError β → Prop)
    (asked : List (Exchange α)) : Ending β → Prop
  | none => ¬ ends
  | some result => good asked result

/-- Whatever was written down before, `post` holds of what the operation adds and of its end. -/
def Writes (post : List (Exchange α) → Ending β → Prop) (x : Operation α β) : Prop :=
  ∀ before, x.Keeps .transcript (fun later r => ∃ p, later = before ++ p ∧ post p r) before

theorem Writes.mono {post' : List (Exchange α) → Ending β → Prop} {x : Operation α β}
    (h : x.Writes post) (weaker : ∀ p r, post p r → post' p r) : x.Writes post' :=
  fun before => (h before).mono fun _ r ⟨p, added, ended⟩ => ⟨p, added, weaker p r ended⟩

theorem writes_pure {b : β} (h : post [] (some (.ok b))) : (pure b : Operation α β).Writes post :=
  fun before => ⟨[], (List.append_nil before).symm, h⟩

theorem writes_throw {e : BrokerError} (h : post [] (some (.error e))) :
    (throw e : Operation α β).Writes post := fun before => ⟨[], (List.append_nil before).symm, h⟩

theorem writes_bind {x : Operation α γ} {f : γ → Operation α β}
    (h : x.Writes (proceed post fun p c => (f c).Writes fun q r => post (p ++ q) r)) :
    (x >>= f).Writes post := by
  refine fun before => (keeps_bind x f).2 ((h before).mono ?_)
  rintro _ r ⟨p, rfl, ended⟩
  rcases r with _ | e | c
  · exact ⟨p, rfl, ended⟩
  · exact ⟨p, rfl, ended⟩
  · refine (ended (before ++ p)).mono ?_
    rintro _ r ⟨q, rfl, ended⟩
    exact ⟨p ++ q, List.append_assoc before p q, ended⟩

theorem writes_tryStore {call : StoreCall α}
    {post : List (Exchange α) → Ending (Except StoreError call.Answer) → Prop}
    (h : ∀ answer, post [⟨.store call, answer⟩] (some (.ok answer))) :
    (tryStore call).Writes post :=
  fun _ => (keeps_tryStore call _).2 ⟨trivial, fun answer => ⟨[_], rfl, h answer⟩⟩

theorem writes_store {call : StoreCall α} {post : List (Exchange α) → Ending call.Answer → Prop}
    (ok : ∀ answer, post [⟨.store call, .ok answer⟩] (some (.ok answer)))
    (error : ∀ e, post [⟨.store call, .error e⟩] (some (.error (.store e)))) :
    (store call).Writes post :=
  fun _ => (keeps_store call _).2
    ⟨trivial, fun answer => ⟨[_], rfl, ok answer⟩, fun e => ⟨[_], rfl, error e⟩⟩

theorem writes_record {event : Event} {post : List (Exchange α) → Ending Unit → Prop}
    (h : post [.count event] (some (.ok ()))) : (record event).Writes post :=
  fun _ => (keeps_record event _).2 ⟨trivial, fun _ => ⟨[_], rfl, h⟩⟩

theorem writes_of_only {asks : Request α → Prop} {ends : Ending β → Prop} {x : Operation α β}
    (h : x.Keeps (.only asks) (fun _ r => ends r) ()) :
    x.Writes fun p r => (∀ e ∈ p, asks e.1) ∧ ends r := by
  intro before
  have kept : x.Keeps .transcript
      (fun later r => (∃ p, later = before ++ p ∧ ∀ e ∈ p, asks e.1) ∧ ends r) before := by
    refine Script.Keeps.of_allowed h ⟨[], (List.append_nil before).symm, by simp⟩ ?_
    rintro _ q ⟨p, rfl, asked⟩ allowed
    refine ⟨trivial, fun answer => ⟨p ++ [⟨q, answer⟩], List.append_assoc before p _, ?_⟩⟩
    intro e mem
    rcases List.mem_append.1 mem with old | new
    · exact asked e old
    · cases List.mem_singleton.1 new
      exact allowed
  exact kept.mono fun later r ⟨⟨p, added, asked⟩, ended⟩ => ⟨p, added, asked, ended⟩

end Operation

namespace Insertion

open Operation
open Broker (Attempt)

variable {ends : Prop}

theorem writes_release {id : Int} {post : List (Exchange α) → Ending Unit → Prop}
    (ok : ∀ changed, post [.release id (.ok changed)] (some (.ok ())))
    (error : ∀ e, post [.release id (.error e)] (some (.error (.store e)))) :
    (Broker.release id).Writes post :=
  writes_bind (writes_store (fun changed => writes_pure (ok changed)) error)

theorem writes_abandon (id : Int) :
    (Broker.abandon (α := α) id).Writes fun p r => r = some (.ok ()) ∧
      ∃ released after, p = .release id released :: after ∧ ∀ x ∈ after, x.IsStill := by
  refine writes_bind (writes_tryStore fun released => ?_)
  rcases released with e | changed
  · exact writes_pure ⟨rfl, .error e, [], rfl, by simp⟩
  · refine writes_bind (writes_tryStore fun deleted => ?_)
    have still : ∀ x : Exchange α, x ∈ [⟨.store (.deleteIfEmpty id), deleted⟩] → x.IsStill := by
      intro x mem
      cases List.mem_singleton.1 mem
      rfl
    rcases deleted with e | _ | _
    · exact writes_pure ⟨rfl, .ok changed, [_], rfl, still⟩
    · exact writes_pure ⟨rfl, .ok changed, [_], rfl, still⟩
    · refine writes_record ⟨rfl, .ok changed, [_, _], rfl, fun x mem => ?_⟩
      rcases List.mem_cons.1 mem with rfl | mem
      · exact still _ List.mem_cons_self
      · cases List.mem_singleton.1 mem
        rfl

theorem writes_insertIntoExisting (d : Definition) (id : Int) (job : String) (submitted : Int)
    (effective : α) :
    (Broker.insertIntoExisting id job submitted effective).Writes
      (Returning ends fun p r => Pass job (.find d (.ok (some id)) :: p) r) := by
  refine writes_bind (writes_store (fun changed => ?_) fun e => Pass.unheld d id e)
  cases changed with
  | false => exact writes_pure (Pass.refused d id)
  | true =>
    refine writes_bind (writes_tryStore fun added => ?_)
    refine writes_bind (writes_release (fun changed => ?_) fun e => ?_)
    · have held : Pass job _ _ := .held d id submitted effective added (.ok changed)
      rcases added with e | _
      · cases e <;> first | exact writes_throw held | exact writes_pure held
      · exact writes_pure held
    · have held : Pass job _ _ := .held d id submitted effective added (.error e)
      rcases added with _ | _ <;> exact held

variable [Scalar α] {b : Broker α}

theorem writes_insertIntoNew (d : Definition) (job : String) (submitted : Int) (effective : α) :
    (b.insertIntoNew d job submitted effective).Writes
      (Returning b.InOrder fun p r => Pass job (.find d (.ok none) :: p) r) := by
  refine writes_bind (writes_tryStore fun created => ?_)
  rcases created with e | id
  · cases e with
    | duplicateDefinition => exact writes_pure (Pass.overtaken d _)
    | _ => exact writes_throw (Pass.uncreated d _ _ nofun)
  · refine writes_bind (writes_record ?_)
    refine writes_bind (writes_tryStore fun added => ?_)
    rcases added with e | added
    · refine writes_bind ((writes_abandon id).mono ?_)
      rintro _ _ ⟨rfl, released, after, rfl, still⟩
      have none : ∀ x ∈ ([] : List (Exchange α)), x.IsStill := by simp
      refine writes_throw ?_
      rw [List.append_nil]
      exact Pass.created d _ id submitted effective (.error e) released none still
    · refine writes_bind ((writes_of_only (b.still_recalculate d.ownerGroup).keeps_attempt).mono ?_)
      rintro calm _ ⟨still, rfl | ⟨rfl, broken⟩⟩
      case inr => exact broken
      have none : ∀ x ∈ ([] : List (Exchange α)), x.IsStill := by simp
      have created (released : Except StoreError Bool) : Pass job _ _ :=
        .created d b.policy.initialPriority id submitted effective (.ok added) released still none
      refine writes_bind (writes_release (fun changed => ?_) fun e => created (.error e))
      exact writes_pure (created (.ok changed))

theorem writes_insertOnce (d : Definition) (job : String) (submitted : Int) (effective : α) :
    (b.insertOnce d job submitted effective).Writes (Returning b.InOrder (Pass job)) := by
  refine writes_bind (writes_store (fun found => ?_) fun e => Pass.lost d e)
  cases found with
  | some id => exact writes_insertIntoExisting d id job submitted effective
  | none => exact writes_insertIntoNew d job submitted effective

theorem writes_insertRepeatedly (d : Definition) (job : String) (submitted : Int) (effective : α)
    (attempts : Nat) :
    (b.insertRepeatedly d job submitted effective attempts).Writes
      (Returning b.InOrder (Passes b.policy.insertAttempts job attempts)) := by
  induction attempts with
  | zero => exact writes_bind (writes_record (writes_throw Passes.exhausted))
  | succ attempts ih =>
    refine writes_bind ((writes_insertOnce d job submitted effective).mono fun p r pass => ?_)
    rcases r with _ | e | id | _
    · exact pass
    · exact Passes.failed pass
    · exact writes_bind (writes_record (writes_pure (Passes.inserted pass)))
    · refine writes_bind (writes_record (ih.mono fun q r later => ?_))
      cases r with
      | none => exact later
      | some result => exact Passes.again pass later

end Insertion

open Operation

attribute [local irreducible] Broker.definitionFor

/-- Whatever the store and all others answer, an insertion makes its passes, adds the job at most
once, releases the gates it obtains, and ends as its passes say; it ends, if the bounds of the
corrections are in order. -/
theorem inserted_of_policy {b : Broker Float}
    (valid : ∃ settings : Settings Float, settings.policy = .ok b.policy) (job : String)
    (requirements : Requirements) (submitted : Int) :
    (b.insert job requirements submitted).Keeps .transcript
      (Returning b.InOrder (Inserted b.policy.insertAttempts)) [] := by
  obtain ⟨settings, made⟩ := valid
  have sound := Settings.sound_of_policy made
  have written : (b.insert job requirements submitted).Writes
      (Returning b.InOrder (Inserted b.policy.insertAttempts)) := by
    unfold Broker.insert
    split
    · rename_i e _
      exact writes_bind (writes_record (writes_throw (Insertion.inserted_rejected e)))
    · obtain ⟨effective, clamped⟩ := PriorityBounds.exists_effective sound.bounds submitted
      rw [clamped]
      refine Writes.mono (Insertion.writes_insertRepeatedly _ job submitted effective _) ?_
      intro p r ended
      cases r with
      | none => exact ended
      | some result => exact (Insertion.looped_of_passes ended).inserted sound.insertAttempts
  refine (written []).mono ?_
  rintro _ r ⟨p, rfl, ended⟩
  exact ended

theorem inserted_standard :
    (Broker.standard.insert "j1"
      ⟨some "alice", some "users", some "prod", some 700, .ofFn fun _ => none⟩ 3).Keeps .transcript
      (fun asked r => ∃ result, r = some result ∧ Inserted 10 asked result) [] := by
  refine (inserted_of_policy Broker.validated_standard.policy "j1" _ 3).mono fun asked r ended => ?_
  cases r with
  | none => exact absurd (Broker.inOrder_of_checked Broker.validated_standard.history) ended
  | some result => exact ⟨result, rfl, ended⟩

end Matchmaker
