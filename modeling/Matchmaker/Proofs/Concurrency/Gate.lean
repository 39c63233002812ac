import Matchmaker.Proofs.Broker.Asking
import Matchmaker.Proofs.Concurrency.System

/-!
Gates of queues. An insertion takes the gate of a queue by disabling it, or by creating it disabled,
and opens it again; in between it asks the store about no other queue's gate. No other call touches
gates.
-/
namespace Matchmaker

variable {α : Type}

/-! ### Rules -/

namespace Request

def isGate : Request α → Bool
  | store (.create _ _ _) => true
  | store (.setEnabled _ _ _) => true
  | store (.addJob _ _ _ _) => true
  | _ => false

/-- What may be asked by who has this gate, or none. -/
def GateAllows (gate : Option Int) : Request α → Prop
  | store (.create _ _ enabled) => gate = none ∧ enabled = false
  | store (.setEnabled id expected new) =>
    (expected = true ∧ new = false ∧ gate = none) ∨
      (expected = false ∧ new = true ∧ gate = some id)
  | store (.addJob id _ _ _) => gate = some id
  | _ => True

def obtains? : (q : Request α) → q.Answer → Option Int
  | store (.create _ _ false), (.ok id : Except StoreError Int) => some id
  | store (.setEnabled id true false), (.ok true : Except StoreError Bool) => some id
  | _, _ => none

def isRelease : Request α → Bool
  | store (.setEnabled _ false true) => true
  | _ => false

def gateAfter (gate : Option Int) (q : Request α) (answer : q.Answer) : Option Int :=
  match q.obtains? answer with
  | some id => some id
  | none => if q.isRelease then none else gate

theorem gateAfter_of_not_isGate {q : Request α} (h : q.isGate = false) (gate : Option Int)
    (answer : q.Answer) : q.gateAfter gate answer = gate := by
  cases q with
  | store call =>
    cases call with
    | create | setEnabled | addJob => cases h
    | _ => rfl
  | _ => rfl

theorem not_isGate_of_isApart {q : Request α} (h : q.isApart = true) : q.isGate = false := by
  unfold isGate
  split
  · cases h
  · cases h
  · cases h
  · rfl

theorem not_isGate_of_isQuiet {q : Request α} (h : q.isQuiet = true) : q.isGate = false := by
  unfold isGate
  split
  · cases h
  · cases h
  · cases h
  · rfl

end Request

def BrokerCall.isInsert : BrokerCall → Bool
  | insert _ _ _ => true
  | _ => false

variable (α) in
/-- The state of a call is the queue whose gate it has obtained and not released. -/
def gateRules : Rules (Option Int) α where
  start := none
  allows call gate q := q.isGate = true → call.isInsert = true ∧ q.GateAllows gate
  next gate q answer := q.gateAfter gate answer
  ends _ gate _ := gate = none

namespace Gate

open Operation

variable {β : Type} {call : BrokerCall} {gate : Option Int}

/-! ### Insertions -/

theorem keeps_of_other {ends : Ending β → Prop} {x : Operation α β}
    (h : x.Keeps (.only fun q => q.isGate = false) (fun _ r => ends r) ())
    {post : Option Int → Ending β → Prop} (result : ∀ r, ends r → post gate r) :
    x.Keeps ((gateRules α).protocol call) post gate := by
  refine Script.Keeps.of_ignored h (fun q other => ⟨fun asked => ?_, fun a => ?_⟩) result
  · rw [other] at asked
    cases asked
  · exact Request.gateAfter_of_not_isGate other gate a

theorem keeps_record {event : Event} {post : Option Int → Ending Unit → Prop}
    (result : post gate (some (.ok ()))) :
    (record event).Keeps ((gateRules α).protocol call) post gate := ⟨nofun, fun _ => result⟩

def Released (gate : Option Int) (_ : Ending β) : Prop := gate = none

theorem keeps_bind_released {γ : Type} {x : Operation α β} {f : β → Operation α γ}
    (h : x.Keeps ((gateRules α).protocol call) Released gate)
    (rest : ∀ c, (f c).Keeps ((gateRules α).protocol call) Released none) :
    (x >>= f).Keeps ((gateRules α).protocol call) Released gate := by
  refine h.bind (fun _ released => released) (fun _ _ released => released) ?_
  intro gate c released
  cases released
  exact rest c

variable {job : String} {requirements : Requirements} {submitted : Int}

theorem keeps_release (id : Int) :
    (Broker.release (α := α) id).Keeps
      ((gateRules α).protocol (.insert job requirements submitted)) Released (some id) := by
  rw [Broker.release, keeps_bind, keeps_store]
  exact ⟨fun _ => ⟨rfl, .inr ⟨rfl, rfl, rfl⟩⟩, fun changed => rfl, fun e => rfl⟩

theorem keeps_abandon (id : Int) :
    (Broker.abandon (α := α) id).Keeps
      ((gateRules α).protocol (.insert job requirements submitted)) Released (some id) := by
  rw [Broker.abandon, keeps_bind, keeps_tryStore]
  refine ⟨fun _ => ⟨rfl, .inr ⟨rfl, rfl, rfl⟩⟩, fun enabled => ?_⟩
  cases enabled with
  | error e => rfl
  | ok changed =>
    refine (keeps_bind _ _).2 ⟨nofun, fun deleted => ?_⟩
    rcases deleted with e | _ | _
    · rfl
    · rfl
    · exact keeps_record rfl

theorem keeps_insertIntoExisting (id : Int) (job' : String) (submitted' : Int) (effective : α) :
    (Broker.insertIntoExisting id job' submitted' effective).Keeps
      ((gateRules α).protocol (.insert job requirements submitted)) Released none := by
  refine (keeps_bind _ _).2 ((keeps_store _ _).2 ⟨?_, fun changed => ?_, fun e => rfl⟩)
  · exact fun _ => ⟨rfl, .inl ⟨rfl, rfl, rfl⟩⟩
  · cases changed with
    | false => rfl
    | true =>
      refine (keeps_bind _ _).2 ⟨fun _ => ⟨rfl, rfl⟩, fun added => ?_⟩
      refine keeps_bind_released (keeps_release id) fun _ => ?_
      rcases added with e | _
      · cases e <;> rfl
      · rfl

variable [Scalar α] {b : Broker α}

theorem keeps_insertIntoNew (inOrder : b.InOrder) (d : Definition) (job' : String)
    (submitted' : Int) (effective : α) :
    (b.insertIntoNew d job' submitted' effective).Keeps
      ((gateRules α).protocol (.insert job requirements submitted)) Released none := by
  rw [Broker.insertIntoNew, keeps_bind, keeps_tryStore]
  refine ⟨fun _ => ⟨rfl, rfl, rfl⟩, fun created => ?_⟩
  cases created with
  | error e => cases e <;> rfl
  | ok id =>
    refine (keeps_bind _ _).2 (keeps_record ?_)
    refine (keeps_bind _ _).2 ⟨fun _ => ⟨rfl, rfl⟩, fun added => ?_⟩
    cases added with
    | error e => exact keeps_bind_released (keeps_abandon id) fun _ => rfl
    | ok _ =>
      have quiet := (b.quiet_recalculate d.ownerGroup).mono
        (fun _ => Request.not_isGate_of_isQuiet) fun fails => fails inOrder
      refine (keeps_bind _ _).2 (keeps_of_other (Within.attempt_settles quiet) ?_)
      rintro r rfl
      exact keeps_bind_released (keeps_release id) fun _ => rfl

theorem keeps_insertOnce (inOrder : b.InOrder) (d : Definition) (job' : String) (submitted' : Int)
    (effective : α) :
    (b.insertOnce d job' submitted' effective).Keeps
      ((gateRules α).protocol (.insert job requirements submitted)) Released none := by
  rw [Broker.insertOnce, keeps_bind, keeps_store]
  refine ⟨nofun, fun found => ?_, fun e => rfl⟩
  cases found with
  | some id => exact keeps_insertIntoExisting id job' submitted' effective
  | none => exact keeps_insertIntoNew inOrder d job' submitted' effective

theorem keeps_insertRepeatedly (inOrder : b.InOrder) (d : Definition) (job' : String)
    (submitted' : Int) (effective : α) (attempts : Nat) :
    (b.insertRepeatedly d job' submitted' effective attempts).Keeps
      ((gateRules α).protocol (.insert job requirements submitted)) Released none := by
  induction attempts with
  | zero => exact (keeps_bind _ _).2 (keeps_record rfl)
  | succ attempts ih =>
    refine keeps_bind_released (keeps_insertOnce inOrder d job' submitted' effective) fun attempt => ?_
    cases attempt with
    | done id => exact (keeps_bind _ _).2 (keeps_record rfl)
    | contended => exact (keeps_bind _ _).2 (keeps_record ih)

attribute [local irreducible] Broker.definitionFor

theorem keeps_insert (inOrder : b.InOrder) :
    (b.insert job requirements submitted).Keeps
      ((gateRules α).protocol (.insert job requirements submitted)) Released none := by
  unfold Broker.insert
  split
  · exact (keeps_bind _ _).2 (keeps_record rfl)
  · rw [keeps_bind, keeps_orAbort]
    cases b.policy.bounds.effective? submitted with
    | none => rfl
    | some effective => exact keeps_insertRepeatedly inOrder _ job submitted effective _

/-! ### Other calls -/

omit [Scalar α] in
theorem within_of_quiet {ends : Prop} {x : Operation α β} (h : Broker.Quiet ends x) :
    x.Within (fun q => q.isGate = false) True :=
  h.mono (fun _ => Request.not_isGate_of_isQuiet) fun _ => trivial

omit [Scalar α] in
theorem within_of_apart {x : Operation α β} (h : Asking.Apart x) :
    x.Within (fun q => q.isGate = false) True :=
  h.mono (fun _ => Request.not_isGate_of_isApart) id

variable [Random.Logarithm α]

theorem within_of_not_isInsert {call : BrokerCall} (h : call.isInsert = false) :
    (b.course call).Within (fun q => q.isGate = false) True := by
  cases call with
  | insert job requirements submitted => cases h
  | takeJob resource => exact within_of_apart (Asking.apart_takeJob resource)
  | candidates resource => exact within_of_apart (Asking.within_candidates resource)
  | delete jobs => exact within_of_apart (Asking.apart_delete jobs)
  | reprioritize updates => exact within_of_quiet (b.quiet_reprioritize updates)
  | recalculate group => exact within_of_quiet (b.quiet_recalculate group)
  | recalculateAll => exact within_of_quiet b.quiet_recalculateAll
  | clean => exact within_of_quiet b.quiet_clean
  | refreshShares => exact within_of_quiet (Broker.quiet_refreshShares False)
  | refreshHistory => exact within_of_quiet (b.quiet_refreshHistory False)
  | sweep => exact within_of_quiet b.quiet_sweep

theorem keptBy (inOrder : b.InOrder) : (gateRules α).KeptBy b := by
  intro call
  cases insertion : call.isInsert with
  | false => exact keeps_of_other (within_of_not_isInsert insertion) fun _ _ => rfl
  | true =>
    cases call with
    | insert job requirements submitted => exact keeps_insert inOrder
    | _ => cases insertion

end Gate

end Matchmaker
