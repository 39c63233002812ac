import Matchmaker.Proofs.Broker.Selection
import Matchmaker.Proofs.Concurrency.Gate

/-!
What an insertion asks goes in passes, each of which begins by looking for the queue. The passes are
described one by one, by what is asked and answered; from what is true of each follows what is true
of all in a row.
-/
namespace Matchmaker

variable {α : Type}

/-! ### Exchanges -/

namespace Request

def isFind : Request α → Bool
  | store (.find _) => true
  | _ => false

def releases? : Request α → Option Int
  | store (.setEnabled id false true) => some id
  | _ => none

def released? : (q : Request α) → q.Answer → Option Int
  | store (.setEnabled id false true), (.ok _ : Except StoreError Bool) => some id
  | _, _ => none

/-- The queue that was there and whose gate has been obtained. -/
def holds? : (q : Request α) → q.Answer → Option Int
  | store (.setEnabled id true false), (.ok true : Except StoreError Bool) => some id
  | _, _ => none

def isRefused : (q : Request α) → q.Answer → Bool
  | store (.setEnabled _ true false), (.ok false : Except StoreError Bool) => true
  | _, _ => false

/-- Whether a queue that is to be created is there by now. -/
def isOvertaken : (q : Request α) → q.Answer → Bool
  | store (.create _ _ _), (.error .duplicateDefinition : Except StoreError Int) => true
  | _, _ => false

def accepts? : (q : Request α) → q.Answer → Option Int
  | store (.addJob id _ _ _), (.ok _ : Except StoreError Unit) => some id
  | _, _ => none

/-- The queue that a job was to be added to and that is gone by now. -/
def misses? : (q : Request α) → q.Answer → Option Int
  | store (.addJob id _ _ _), (.error (.unknownQueue _) : Except StoreError Unit) => some id
  | _, _ => none

end Request

namespace Exchange

variable (x : Exchange α)

def isFind : Bool := x.1.isFind

def releases? : Option Int := x.1.releases?

def released? : Option Int := x.1.released? x.2

def obtains? : Option Int := x.1.obtains? x.2

def holds? : Option Int := x.1.holds? x.2

def isRefused : Bool := x.1.isRefused x.2

def isOvertaken : Bool := x.1.isOvertaken x.2

def accepts? : Option Int := x.1.accepts? x.2

def misses? : Option Int := x.1.misses? x.2

/-- Whether an exchange has to do neither with gates nor with adding jobs. -/
def IsStill : Prop := x.1.isStill = true

structure IsIdle : Prop where
  isFind : x.isFind = false
  releases? : x.releases? = none
  released? : x.released? = none
  obtains? : x.obtains? = none
  holds? : x.holds? = none
  isRefused : x.isRefused = false
  isOvertaken : x.isOvertaken = false
  accepts? : x.accepts? = none
  misses? : x.misses? = none

variable {x}

theorem IsStill.idle (h : x.IsStill) : x.IsIdle := by
  obtain ⟨q, answer⟩ := x
  cases q with
  | store call =>
    cases call with
    | find | create | setEnabled | addJob | removeJob | matching | jobsWithPriority | updateJob =>
      cases h
    | _ => exact ⟨rfl, rfl, rfl, rfl, rfl, rfl, rfl, rfl, rfl⟩
  | _ => exact ⟨rfl, rfl, rfl, rfl, rfl, rfl, rfl, rfl, rfl⟩

def find (d : Definition) (answer : Except StoreError (Option Int)) : Exchange α :=
  ⟨.store (.find d), answer⟩

def create (d : Definition) (priority : α) (answer : Except StoreError Int) : Exchange α :=
  ⟨.store (.create d priority false), answer⟩

def hold (id : Int) (answer : Except StoreError Bool) : Exchange α :=
  ⟨.store (.setEnabled id true false), answer⟩

def release (id : Int) (answer : Except StoreError Bool) : Exchange α :=
  ⟨.store (.setEnabled id false true), answer⟩

def add (id : Int) (job : String) (submitted : Int) (effective : α)
    (answer : Except StoreError Unit) : Exchange α :=
  ⟨.store (.addJob id job submitted effective), answer⟩

def count (event : Event) : Exchange α := ⟨.record event, ()⟩

theorem isIdle_count (event : Event) : (count event : Exchange α).IsIdle :=
  ⟨rfl, rfl, rfl, rfl, rfl, rfl, rfl, rfl, rfl⟩

end Exchange

/-! ### Passes -/

/-- What comes before the next pass. -/
def thisPass (asked : List (Exchange α)) : List (Exchange α) := asked.takeWhile (!·.isFind)

/-- The passes, each with what comes after it and before the next one. -/
def passes : List (Exchange α) → List (List (Exchange α))
  | [] => []
  | x :: rest => if x.isFind then (x :: thisPass rest) :: passes rest else passes rest

/-- A pass found the queue held by another one, created meanwhile, or removed before the job could
be added to it. -/
inductive Contended (pass : List (Exchange α)) : Prop where
  | refused (here : ∃ x ∈ pass, x.isRefused = true)
  | overtaken (here : ∃ x ∈ pass, x.isOvertaken = true)
  | vanished (id : Int) (held : ∃ x ∈ pass, x.holds? = some id)
      (gone : ∃ x ∈ pass, x.misses? = some id) (released : ∃ x ∈ pass, x.released? = some id)

/-- A gate that is obtained is released once before the next pass or the end. -/
def ReleasesEach (asked : List (Exchange α)) : Prop :=
  ∀ x rest, x :: rest <:+ asked →
    ∀ id, x.obtains? = some id → (thisPass rest).filterMap Exchange.releases? = [id]

/-- A job has been added to a queue and the gate then released without failure. -/
def AddsTo (id : Int) (asked : List (Exchange α)) : Prop :=
  ∃ x rest, x :: rest <:+ asked ∧
    x.accepts? = some id ∧ ∃ y ∈ thisPass rest, y.released? = some id

/-- What an insertion has asked when it returns a result. -/
structure Inserted (attempts : Nat) (asked : List (Exchange α)) (r : Except BrokerError Int) :
    Prop where
  passes_le : (passes asked).length ≤ attempts
  accepts_le : (asked.filterMap Exchange.accepts?).length ≤ 1
  released : ReleasesEach asked
  ok_iff : ∀ id, r = .ok id ↔ AddsTo id asked
  busy_iff : (∃ n, r = .error (.busy n)) ↔
    passes asked ≠ [] ∧ ∀ pass ∈ passes asked, Contended pass
  exhausted : ∀ n, r = .error (.busy n) → n = attempts ∧ (passes asked).length = attempts

/-! ### Exchanges and what comes after them -/

section Suffixes

variable {β : Type} {law : β → List β → Prop}

theorem forall_suffix_nil : ∀ x rest, x :: rest <:+ ([] : List β) → law x rest := by simp

theorem forall_suffix_cons (y : β) (p : List β) :
    (∀ x rest, x :: rest <:+ y :: p → law x rest) ↔
      law y p ∧ ∀ x rest, x :: rest <:+ p → law x rest := by
  simp only [List.suffix_cons_iff, List.cons.injEq, or_imp, forall_and, and_imp,
    forall_eq_apply_imp_iff, forall_eq]

theorem forall_suffix_append (p q : List β) :
    (∀ x rest, x :: rest <:+ p ++ q → law x rest) ↔
      (∀ x rest, x :: rest <:+ p → law x (rest ++ q)) ∧
        ∀ x rest, x :: rest <:+ q → law x rest := by
  induction p with
  | nil => simp
  | cons y p ih => rw [List.cons_append, forall_suffix_cons, forall_suffix_cons, ih, and_assoc]

theorem exists_suffix_cons (y : β) (p : List β) :
    (∃ x rest, x :: rest <:+ y :: p ∧ law x rest) ↔
      law y p ∨ ∃ x rest, x :: rest <:+ p ∧ law x rest := by
  simp only [List.suffix_cons_iff, List.cons.injEq, or_and_right, exists_or, and_assoc,
    exists_and_left, exists_eq_left]

theorem exists_suffix_append (p q : List β) :
    (∃ x rest, x :: rest <:+ p ++ q ∧ law x rest) ↔
      (∃ x rest, x :: rest <:+ p ∧ law x (rest ++ q)) ∨
        ∃ x rest, x :: rest <:+ q ∧ law x rest := by
  induction p with
  | nil => simp
  | cons y p ih => rw [List.cons_append, exists_suffix_cons, exists_suffix_cons, ih, or_assoc]

end Suffixes

/-! ### One pass -/

namespace Insertion

open Broker (Attempt)

/-- How a pass ends that has held a queue, by what it was told when adding the job and when
releasing the gate. -/
def afterHold (id : Int) : Except StoreError Unit → Except StoreError Bool →
    Except BrokerError Attempt
  | _, .error e => .error (.store e)
  | .ok _, .ok _ => .ok (.done id)
  | .error (.unknownQueue _), .ok _ => .ok .contended
  | .error e, .ok _ => .error (.store e)

def afterCreation (id : Int) : Except StoreError Unit → Except StoreError Bool →
    Except BrokerError Attempt
  | .error e, _ => .error (.store e)
  | .ok _, .error e => .error (.store e)
  | .ok _, .ok _ => .ok (.done id)

section Results

variable {id : Int} {added : Except StoreError Unit} {released : Except StoreError Bool} {id' : Int}

theorem afterHold_eq_done : afterHold id added released = .ok (.done id') ↔
    (id = id' ∧ added = .ok ()) ∧ ∃ changed, released = .ok changed := by
  rcases released with e | changed
  · simp [afterHold]
  · rcases added with e | _
    · cases e <;> simp [afterHold]
    · simp [afterHold]

theorem afterHold_eq_contended : afterHold id added released = .ok .contended ↔
    (∃ other, added = .error (.unknownQueue other)) ∧ ∃ changed, released = .ok changed := by
  rcases released with e | changed
  · simp [afterHold]
  · rcases added with e | _
    · cases e <;> simp [afterHold]
    · simp [afterHold]

theorem afterHold_ne_busy (id : Int) (added : Except StoreError Unit)
    (released : Except StoreError Bool) (n : Nat) :
    afterHold id added released ≠ .error (.busy n) := by
  rcases released with e | changed
  · simp [afterHold]
  · rcases added with e | _
    · cases e <;> simp [afterHold]
    · simp [afterHold]

theorem afterCreation_eq_done : afterCreation id added released = .ok (.done id') ↔
    (id = id' ∧ added = .ok ()) ∧ ∃ changed, released = .ok changed := by
  rcases added with e | _ <;> rcases released with e' | changed <;> simp [afterCreation]

theorem afterCreation_ne_contended (id : Int) (added : Except StoreError Unit)
    (released : Except StoreError Bool) : afterCreation id added released ≠ .ok .contended := by
  rcases added with e | _ <;> rcases released with e' | changed <;> simp [afterCreation]

theorem afterCreation_ne_busy (id : Int) (added : Except StoreError Unit)
    (released : Except StoreError Bool) (n : Nat) :
    afterCreation id added released ≠ .error (.busy n) := by
  rcases added with e | _ <;> rcases released with e' | changed <;> simp [afterCreation]

end Results

inductive Pass (job : String) : List (Exchange α) → Except BrokerError Attempt → Prop where
  | lost (d : Definition) (e : StoreError) : Pass job [.find d (.error e)] (.error (.store e))
  | unheld (d : Definition) (id : Int) (e : StoreError) :
      Pass job [.find d (.ok (some id)), .hold id (.error e)] (.error (.store e))
  | refused (d : Definition) (id : Int) :
      Pass job [.find d (.ok (some id)), .hold id (.ok false)] (.ok .contended)
  | held (d : Definition) (id submitted : Int) (effective : α) (added : Except StoreError Unit)
      (released : Except StoreError Bool) :
      Pass job
        [.find d (.ok (some id)), .hold id (.ok true), .add id job submitted effective added,
          .release id released]
        (afterHold id added released)
  | overtaken (d : Definition) (priority : α) :
      Pass job [.find d (.ok none), .create d priority (.error .duplicateDefinition)]
        (.ok .contended)
  | uncreated (d : Definition) (priority : α) (e : StoreError) (other : e ≠ .duplicateDefinition) :
      Pass job [.find d (.ok none), .create d priority (.error e)] (.error (.store e))
  | created (d : Definition) (priority : α) (id submitted : Int) (effective : α)
      (added : Except StoreError Unit) (released : Except StoreError Bool)
      {calm after : List (Exchange α)} (still : ∀ x ∈ calm, x.IsStill)
      (still' : ∀ x ∈ after, x.IsStill) :
      Pass job
        (.find d (.ok none) :: .create d priority (.ok id) :: .count .queueCreated ::
          .add id job submitted effective added :: (calm ++ .release id released :: after))
        (afterCreation id added released)

/-- A pass looks for the queue first, and never again. -/
def Begins : List (Exchange α) → Prop
  | [] => False
  | x :: rest => x.isFind = true ∧ ∀ y ∈ rest, y.isFind = false

structure Lawful (p : List (Exchange α)) (r : Except BrokerError Attempt) : Prop where
  begins : Begins p
  accepts_le : (p.filterMap Exchange.accepts?).length ≤ 1
  released : ∀ x rest, x :: rest <:+ p →
    ∀ id, x.obtains? = some id → rest.filterMap Exchange.releases? = [id]
  done_iff : ∀ id, r = .ok (.done id) ↔ ∃ x rest, x :: rest <:+ p ∧
    x.accepts? = some id ∧ ∃ y ∈ rest, y.released? = some id
  contended_iff : r = .ok .contended ↔ Contended p
  unaccepted : r = .ok .contended → p.filterMap Exchange.accepts? = []
  not_busy : ∀ n, r ≠ .error (.busy n)

theorem contended_iff (p : List (Exchange α)) :
    Contended p ↔ (∃ x ∈ p, x.isRefused = true) ∨ (∃ x ∈ p, x.isOvertaken = true) ∨
      ∃ id, (∃ x ∈ p, x.holds? = some id) ∧ (∃ x ∈ p, x.misses? = some id) ∧
        ∃ x ∈ p, x.released? = some id := by
  constructor
  · rintro (here | here | ⟨id, held, gone, released⟩)
    · exact .inl here
    · exact .inr (.inl here)
    · exact .inr (.inr ⟨id, held, gone, released⟩)
  · rintro (here | here | ⟨id, held, gone, released⟩)
    · exact .refused here
    · exact .overtaken here
    · exact .vanished id held gone released

theorem contended_insert {x : Exchange α} (idle : x.IsIdle) (p q : List (Exchange α)) :
    Contended (p ++ x :: q) ↔ Contended (p ++ q) := by
  simp [contended_iff, or_and_right, exists_or, idle.isRefused, idle.isOvertaken, idle.holds?,
    idle.misses?, idle.released?]

theorem Lawful.insert {p q : List (Exchange α)} {r : Except BrokerError Attempt} {x : Exchange α}
    (h : Lawful (p ++ q) r) (begun : p ≠ []) (idle : x.IsIdle) : Lawful (p ++ x :: q) r where
  begins := by
    cases p with
    | nil => exact absurd rfl begun
    | cons y p =>
      refine ⟨h.begins.1, fun z mem => ?_⟩
      rcases List.mem_append.1 mem with before | later
      · exact h.begins.2 z (List.mem_append_left q before)
      · rcases List.mem_cons.1 later with rfl | later
        · exact idle.isFind
        · exact h.begins.2 z (List.mem_append_right p later)
  accepts_le := by
    have bound := h.accepts_le
    rw [List.filterMap_append] at bound ⊢
    rwa [List.filterMap_cons_none idle.accepts?]
  released := by
    have law := h.released
    rw [forall_suffix_append] at law ⊢
    refine ⟨fun y rest suffix id obtained => ?_, ?_⟩
    · rw [List.filterMap_append, List.filterMap_cons_none idle.releases?, ← List.filterMap_append]
      exact law.1 y rest suffix id obtained
    · rw [forall_suffix_cons]
      refine ⟨fun id obtained => ?_, law.2⟩
      rw [idle.obtains?] at obtained
      cases obtained
  done_iff id := by
    rw [h.done_iff id, exists_suffix_append, exists_suffix_append, exists_suffix_cons]
    simp [idle.accepts?, idle.released?, or_and_right, exists_or]
  contended_iff := h.contended_iff.trans (contended_insert idle p q).symm
  unaccepted contended := by
    have none := h.unaccepted contended
    rw [List.filterMap_append] at none ⊢
    rwa [List.filterMap_cons_none idle.accepts?]
  not_busy := h.not_busy

theorem Lawful.insertAll {p calm q : List (Exchange α)} {r : Except BrokerError Attempt}
    (h : Lawful (p ++ q) r) (begun : p ≠ []) (still : ∀ x ∈ calm, x.IsStill) :
    Lawful (p ++ (calm ++ q)) r := by
  induction calm with
  | nil => exact h
  | cons x calm ih =>
    have later := ih fun y mem => still y (List.mem_cons_of_mem _ mem)
    exact later.insert begun (still x List.mem_cons_self).idle

/-- The gate of a queue has been obtained, and nothing else of note has happened. -/
structure Opens (x : Exchange α) (id : Int) : Prop where
  isFind : x.isFind = false
  released? : x.released? = none
  obtains? : x.obtains? = some id
  isRefused : x.isRefused = false
  isOvertaken : x.isOvertaken = false
  accepts? : x.accepts? = none
  misses? : x.misses? = none

theorem accepts?_add {id : Int} {job : String} {submitted : Int} {effective : α}
    {added : Except StoreError Unit} {id' : Int} :
    (Exchange.add id job submitted effective added).accepts? = some id' ↔
      id = id' ∧ added = .ok () := by
  rcases added with e | _ <;> simp [Exchange.add, Exchange.accepts?, Request.accepts?]

theorem misses?_add {id : Int} {job : String} {submitted : Int} {effective : α}
    {added : Except StoreError Unit} {id' : Int} :
    (Exchange.add id job submitted effective added).misses? = some id' ↔
      id = id' ∧ ∃ other, added = .error (.unknownQueue other) := by
  rcases added with e | _
  · cases e <;> simp [Exchange.add, Exchange.misses?, Request.misses?]
  · simp [Exchange.add, Exchange.misses?, Request.misses?]

theorem released?_release {id : Int} {released : Except StoreError Bool} {id' : Int} :
    (Exchange.release (α := α) id released).released? = some id' ↔
      id = id' ∧ ∃ changed, released = .ok changed := by
  rcases released with e | changed <;>
    simp [Exchange.release, Exchange.released?, Request.released?]

theorem lawful_find (d : Definition) (answer : Except StoreError (Option Int)) (e : StoreError) :
    Lawful (α := α) [.find d answer] (.error (.store e)) where
  begins := ⟨rfl, fun _ mem => absurd mem List.not_mem_nil⟩
  accepts_le := Nat.zero_le 1
  released := by
    rw [forall_suffix_cons]
    exact ⟨nofun, forall_suffix_nil⟩
  done_iff id := by
    rw [exists_suffix_cons]
    simp
  contended_iff := by
    refine ⟨nofun, ?_⟩
    rintro (⟨x, mem, here⟩ | ⟨x, mem, here⟩ | ⟨id, ⟨x, mem, here⟩, -, -⟩)
    · rw [List.mem_singleton.1 mem] at here
      exact absurd here Bool.false_ne_true
    · rw [List.mem_singleton.1 mem] at here
      exact absurd here Bool.false_ne_true
    · rw [List.mem_singleton.1 mem] at here
      exact absurd here nofun
  unaccepted := nofun
  not_busy := nofun

theorem lawful_contended (d : Definition) (answer : Except StoreError (Option Int))
    {x : Exchange α} (contended : x.isRefused = true ∨ x.isOvertaken = true)
    (isFind : x.isFind = false) (obtains : x.obtains? = none) (accepts : x.accepts? = none) :
    Lawful [.find d answer, x] (.ok .contended) where
  begins := ⟨rfl, fun y mem => by rwa [List.mem_singleton.1 mem]⟩
  accepts_le := by
    rw [List.filterMap_cons_none rfl, List.filterMap_cons_none accepts]
    exact Nat.zero_le 1
  released := by
    rw [forall_suffix_cons, forall_suffix_cons]
    refine ⟨nofun, fun id obtained => ?_, forall_suffix_nil⟩
    cases obtains.symm.trans obtained
  done_iff id := by
    rw [exists_suffix_cons, exists_suffix_cons, accepts]
    simp [Exchange.find, Exchange.accepts?, Request.accepts?]
  contended_iff := by
    refine ⟨fun _ => ?_, fun _ => rfl⟩
    have mem : x ∈ [.find d answer, x] := List.mem_cons_of_mem _ List.mem_cons_self
    exact contended.elim (fun here => .refused ⟨x, mem, here⟩) fun here => .overtaken ⟨x, mem, here⟩
  unaccepted _ := by
    rw [List.filterMap_cons_none rfl, List.filterMap_cons_none accepts]
    rfl
  not_busy := nofun

theorem lawful_opened (d : Definition) (answer : Except StoreError (Option Int)) {x : Exchange α}
    {id : Int} (opens : Opens x id) (job : String) (submitted : Int) (effective : α)
    {added : Except StoreError Unit} {released : Except StoreError Bool}
    {r : Except BrokerError Attempt}
    (done_iff : ∀ id', r = .ok (.done id') ↔
      (id = id' ∧ added = .ok ()) ∧ ∃ changed, released = .ok changed)
    (contended_iff : r = .ok .contended ↔ x.holds? = some id ∧
      (∃ other, added = .error (.unknownQueue other)) ∧ ∃ changed, released = .ok changed)
    (not_busy : ∀ n, r ≠ .error (.busy n)) :
    Lawful [.find d answer, x, .add id job submitted effective added, .release id released] r where
  begins := by
    refine ⟨rfl, fun y mem => ?_⟩
    rcases List.mem_cons.1 mem with rfl | mem
    · exact opens.isFind
    · rcases List.mem_cons.1 mem with rfl | mem
      · rfl
      · cases List.mem_singleton.1 mem
        rfl
  accepts_le := by
    rw [List.filterMap_cons_none rfl, List.filterMap_cons_none opens.accepts?]
    rcases added with _ | _
    · exact Nat.zero_le 1
    · exact Nat.le_refl 1
  released := by
    simp only [forall_suffix_cons]
    refine ⟨nofun, fun id' obtained => ?_, nofun, nofun, forall_suffix_nil⟩
    cases opens.obtains?.symm.trans obtained
    rfl
  done_iff id' := by
    simp only [done_iff, exists_suffix_cons]
    constructor
    · rintro ⟨accepted, released⟩
      exact .inr (.inr (.inl ⟨accepts?_add.2 accepted, _, List.mem_singleton_self _,
        released?_release.2 ⟨accepted.1, released⟩⟩))
    · rintro (⟨accepted, -⟩ | ⟨accepted, -⟩ | ⟨accepted, y, mem, here⟩ | ⟨accepted, -⟩ |
        ⟨_, _, none, -⟩)
      · exact absurd accepted nofun
      · rw [opens.accepts?] at accepted
        cases accepted
      · rw [List.mem_singleton.1 mem] at here
        exact ⟨accepts?_add.1 accepted, (released?_release.1 here).2⟩
      · exact absurd accepted nofun
      · exact absurd (List.suffix_nil.1 none) (List.cons_ne_nil _ _)
  contended_iff := by
    have found : let x : Exchange α := .find d answer
        x.isRefused = false ∧ x.isOvertaken = false ∧ x.holds? = none ∧ x.misses? = none ∧
          x.released? = none := ⟨rfl, rfl, rfl, rfl, rfl⟩
    have tried : let x : Exchange α := .add id job submitted effective added
        x.isRefused = false ∧ x.isOvertaken = false ∧ x.holds? = none ∧ x.released? = none :=
      ⟨rfl, rfl, rfl, rfl⟩
    have ended : let x : Exchange α := .release id released
        x.isRefused = false ∧ x.isOvertaken = false ∧ x.holds? = none ∧ x.misses? = none :=
      ⟨rfl, rfl, rfl, rfl⟩
    rw [contended_iff, Insertion.contended_iff]
    simp only [List.mem_cons, exists_eq_or_imp, exists_eq_left, List.not_mem_nil, or_false,
      found, tried, ended, opens.isRefused, opens.isOvertaken, opens.misses?, opens.released?,
      misses?_add, released?_release, Bool.false_eq_true, reduceCtorEq, false_or]
    constructor
    · exact fun ⟨held, gone, released⟩ => ⟨id, held, ⟨rfl, gone⟩, rfl, released⟩
    · rintro ⟨_, held, ⟨rfl, gone⟩, -, released⟩
      exact ⟨held, gone, released⟩
  unaccepted contended := by
    obtain ⟨-, ⟨other, rfl⟩, -⟩ := contended_iff.1 contended
    rw [List.filterMap_cons_none rfl, List.filterMap_cons_none opens.accepts?]
    rfl
  not_busy := not_busy

theorem lawful_of_pass {job : String} {p : List (Exchange α)} {r : Except BrokerError Attempt}
    (h : Pass job p r) : Lawful p r := by
  cases h with
  | lost d e => exact lawful_find d _ e
  | unheld d id e =>
    have idle : (Exchange.hold (α := α) id (.error e)).IsIdle :=
      ⟨rfl, rfl, rfl, rfl, rfl, rfl, rfl, rfl, rfl⟩
    exact (lawful_find d _ e).insert (p := [_]) (List.cons_ne_nil _ _) idle
  | refused d id => exact lawful_contended d _ (.inl rfl) rfl rfl rfl
  | held d id submitted effective added released =>
    have opens : Opens (α := α) (.hold id (.ok true)) id := ⟨rfl, rfl, rfl, rfl, rfl, rfl, rfl⟩
    refine lawful_opened d _ opens job submitted effective (fun _ => afterHold_eq_done)
      (afterHold_eq_contended.trans ?_) (afterHold_ne_busy id added released)
    exact ⟨fun lost => ⟨rfl, lost⟩, And.right⟩
  | overtaken d priority => exact lawful_contended d _ (.inr rfl) rfl rfl rfl
  | uncreated d priority e other =>
    have idle : (Exchange.create d priority (.error e)).IsIdle := by
      refine ⟨rfl, rfl, rfl, rfl, rfl, rfl, ?_, rfl, rfl⟩
      cases e <;> first | rfl | exact absurd rfl other
    exact (lawful_find d _ e).insert (p := [_]) (List.cons_ne_nil _ _) idle
  | @created d priority id submitted effective added released calm after still still' =>
    have opens : Opens (.create d priority (.ok id)) id := ⟨rfl, rfl, rfl, rfl, rfl, rfl, rfl⟩
    have bare : Lawful [.find d (.ok none), .create d priority (.ok id),
        .add id job submitted effective added, .release id released]
        (afterCreation id added released) := by
      refine lawful_opened d _ opens job submitted effective (fun _ => afterCreation_eq_done) ?_
        (afterCreation_ne_busy id added released)
      exact ⟨fun h => absurd h (afterCreation_ne_contended id added released), nofun⟩
    have counted := bare.insert (p := [_, _]) (List.cons_ne_nil _ _)
      (Exchange.isIdle_count .queueCreated)
    have tailed := Lawful.insertAll (p := [_, _, _, _, _]) (q := []) counted (List.cons_ne_nil _ _)
      still'
    rw [List.append_nil] at tailed
    exact Lawful.insertAll (p := [_, _, _, _]) (q := _ :: after) tailed (List.cons_ne_nil _ _) still

/-! ### Passes in a row -/

theorem passes_append_of_not_find {p : List (Exchange α)} (h : ∀ x ∈ p, x.isFind = false)
    (q : List (Exchange α)) : passes (p ++ q) = passes q := by
  induction p with
  | nil => rfl
  | cons x p ih =>
    rw [List.cons_append, passes, h x List.mem_cons_self, if_neg Bool.false_ne_true]
    exact ih fun y mem => h y (List.mem_cons_of_mem _ mem)

theorem thisPass_append_of_not_find {p : List (Exchange α)} (h : ∀ x ∈ p, x.isFind = false)
    (q : List (Exchange α)) : thisPass (p ++ q) = p ++ thisPass q := by
  refine List.takeWhile_append_of_pos fun x mem => ?_
  rw [h x mem, Bool.not_false]

theorem Begins.passes_append {p : List (Exchange α)} (h : Begins p) (q : List (Exchange α)) :
    passes (p ++ q) = (p ++ thisPass q) :: passes q := by
  cases p with
  | nil => exact h.elim
  | cons x p =>
    rw [List.cons_append, passes, h.1, if_pos rfl, passes_append_of_not_find h.2,
      thisPass_append_of_not_find h.2]
    rfl

theorem Begins.thisPass_append {p : List (Exchange α)} (h : Begins p) (q : List (Exchange α)) :
    thisPass (p ++ q) = [] := by
  cases p with
  | nil => exact h.elim
  | cons x p =>
    rw [List.cons_append, thisPass, List.takeWhile_cons_of_neg]
    simp [h.1]

theorem Begins.not_find {p rest : List (Exchange α)} {x : Exchange α} (h : Begins p)
    (suffix : x :: rest <:+ p) : ∀ y ∈ rest, y.isFind = false := by
  cases p with
  | nil => exact h.elim
  | cons first p =>
    rcases List.suffix_cons_iff.1 suffix with same | later
    · cases same
      exact h.2
    · exact fun y mem => h.2 y (later.subset (List.mem_cons_of_mem x mem))

def Pauses (q : List (Exchange α)) : Prop := ∀ x ∈ thisPass q, x.IsIdle

theorem Pauses.cons {x : Exchange α} {q : List (Exchange α)} (h : Pauses q) (idle : x.IsIdle) :
    Pauses (x :: q) := by
  intro y mem
  rw [thisPass, List.takeWhile_cons_of_pos (by rw [idle.isFind, Bool.not_false])] at mem
  rcases List.mem_cons.1 mem with rfl | mem
  · exact idle
  · exact h y mem

theorem contended_append {q : List (Exchange α)} (idle : ∀ x ∈ q, x.IsIdle)
    (p : List (Exchange α)) : Contended (p ++ q) ↔ Contended p := by
  induction q with
  | nil => rw [List.append_nil]
  | cons x q ih =>
    rw [contended_insert (idle x List.mem_cons_self)]
    exact ih fun y mem => idle y (List.mem_cons_of_mem _ mem)

theorem releasesEach_cons {x : Exchange α} {q : List (Exchange α)} (h : ReleasesEach q)
    (idle : x.IsIdle) : ReleasesEach (x :: q) := by
  rw [ReleasesEach, forall_suffix_cons]
  refine ⟨fun id obtained => ?_, h⟩
  rw [idle.obtains?] at obtained
  cases obtained

theorem addsTo_cons {x : Exchange α} {q : List (Exchange α)} (idle : x.IsIdle) (id : Int) :
    AddsTo id (x :: q) ↔ AddsTo id q := by
  rw [AddsTo, exists_suffix_cons, idle.accepts?]
  simp [AddsTo]

variable {p q : List (Exchange α)} {r : Except BrokerError Attempt}

theorem Lawful.releasesEach (h : Lawful p r) (pauses : Pauses q) (later : ReleasesEach q) :
    ReleasesEach (p ++ q) := by
  rw [ReleasesEach, forall_suffix_append]
  refine ⟨fun x rest suffix id obtained => ?_, later⟩
  have quiet : (thisPass q).filterMap Exchange.releases? = [] :=
    List.filterMap_eq_nil_iff.2 fun y mem => (pauses y mem).releases?
  rw [thisPass_append_of_not_find (h.begins.not_find suffix), List.filterMap_append, quiet,
    List.append_nil]
  exact h.released x rest suffix id obtained

theorem Lawful.addsTo_iff (h : Lawful p r) (pauses : Pauses q) (id : Int) :
    AddsTo id (p ++ q) ↔ r = .ok (.done id) ∨ AddsTo id q := by
  rw [AddsTo, exists_suffix_append, h.done_iff id]
  refine or_congr (exists_congr fun x => exists_congr fun rest => and_congr_right fun suffix =>
    and_congr_right fun _ => ?_) Iff.rfl
  rw [thisPass_append_of_not_find (h.begins.not_find suffix)]
  constructor
  · rintro ⟨y, mem, released⟩
    rcases List.mem_append.1 mem with here | after
    · exact ⟨y, here, released⟩
    · rw [(pauses y after).released?] at released
      cases released
  · rintro ⟨y, mem, released⟩
    exact ⟨y, List.mem_append_left _ mem, released⟩

/-- What an insertion asks that has a number of attempts left, out of `limit`. -/
inductive Passes (limit : Nat) (job : String) :
    Nat → List (Exchange α) → Except BrokerError Int → Prop where
  | exhausted : Passes limit job 0 [.count (.insertion .busy)] (.error (.busy limit))
  | inserted {attempts : Nat} {id : Int} {p : List (Exchange α)}
      (pass : Pass job p (.ok (.done id))) :
      Passes limit job (attempts + 1) (p ++ [.count (.insertion .inserted)]) (.ok id)
  | failed {attempts : Nat} {e : BrokerError} {p : List (Exchange α)}
      (pass : Pass job p (.error e)) :
      Passes limit job (attempts + 1) p (.error e)
  | again {attempts : Nat} {p q : List (Exchange α)} {r : Except BrokerError Int}
      (pass : Pass job p (.ok .contended)) (later : Passes limit job attempts q r) :
      Passes limit job (attempts + 1) (p ++ .count .contentionRetry :: q) r

structure Looped (limit attempts : Nat) (asked : List (Exchange α)) (r : Except BrokerError Int) :
    Prop where
  pauses : Pauses asked
  passes_le : (passes asked).length ≤ attempts
  accepts_le : (asked.filterMap Exchange.accepts?).length ≤ 1
  released : ReleasesEach asked
  ok_iff : ∀ id, r = .ok id ↔ AddsTo id asked
  busy_iff : (∃ n, r = .error (.busy n)) ↔ ∀ pass ∈ passes asked, Contended pass
  exhausted : ∀ n, r = .error (.busy n) → n = limit ∧ (passes asked).length = attempts

theorem pauses_append (h : Begins p) : Pauses (p ++ q) := by
  simp [Pauses, h.thisPass_append]

theorem passes_cons_of_idle {x : Exchange α} (idle : x.IsIdle) (q : List (Exchange α)) :
    passes (x :: q) = passes q := by
  rw [passes, idle.isFind, if_neg Bool.false_ne_true]

structure Idle (q : List (Exchange α)) : Prop where
  pauses : Pauses q
  passes : passes q = []
  accepts : q.filterMap Exchange.accepts? = []
  released : ReleasesEach q
  unadded : ∀ id, ¬ AddsTo id q

theorem idle_nil : Idle ([] : List (Exchange α)) where
  pauses := by simp [Pauses, thisPass]
  passes := rfl
  accepts := rfl
  released := forall_suffix_nil
  unadded id := by simp [AddsTo]

theorem Idle.cons {x : Exchange α} (h : Idle q) (idle : x.IsIdle) : Idle (x :: q) where
  pauses := h.pauses.cons idle
  passes := (passes_cons_of_idle idle q).trans h.passes
  accepts := (List.filterMap_cons_none idle.accepts?).trans h.accepts
  released := releasesEach_cons h.released idle
  unadded id adds := h.unadded id ((addsTo_cons idle id).1 adds)

theorem idle_count (event : Event) : Idle ([.count event] : List (Exchange α)) :=
  idle_nil.cons (Exchange.isIdle_count event)

variable {result : Except BrokerError Int} {limit attempts : Nat}

theorem looped_exhausted (limit : Nat) :
    Looped (α := α) limit 0 [.count (.insertion .busy)] (.error (.busy limit)) := by
  have idle := idle_count (α := α) (.insertion .busy)
  constructor
  · exact idle.pauses
  · rw [idle.passes]
    exact Nat.le_refl 0
  · rw [idle.accepts]
    exact Nat.zero_le 1
  · exact idle.released
  · simp [idle.unadded]
  · simp [idle.passes]
  · intro n same
    cases same
    exact ⟨rfl, congrArg List.length idle.passes⟩

theorem looped_last (h : Lawful p r) (idle : Idle q) (uncontended : r ≠ .ok .contended)
    (done : ∀ id, result = .ok id ↔ r = .ok (.done id)) (notBusy : ∀ n, result ≠ .error (.busy n)) :
    Looped limit (attempts + 1) (p ++ q) result := by
  have one := h.begins.passes_append q
  rw [idle.passes] at one
  have other : ¬ Contended (p ++ thisPass q) := by
    rw [contended_append idle.pauses, ← h.contended_iff]
    exact uncontended
  constructor
  · exact pauses_append h.begins
  · rw [one]
    exact Nat.succ_le_succ (Nat.zero_le _)
  · rw [List.filterMap_append, idle.accepts, List.append_nil]
    exact h.accepts_le
  · exact h.releasesEach idle.pauses idle.released
  · intro id
    rw [h.addsTo_iff idle.pauses, done id, or_iff_left (idle.unadded id)]
  · simp [one, other, notBusy]
  · exact fun n busy => (notBusy n busy).elim

theorem looped_again (h : Lawful p (.ok .contended)) (later : Looped limit attempts q result) :
    Looped limit (attempts + 1) (p ++ .count .contentionRetry :: q) result := by
  have idle : (Exchange.count .contentionRetry : Exchange α).IsIdle := Exchange.isIdle_count _
  have pauses := later.pauses.cons idle
  have more := h.begins.passes_append (.count .contentionRetry :: q)
  rw [passes_cons_of_idle idle] at more
  have contended : Contended (p ++ thisPass (.count .contentionRetry :: q)) :=
    (contended_append pauses p).2 (h.contended_iff.1 rfl)
  constructor
  · exact pauses_append h.begins
  · rw [more]
    exact Nat.succ_le_succ later.passes_le
  · rw [List.filterMap_append, h.unaccepted rfl, List.nil_append,
      List.filterMap_cons_none idle.accepts?]
    exact later.accepts_le
  · exact h.releasesEach pauses (releasesEach_cons later.released idle)
  · intro id
    rw [h.addsTo_iff pauses, addsTo_cons idle, ← later.ok_iff id]
    simp
  · rw [later.busy_iff, more, List.forall_mem_cons]
    exact (and_iff_right contended).symm
  · intro n busy
    obtain ⟨all, count⟩ := later.exhausted n busy
    exact ⟨all, by rw [more, List.length_cons, count]⟩

theorem looped_of_passes {job : String} (h : Passes limit job attempts p result) :
    Looped limit attempts p result := by
  induction h with
  | exhausted => exact looped_exhausted limit
  | inserted pass =>
    refine looped_last (lawful_of_pass pass) (idle_count _) (by simp) (fun id => ?_) nofun
    simp
  | @failed attempts e p pass =>
    have lawful := lawful_of_pass pass
    have last : Looped limit (attempts + 1) (p ++ []) (.error e) := by
      refine looped_last lawful idle_nil nofun (by simp) fun n busy => ?_
      cases busy
      exact lawful.not_busy n rfl
    rwa [List.append_nil] at last
  | again pass _ ih => exact looped_again (lawful_of_pass pass) ih

theorem Looped.inserted (h : Looped limit limit p result) (positive : limit ≠ 0) :
    Inserted limit p result where
  passes_le := h.passes_le
  accepts_le := h.accepts_le
  released := h.released
  ok_iff := h.ok_iff
  busy_iff := by
    refine h.busy_iff.trans (iff_and_self.2 fun contended none => positive ?_)
    obtain ⟨n, busy⟩ := h.busy_iff.2 contended
    rw [← (h.exhausted n busy).2, none, List.length_nil]
  exhausted := h.exhausted

theorem inserted_rejected (e : ValidationError) :
    Inserted (α := α) limit [.count (.insertion .rejected)] (.error (.validation e)) := by
  have idle := idle_count (α := α) (.insertion .rejected)
  constructor
  · simp [idle.passes]
  · simp [idle.accepts]
  · exact idle.released
  · simp [idle.unadded]
  · simp [idle.passes]
  · simp

end Insertion

end Matchmaker
