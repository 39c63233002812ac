import Matchmaker.Proofs.Concurrency.Gate
import Matchmaker.Proofs.Concurrency.Handout
import Matchmaker.Proofs.Queue.Fingerprint

/-!
Which queue a job is filed in. An insertion finds or creates the queue of its definition and adds
the job to it in a later step; in between others may remove the queue and create it again. The
number of a queue stands for one definition for good, so that a job is only ever added to a queue
with the definition of its requirements.
-/
namespace Matchmaker

variable {α : Type}

/-! ### What an exchange says of queues -/

namespace Request

def locates? : (q : Request α) → q.Answer → Option (Definition × Int)
  | store (.find d), (.ok (some id) : Except StoreError (Option Int)) => some (d, id)
  | store (.create d _ _), (.ok id : Except StoreError Int) => some (d, id)
  | _, _ => none

def identifies? : (q : Request α) → q.Answer → Option Definition
  | store (.find d), (.ok _ : Except StoreError (Option Int)) => some d
  | store (.create d _ _), (.ok _ : Except StoreError Int) => some d
  | _, _ => none

def files? : Request α → Option (String × Int)
  | store (.addJob id job _ _) => some (job, id)
  | _ => none

theorem identifies?_of_locates? {q : Request α} {answer : q.Answer} {d : Definition} {id : Int}
    (h : q.locates? answer = some (d, id)) : q.identifies? answer = some d := by
  unfold locates? at h
  split at h
  · cases h
    rfl
  · cases h
    rfl
  · cases h

theorem found_of_locates? {d d' : Definition} {found : Option Int} {id : Int}
    (h : (store (.find d') : Request α).locates? (.ok found : Except StoreError (Option Int)) =
      some (d, id)) : d' = d ∧ found = some id := by
  cases found with
  | none => cases h
  | some id' =>
    cases h
    exact ⟨rfl, rfl⟩

theorem files?_of_addedTo? {q : Request α} {answer : q.Answer} {job : String} {id : Int}
    (h : q.addedTo? job answer = some id) : q.files? = some (job, id) := by
  cases q with
  | store call =>
    cases call with
    | addJob id' name submitted effective =>
      cases answer with
      | error e => cases h
      | ok _ =>
        by_cases own : name = job
        · have same : id' = id := Option.some.inj ((if_pos own).symm.trans h)
          rw [files?, own, same]
        · cases (if_neg own).symm.trans h
    | _ => cases h
  | _ => cases h

theorem files?_of_not_isGate {q : Request α} (h : q.isGate = false) : q.files? = none := by
  unfold isGate at h
  split at h
  · cases h
  · cases h
  · cases h
  · rename_i other
    unfold files?
    split
    · exact (other _ _ _ _ rfl).elim
    · rfl

end Request

/-- The definitions that queues were looked up or created by: those whose texts were hashed. -/
def identified (history : List (Entry α)) : List Definition :=
  history.filterMap fun e => e.question.identifies? e.answer

/-! ### Rules -/

/-- A queue has been found or created by a definition. -/
def Located (d : Definition) (id : Int) (asked : List (Exchange α)) : Prop :=
  ∃ x ∈ asked, x.1.locates? x.2 = some (d, id)

def AddedTo (job : String) (id : Int) (asked : List (Exchange α)) : Prop :=
  ∃ x ∈ asked, x.1.addedTo? job x.2 = some id

theorem AddedTo.append {job : String} {id : Int} {asked : List (Exchange α)}
    (h : AddedTo job id asked) (later : List (Exchange α)) : AddedTo job id (asked ++ later) := by
  obtain ⟨x, mem, added⟩ := h
  exact ⟨x, List.mem_append_left later mem, added⟩

theorem Located.append {d : Definition} {id : Int} {asked : List (Exchange α)}
    (h : Located d id asked) (later : List (Exchange α)) : Located d id (asked ++ later) := by
  obtain ⟨x, mem, located⟩ := h
  exact ⟨x, List.mem_append_left later mem, located⟩

/-- A job is added by its own insertion only, to a queue that has been found or created by the
definition for it; what an insertion answers, it has added the job to. -/
def filingRules (b : Broker α) : Rules (List (Exchange α)) α where
  start := []
  allows call asked q := ∀ job id, q.files? = some (job, id) →
    ∃ r submitted d, call = .insert job r submitted ∧ b.definitionFor job r = .ok d ∧
      Located d id asked
  next := Protocol.transcript.next
  ends
    | .insert job _ _, asked, r => ∀ id, r = some (.ok id) → AddedTo job id asked
    | _, _, _ => True

theorem after_filingRules (b : Broker α) (i : Nat) (history : List (Entry α)) :
    (filingRules b).after i history = askedBy i history := Rules.after_eq_askedBy rfl rfl i history

namespace Filing

open Operation

variable {β : Type} {b : Broker α} {call : BrokerCall} {asked : List (Exchange α)}

theorem allows_of_files?_eq_none {q : Request α} (h : q.files? = none) :
    (filingRules b).allows call asked q := by
  intro job id same
  rw [h] at same
  cases same

theorem keeps_addedTo {x : Operation α β} (h : x.Within (fun q => q.files? = none) True)
    {job : String} {id : Int} (added : AddedTo job id asked) :
    x.Keeps ((filingRules b).protocol call) (fun later _ => AddedTo job id later) asked := by
  have kept := Script.Keeps.of_allowed (P := (filingRules b).protocol call) h added
    fun g q there other => ⟨allows_of_files?_eq_none other, fun a => there.append [⟨q, a⟩]⟩
  exact kept.mono fun _ _ ended => ended.1

theorem keeps_any {x : Operation α β} (h : x.Within (fun q => q.files? = none) True) :
    x.Keeps ((filingRules b).protocol call) (fun _ _ => True) asked := by
  have kept : Script.Keeps ((filingRules b).protocol call) (fun _ r => True ∧ (r = none → True))
      x.run asked :=
    Script.Keeps.of_allowed h trivial fun g q _ other =>
      ⟨allows_of_files?_eq_none other, fun _ => trivial⟩
  exact kept.mono fun _ _ _ => trivial

/-! ### Insertions -/

def Files (job : String) (asked : List (Exchange α)) (r : Ending Broker.Attempt) : Prop :=
  ∀ id, r = some (.ok (.done id)) → AddedTo job id asked

variable {job : String} {r : Requirements} {submitted : Int} {d : Definition}

theorem allows_addJob (known : b.definitionFor job r = .ok d) {id : Int}
    (located : Located d id asked) (submitted' : Int) (effective : α) :
    (filingRules b).allows (.insert job r submitted) asked
      (.store (.addJob id job submitted' effective)) := by
  rintro _ _ ⟨⟩
  exact ⟨r, submitted, d, rfl, known, located⟩

theorem keeps_insertIntoExisting (known : b.definitionFor job r = .ok d) {id : Int}
    (located : Located d id asked) (submitted' : Int) (effective : α) :
    (Broker.insertIntoExisting id job submitted' effective).Keeps
      ((filingRules b).protocol (.insert job r submitted)) (Files job) asked := by
  refine (keeps_bind _ _).2 ((keeps_store _ _).2 ⟨nofun, fun changed => ?_, fun e => nofun⟩)
  cases changed with
  | false => exact nofun
  | true =>
    refine (keeps_bind _ _).2 ⟨allows_addJob known (located.append _) _ _, fun added => ?_⟩
    cases added with
    | error e =>
      refine Keeps.bind (keeps_any (Asking.within_release rfl)) (fun _ _ => nofun) (fun _ _ _ => nofun) ?_
      intro _ _ _
      cases e <;> exact nofun
    | ok _ =>
      have here : AddedTo job id (asked ++ [⟨.store (.setEnabled id true false), .ok true⟩] ++
          [(⟨.store (.addJob id job submitted' effective), .ok ()⟩ : Exchange α)]) :=
        ⟨_, List.mem_append_right _ (List.mem_singleton_self _), if_pos rfl⟩
      refine Keeps.bind (keeps_addedTo (Asking.within_release rfl) here) (fun _ _ => nofun)
        (fun _ _ _ => nofun) ?_
      rintro later _ there _ ⟨⟩
      exact there

variable [Scalar α]

theorem keeps_insertIntoNew (known : b.definitionFor job r = .ok d) (submitted' : Int)
    (effective : α) :
    (b.insertIntoNew d job submitted' effective).Keeps
      ((filingRules b).protocol (.insert job r submitted)) (Files job) asked := by
  refine (keeps_bind _ _).2 ⟨nofun, fun created => ?_⟩
  cases created with
  | error e => cases e <;> exact nofun
  | ok id =>
    have located : Located d id
        (asked ++ [(⟨.store (.create d b.policy.initialPriority false), .ok id⟩ : Exchange α)]) :=
      ⟨_, List.mem_append_right _ (List.mem_singleton_self _), rfl⟩
    refine (keeps_bind _ _).2 ⟨nofun, fun _ => ?_⟩
    refine (keeps_bind _ _).2 ⟨allows_addJob known (located.append _) _ _, fun added => ?_⟩
    cases added with
    | error e =>
      exact Keeps.bind (keeps_any (Asking.within_abandon rfl rfl rfl)) (fun _ _ => nofun) (fun _ _ _ => nofun)
        fun _ _ _ => nofun
    | ok _ =>
      have quiet :
          (attempt (b.recalculate d.ownerGroup)).Within (fun q => q.files? = none) True := by
        refine (b.quiet_recalculate d.ownerGroup).attempt.mono (fun q asks => ?_) fun _ => trivial
        exact Request.files?_of_not_isGate (Request.not_isGate_of_isQuiet asks)
      refine Keeps.bind (keeps_addedTo quiet
        ⟨_, List.mem_append_right _ (List.mem_singleton_self _), if_pos rfl⟩)
        (fun _ _ => nofun) (fun _ _ _ => nofun) fun _ _ there => ?_
      refine Keeps.bind (keeps_addedTo (Asking.within_release rfl) there) (fun _ _ => nofun)
        (fun _ _ _ => nofun) ?_
      rintro later _ there _ ⟨⟩
      exact there

theorem keeps_insertOnce (known : b.definitionFor job r = .ok d) (submitted' : Int)
    (effective : α) :
    (b.insertOnce d job submitted' effective).Keeps
      ((filingRules b).protocol (.insert job r submitted)) (Files job) asked := by
  refine (keeps_bind _ _).2 ((keeps_store _ _).2 ⟨nofun, fun found => ?_, fun e => nofun⟩)
  cases found with
  | some id =>
    exact keeps_insertIntoExisting known
      ⟨_, List.mem_append_right _ (List.mem_singleton_self _), rfl⟩ _ _
  | none => exact keeps_insertIntoNew known _ _

theorem keeps_insertRepeatedly (known : b.definitionFor job r = .ok d) (submitted' : Int)
    (effective : α) (attempts : Nat) :
    (b.insertRepeatedly d job submitted' effective attempts).Keeps
      ((filingRules b).protocol (.insert job r submitted))
      (fun later result => ∀ id, result = some (.ok id) → AddedTo job id later) asked := by
  induction attempts generalizing asked with
  | zero => exact (keeps_bind _ _).2 ⟨nofun, fun _ => nofun⟩
  | succ attempts ih =>
    refine Keeps.bind (keeps_insertOnce known submitted' effective) (fun _ _ => nofun)
      (fun _ _ _ => nofun) fun later attempt files => ?_
    cases attempt with
    | done id =>
      refine (keeps_bind _ _).2 ⟨nofun, ?_⟩
      rintro _ _ ⟨⟩
      exact (files id rfl).append _
    | contended => exact (keeps_bind _ _).2 ⟨nofun, fun _ => ih⟩

attribute [local irreducible] Broker.definitionFor

theorem keeps_insert :
    (b.insert job r submitted).Keeps ((filingRules b).protocol (.insert job r submitted))
      (fun later result => ∀ id, result = some (.ok id) → AddedTo job id later) asked := by
  unfold Broker.insert
  split
  · exact (keeps_bind _ _).2 ⟨nofun, fun _ => nofun⟩
  · rename_i d known
    rw [keeps_bind, keeps_orAbort]
    cases b.policy.bounds.effective? submitted with
    | none => exact nofun
    | some effective => exact keeps_insertRepeatedly known submitted effective _

variable [Random.Logarithm α]

theorem keptBy (b : Broker α) : (filingRules b).KeptBy b := by
  intro call
  cases insertion : call.isInsert with
  | false =>
    have apart : (b.course call).Within (fun q => q.files? = none) True :=
      (Gate.within_of_not_isInsert insertion).mono (fun _ => Request.files?_of_not_isGate) id
    refine (keeps_any apart).mono fun _ _ _ => ?_
    cases call with
    | insert job requirements submitted => cases insertion
    | _ => exact trivial
  | true =>
    cases call with
    | insert job requirements submitted => exact keeps_insert
    | _ => cases insertion

end Filing

/-! ### Queues and their definitions -/

/-- SHA-256 does not collide on the texts of the definitions. -/
def Definition.Apart (definitions : List Definition) : Prop :=
  ∀ d ∈ definitions, ∀ e ∈ definitions, ¬ Digest.Collide d.bytes e.bytes
  deriving Decidable

section Definitions

variable [Scalar α] {faulty : Prop} {s t : Store α}

theorem Store.Effect.queue_origin {call : StoreCall α} {answer : Except StoreError call.Answer}
    (e : s.Effect call answer t) {id : Int} {q : StoredQueue α} (found : t.queues[id]? = some q) :
    (∃ p : StoredQueue α, s.queues[id]? = some p ∧ p.definition = q.definition) ∨
      (Request.store call).locates? answer = some (q.definition, id) := by
  cases e with
  | read | known | unswitched | duplicate | homeless | missing | kept | unknown | updated =>
    exact .inl ⟨q, found, rfl⟩
  | created d priority enabled fresh =>
    rw [Std.ExtTreeMap.getElem?_insert] at found
    by_cases own : s.lastId + 1 = id
    · rw [if_pos (Std.LawfulEqOrd.compare_eq_iff_eq.2 own)] at found
      cases found
      exact .inr (congrArg (fun id => some (d, id)) own)
    · rw [if_neg (mt Std.LawfulEqOrd.compare_eq_iff_eq.1 own)] at found
      exact .inl ⟨q, found, rfl⟩
  | switched | added | removed | deleted | prioritized =>
    simp only [Std.ExtTreeMap.getElem?_insert, Std.ExtTreeMap.getElem?_modify,
      Std.ExtTreeMap.getElem?_erase, getElem?_queues_setPriorities] at found
    grind

theorem Answered.queue_origin {q : Request α} {answer : q.Answer} (h : Answered faulty s q answer t)
    {id : Int} {stored : StoredQueue α} (found : t.queues[id]? = some stored) :
    (∃ p : StoredQueue α, s.queues[id]? = some p ∧ p.definition = stored.definition) ∨
      q.identifies? answer = some stored.definition := by
  cases h with
  | performed effect =>
    exact (effect.queue_origin found).imp_right Request.identifies?_of_locates?
  | failed | elsewhere => exact .inl ⟨stored, found, rfl⟩

theorem Answered.located {q : Request α} {answer : q.Answer} (h : Answered faulty s q answer t)
    (consistent : s.Consistent) {d : Definition} {id : Int}
    (located : q.locates? answer = some (d, id)) :
    ∃ stored : StoredQueue α, t.queues[id]? = some stored ∧
      stored.definition.fingerprint = d.fingerprint := by
  cases h with
  | @performed call _ _ effect =>
    cases effect with
    | read reads =>
      cases call with
      | find d' =>
        obtain ⟨rfl, found⟩ := Request.found_of_locates? located
        obtain ⟨stored, there, same⟩ := (consistent.indexed _ _).1 found
        rw [consistent.fingerprinted id stored there] at same
        exact ⟨stored, there, same⟩
      | _ => first | cases located | cases reads
    | created d' priority enabled fresh =>
      cases located
      exact ⟨_, Std.ExtTreeMap.getElem?_insert_self, rfl⟩
    | _ => cases located
  | failed call e fault => cases call <;> cases located
  | elsewhere other =>
    cases q with
    | store => cases other
    | _ => cases located

namespace Trace

variable {h : List (Entry α)}

theorem queue_origin (trace : Trace faulty s h t) {id : Int} {q : StoredQueue α}
    (found : t.queues[id]? = some q) :
    (∃ p : StoredQueue α, s.queues[id]? = some p ∧ p.definition = q.definition) ∨
      q.definition ∈ identified h := by
  induction trace with
  | nil => exact .inl ⟨q, found, rfl⟩
  | @cons e rest t answered _ ih =>
    rcases ih found with ⟨p, there, same⟩ | later
    · rw [← same]
      refine (answered.queue_origin there).imp_right fun created => ?_
      exact List.mem_filterMap.2 ⟨e, List.mem_cons_self, created⟩
    · obtain ⟨f, mem, created⟩ := List.mem_filterMap.1 later
      exact .inr (List.mem_filterMap.2 ⟨f, List.mem_cons_of_mem e mem, created⟩)

theorem mem_identified (trace : Trace faulty {} h t) {id : Int} {q : StoredQueue α}
    (found : t.queues[id]? = some q) : q.definition ∈ identified h := by
  refine (trace.queue_origin found).resolve_left ?_
  rintro ⟨p, there, -⟩
  simp at there

/-- A queue that was found or created by a definition has it for good. -/
theorem defines_located (trace : Trace faulty {} h t) (apart : Definition.Apart (identified h))
    {e : Entry α} (mem : e ∈ h) {d : Definition} {id : Int}
    (located : e.question.locates? e.answer = some (d, id)) : t.Defines id d := by
  obtain ⟨first, rest, rfl⟩ := List.append_of_mem mem
  obtain ⟨earlier, answered, later⟩ := trace.split_cons
  have consistent := earlier.consistent Store.consistent_empty
  obtain ⟨q, there, same⟩ := answered.located consistent located
  have reached : Trace faulty {} (first ++ [e]) e.after := earlier.append (.cons answered (.nil _))
  have known : q.definition ∈ identified (first ++ e :: rest) := by
    rw [List.append_cons, identified, List.filterMap_append]
    exact List.mem_append_left _ (reached.mem_identified there)
  have asked : d ∈ identified (first ++ e :: rest) :=
    List.mem_filterMap.2 ⟨e, mem, Request.identifies?_of_locates? located⟩
  have equal : q.definition = d :=
    (Definition.fingerprint_eq_iff.1 same).resolve_right (apart _ known _ asked)
  have defines := (answered.consistent consistent).defines there
  rw [equal] at defines
  exact later.defines defines

end Trace

end Definitions

/-! ### Systems -/

/-- The last time that a job was added, an insertion with these requirements added it. -/
def QueuedWith (s : System α) (job : String) (r : Requirements) : Prop :=
  ∃ first e rest id submitted left, s.history = first ++ e :: rest ∧
    e.question.addedTo? job e.answer = some id ∧ lastAddedTo? job rest = none ∧
    s.tasks[e.task]? = some ⟨.insert job r submitted, left⟩

/-- Jobs are filed by their definitions: a definition has one queue at most, which is the one that
is found by it, and the job of an insertion is in the queue with the definition of its
requirements. -/
structure Filed (b : Broker α) (s : System α) : Prop where
  alone : ∀ (id id' : Int) (q q' : StoredQueue α), s.store.queues[id]? = some q →
    s.store.queues[id']? = some q' → q.definition = q'.definition → id = id'
  found_iff : ∀ d : Definition, (∀ e ∈ identified s.history, ¬ Digest.Collide d.bytes e.bytes) →
    ∀ id : Int, s.store.find d = some id ↔
      ∃ q : StoredQueue α, s.store.queues[id]? = some q ∧ q.definition = d
  queued : ∀ (job : String) (record : Job α), s.store.jobs[job]? = some record →
    ∃ r, QueuedWith s job r
  placed : ∀ (job : String) (record : Job α) (r : Requirements),
    s.store.jobs[job]? = some record → QueuedWith s job r →
      ∃ q : StoredQueue α, s.store.queues[record.queue]? = some q ∧ job ∈ q.jobs ∧
        r.toDefinition b.policy.segments = .ok q.definition
  shared_iff : ∀ (job job' : String) (record record' : Job α) (r r' : Requirements),
    s.store.jobs[job]? = some record → s.store.jobs[job']? = some record' →
    QueuedWith s job r → QueuedWith s job' r' →
      (record.queue = record'.queue ↔
        r.toDefinition b.policy.segments = r'.toDefinition b.policy.segments)
  /-- An insertion has added its job to the queue that it answers. -/
  answered : ∀ (i : Nat) (job : String) (r : Requirements) (submitted id : Int),
    s.tasks[i]? = some ⟨.insert job r submitted, .done (.ok id)⟩ →
      (∃ e ∈ s.history, e.task = i ∧ e.question.addedTo? job e.answer = some id) ∧
      ∃ d, r.toDefinition b.policy.segments = .ok d ∧ s.store.Defines id d

theorem lastAddedTo?_append_cons {job : String} {id : Int} (first : List (Entry α)) {e : Entry α}
    {rest : List (Entry α)} (added : e.question.addedTo? job e.answer = some id)
    (last : lastAddedTo? job rest = none) :
    lastAddedTo? job (first ++ e :: rest) = some id := by
  induction first with
  | nil => rw [List.nil_append, lastAddedTo?, last, added, Option.none_or]
  | cons f first ih => rw [List.cons_append, lastAddedTo?, ih, Option.some_or]

theorem exists_last_addedTo {job : String} {id : Int} {h : List (Entry α)}
    (added : lastAddedTo? job h = some id) :
    ∃ first e rest, h = first ++ e :: rest ∧ e.question.addedTo? job e.answer = some id ∧
      lastAddedTo? job rest = none := by
  induction h with
  | nil => cases added
  | cons e rest ih =>
    rw [lastAddedTo?] at added
    cases later : lastAddedTo? job rest with
    | none =>
      rw [later, Option.none_or] at added
      exact ⟨[], e, rest, rfl, added, later⟩
    | some id' =>
      rw [later, Option.some_or] at added
      obtain ⟨first, f, rest', same, here, none⟩ := ih (later.trans added)
      exact ⟨e :: first, f, rest', congrArg (e :: ·) same, here, none⟩

theorem mem_of_mem_askedBy {i : Nat} {x : Exchange α} {history : List (Entry α)}
    (mem : x ∈ askedBy i history) : ∃ e ∈ history, e.task = i ∧ e.exchange = x := by
  obtain ⟨e, among, same⟩ := List.mem_map.1 mem
  have own := List.mem_filter.1 among
  exact ⟨e, own.1, of_decide_eq_true own.2, same⟩

theorem Broker.toDefinition_of_definitionFor {b : Broker α} {job : String} {r : Requirements}
    {d : Definition} (h : b.definitionFor job r = .ok d) :
    r.toDefinition b.policy.segments = .ok d := by
  unfold definitionFor at h
  split at h
  · cases h
  · exact h

namespace Filed

section Parts

variable [Scalar α] {b : Broker α} {s : System α} (followed : (filingRules b).Followed s)
  (trace : Trace True {} s.history s.store) (apart : Definition.Apart (identified s.history))

include followed trace apart in
theorem defines_added {first rest : List (Entry α)} {e : Entry α}
    (here : s.history = first ++ e :: rest) {job : String} {id : Int}
    (added : e.question.addedTo? job e.answer = some id) :
    ∃ r submitted left d, s.tasks[e.task]? = some ⟨.insert job r submitted, left⟩ ∧
      r.toDefinition b.policy.segments = .ok d ∧ s.store.Defines id d := by
  have asked : s.history[first.length]? = some e := by
    rw [here]
    simp
  obtain ⟨⟨call, left⟩, found, allowed⟩ := followed.allowed first.length e asked
  rw [after_filingRules] at allowed
  obtain ⟨r, submitted, d, rfl, known, x, mem, located⟩ :=
    allowed job id (Request.files?_of_addedTo? added)
  obtain ⟨f, among, -, rfl⟩ := mem_of_mem_askedBy mem
  have defines := trace.defines_located apart (List.mem_of_mem_take among) located
  exact ⟨r, submitted, left, d, found, Broker.toDefinition_of_definitionFor known, defines⟩

include trace in
theorem find_eq_some_iff {d : Definition}
    (fresh : ∀ e ∈ identified s.history, ¬ Digest.Collide d.bytes e.bytes) {id : Int} :
    s.store.find d = some id ↔
      ∃ q : StoredQueue α, s.store.queues[id]? = some q ∧ q.definition = d := by
  have consistent := trace.consistent Store.consistent_empty
  rw [Store.find, consistent.indexed]
  refine exists_congr fun q => and_congr_right fun found => ?_
  rw [consistent.fingerprinted id q found]
  constructor
  · intro same
    rcases Definition.fingerprint_eq_iff.1 same.symm with equal | collide
    · exact equal.symm
    · exact absurd collide (fresh _ (trace.mem_identified found))
  · exact congrArg Definition.fingerprint

include followed trace apart in
theorem exists_queuedWith {job : String} {record : Job α}
    (stored : s.store.jobs[job]? = some record) : ∃ r, QueuedWith s job r := by
  have home : s.store.home? job = some record.queue := by rw [Store.home?, stored, Option.map_some]
  rcases trace.home? home with added | ⟨-, before⟩
  · obtain ⟨first, e, rest, here, added, last⟩ := exists_last_addedTo added
    obtain ⟨r, submitted, left, -, found, -⟩ := defines_added followed trace apart here added
    exact ⟨r, first, e, rest, record.queue, submitted, left, here, added, last, found⟩
  · simp [Store.home?] at before

include followed trace apart in
theorem placed_of_queuedWith {job : String} {record : Job α} {r : Requirements}
    (stored : s.store.jobs[job]? = some record) (queued : QueuedWith s job r) :
    ∃ q : StoredQueue α, s.store.queues[record.queue]? = some q ∧ job ∈ q.jobs ∧
      r.toDefinition b.policy.segments = .ok q.definition := by
  obtain ⟨first, e, rest, id, submitted, left, here, added, last, found⟩ := queued
  obtain ⟨r', submitted', left', d, found', known, defines⟩ :=
    defines_added followed trace apart here added
  rw [found] at found'
  cases found'
  have home : s.store.home? job = some record.queue := by rw [Store.home?, stored, Option.map_some]
  have whole := trace.home? home
  rw [here, lastAddedTo?_append_cons first added last] at whole
  have own : id = record.queue := by simpa using whole
  obtain ⟨q, there, mem⟩ := (trace.consistent Store.consistent_empty).home stored
  rw [own] at defines
  exact ⟨q, there, mem, by rw [known, defines.2 q there]⟩

end Parts

end Filed

variable [Scalar α] [Random.Logarithm α]

/-- In every run on an empty store in which SHA-256 does not collide on the texts hashed, jobs are
filed by their definitions. -/
theorem filed_run (b : Broker α) (moves : List (Move α))
    (apart : Definition.Apart (identified (System.run b moves).history)) :
    Filed b (System.run b moves) := by
  have followed := Rules.followed_run (Filing.keptBy b) moves
  have trace : Trace True {} (System.run b moves).history (System.run b moves).store :=
    System.trace_run b moves fun _ _ _ => trivial
  have consistent := trace.consistent Store.consistent_empty
  constructor
  · intro id id' q q' here there same
    exact consistent.unique here there same
  · intro d fresh id
    exact Filed.find_eq_some_iff trace fresh
  · intro job record stored
    exact Filed.exists_queuedWith followed trace apart stored
  · intro job record r stored queued
    exact Filed.placed_of_queuedWith followed trace apart stored queued
  · intro job job' record record' r r' stored stored' queued queued'
    obtain ⟨q, here, -, known⟩ := Filed.placed_of_queuedWith followed trace apart stored queued
    obtain ⟨q', there, -, known'⟩ := Filed.placed_of_queuedWith followed trace apart stored' queued'
    rw [known, known', Except.ok.injEq]
    constructor
    · intro same
      rw [same, there] at here
      cases here
      rfl
    · exact consistent.unique here there
  · intro i job r submitted id found
    have kept := followed.kept i _ found
    rw [after_filingRules] at kept
    obtain ⟨x, mem, added⟩ := kept id rfl
    obtain ⟨e, among, own, rfl⟩ := mem_of_mem_askedBy mem
    obtain ⟨first, rest, here⟩ := List.append_of_mem among
    obtain ⟨r', submitted', left, d, found', known, defines⟩ :=
      Filed.defines_added followed trace apart here added
    rw [own, found] at found'
    cases found'
    exact ⟨⟨e, among, own, added⟩, d, known, defines⟩

namespace Filed

def listing (sites : List String) : Requirements :=
  ⟨some "/CN=alice", some "grid", some "prod", some 1000,
    .ofFn fun a => if a = .sites then some sites else none⟩

def listed (sites : List String) : Definition :=
  ⟨"/CN=alice", "grid", "prod", 5000,
    .ofFn fun a => if a = .sites then some (.ofList sites) else none⟩

def moves : List (Move Float) :=
  .start (.insert "j1" (listing ["a", "b"]) 1) ::
    .start (.insert "j2" (listing ["b", "a", "b"]) 1) ::
    Move.turns 0 8 ++ Move.turns 1 5 ++ .start (.insert "j3" (listing ["a"]) 1) :: Move.turns 2 1

end Filed

theorem filed_run_listing :
    Definition.Apart (identified (System.run .standard Filed.moves).history) ∧
      Filed .standard (System.run .standard Filed.moves) := by
  have known : ∀ d ∈ identified (System.run .standard Filed.moves).history,
      d.canonical = (Filed.listed ["a", "b"]).canonical ∨
        d.canonical = (Filed.listed ["a"]).canonical := by
    decide +kernel
  have differ : ¬ Digest.Collide (Filed.listed ["a", "b"]).bytes (Filed.listed ["a"]).bytes := by
    decide +kernel
  have apart : Definition.Apart (identified (System.run .standard Filed.moves).history) := by
    intro d mem e mem' collide
    rcases known d mem with here | here <;> rcases known e mem' with there | there <;>
      rw [Definition.canonical_injective here, Definition.canonical_injective there] at collide
    · exact collide.1 rfl
    · exact differ collide
    · exact differ collide.symm
    · exact collide.1 rfl
  exact ⟨apart, filed_run _ _ apart⟩

end Matchmaker
