import Matchmaker.Proofs.Broker.Repricing
import Matchmaker.Proofs.Broker.Tidiness
import Matchmaker.Proofs.Concurrency.Filing

/-!
Jobs that are submitted one after another where nothing fails. Each insertion succeeds at once: its
job is added to the queue of its definition, which is found or created, and but for priorities
nothing else changes.
-/
namespace Matchmaker

variable {α : Type}

/-! ### One insertion -/

def StoreCall.writesJobs : StoreCall α → Bool
  | addJob _ _ _ _ => true
  | removeJob _ => true
  | updateJob _ _ _ => true
  | _ => false

namespace Store

variable [Scalar α] {s t u : Store α}

theorem Effect.jobs_eq {call : StoreCall α} {answer : Except StoreError call.Answer}
    (effect : s.Effect call answer t) (h : call.writesJobs = false) : t.jobs = s.jobs := by
  cases effect with
  | added | removed | updated => cases h
  | prioritized priorities => exact s.jobs_setPriorities priorities
  | _ => rfl

/-- A job has been added to a queue with a definition, and definitions have been kept. -/
structure Added (s : Store α) (job : String) (record : Job α) (d : Definition) (t : Store α) :
    Prop where
  jobs : t.jobs = s.jobs.insert job record
  defines : t.Defines record.queue d
  kept : ∀ id d, s.Defines id d → t.Defines id d

theorem Added.effect {job : String} {record : Job α} {d : Definition}
    (h : s.Added job record d t) {call : StoreCall α} {answer : Except StoreError call.Answer}
    (effect : t.Effect call answer u) (other : call.writesJobs = false) :
    s.Added job record d u :=
  ⟨(effect.jobs_eq other).trans h.jobs, effect.defines h.defines,
    fun id d before => effect.defines (h.kept id d before)⟩

end Store

namespace Submission

open Operation

variable [Scalar α] {may : (q : Request α) → q.Answer → Prop} {s t : Store α} {b : Broker α}
  {job : String} {d : Definition}

theorem leaves_release {record : Job α} (id : Int) (h : s.Added job record d t) :
    (Broker.release (α := α) id).Leaves may
      (fun u r => s.Added job record d u ∧ r = some (.ok ())) t := by
  refine leaves_bind (leaves_store_effect (.setEnabled id false true)
    (fun changed u effect => leaves_pure ⟨h.effect effect rfl, rfl⟩) fun e u effect => ?_)
  cases effect

theorem leaves_attempt_recalculate (inOrder : b.InOrder) {record : Job α} (group : String)
    (h : s.Added job record d t) :
    (attempt (b.recalculate group)).Leaves may
      (fun u r => s.Added job record d u ∧ r = some (.ok ())) t := by
  refine (b.reprices_recalculate group).leaves_attempt (not_not_intro inOrder) h ?_
  intro u call there asked
  refine there.effect (u.effect_perform call) ?_
  cases call <;> first | rfl | cases asked

section

variable (submitted : Int) (effective : α) (absent : s.jobs[job]? = none)
include absent

theorem leaves_insertIntoExisting {id : Int} {q : StoredQueue α} (found : s.queues[id]? = some q)
    (enabled : q.enabled = true) (consistent : s.Consistent) :
    (Broker.insertIntoExisting id job submitted effective).Leaves may
      (fun t r => r = some (.ok (.done id)) ∧
        s.Added job ⟨id, submitted, effective⟩ q.definition t) s := by
  refine leaves_bind
    (leaves_store_effect (.setEnabled id true false) (fun changed t held => ?_) fun e t held => ?_)
  · have kept (id : Int) (d : Definition) (h : s.Defines id d) := held.defines h
    cases held with
    | read reads => cases reads
    | unswitched _ _ _ other => exact (other q found enabled).elim
    | switched _ _ _ p there =>
      refine leaves_bind (leaves_tryStore_effect (.addJob id job submitted effective) ?_)
      intro answer u added
      have kept (id : Int) (d : Definition) (h : s.Defines id d) := added.defines (kept id d h)
      cases added with
      | read reads => cases reads
      | duplicate _ _ _ _ stored => exact (stored absent).elim
      | homeless _ _ _ _ _ gone =>
        rw [Std.ExtTreeMap.getElem?_insert_self] at gone
        cases gone
      | added =>
        have filed : s.Added job ⟨id, submitted, effective⟩ q.definition _ :=
          ⟨rfl, kept id q.definition (consistent.defines found), kept⟩
        refine leaves_bind ((leaves_release id filed).mono ?_)
        rintro u _ ⟨there, rfl⟩
        exact leaves_pure ⟨rfl, there⟩
  · cases held

theorem leaves_insertIntoNew (inOrder : b.InOrder) (d : Definition)
    (fresh : s.byFingerprint[d.fingerprint]? = none) (consistent : s.Consistent) :
    (b.insertIntoNew d job submitted effective).Leaves may
      (fun t r => ∃ id, r = some (.ok (.done id)) ∧
        s.Added job ⟨id, submitted, effective⟩ d t) s := by
  refine leaves_bind (leaves_tryStore_effect (.create d b.policy.initialPriority false) ?_)
  intro answer t made
  have after := made.consistent consistent
  have kept (id : Int) (d : Definition) (h : s.Defines id d) := made.defines h
  cases made with
  | read reads => cases reads
  | known _ _ _ found => exact (found fresh).elim
  | created =>
    have defines := after.defines Std.ExtTreeMap.getElem?_insert_self
    refine leaves_bind (leaves_record (leaves_bind
      (leaves_tryStore_effect (.addJob (s.lastId + 1) job submitted effective) ?_)))
    intro answer u added
    have defined := added.defines defines
    have kept (id : Int) (d : Definition) (h : s.Defines id d) := added.defines (kept id d h)
    cases added with
    | read reads => cases reads
    | duplicate _ _ _ _ stored => exact (stored absent).elim
    | homeless _ _ _ _ _ gone =>
      rw [Std.ExtTreeMap.getElem?_insert_self] at gone
      cases gone
    | added =>
      have filed : s.Added job ⟨s.lastId + 1, submitted, effective⟩ d _ := ⟨rfl, defined, kept⟩
      refine leaves_bind ((leaves_attempt_recalculate inOrder d.ownerGroup filed).mono ?_)
      rintro u _ ⟨there, rfl⟩
      refine leaves_bind ((leaves_release (s.lastId + 1) there).mono ?_)
      rintro u _ ⟨there, rfl⟩
      exact leaves_pure ⟨_, rfl, there⟩

theorem leaves_insert (inOrder : b.InOrder) (attempts : b.policy.insertAttempts ≠ 0)
    {requirements : Requirements} (valid : b.definitionFor job requirements = .ok d)
    (clamped : b.policy.bounds.effective? submitted = some effective) (tidy : s.Tidy)
    (consistent : s.Consistent)
    (apart : ∀ (id : Int) (q : StoredQueue α), s.queues[id]? = some q →
      ¬ Digest.Collide q.definition.bytes d.bytes) :
    (b.insert job requirements submitted).Leaves may
      (fun t r => ∃ id, r = some (.ok id) ∧ s.Added job ⟨id, submitted, effective⟩ d t) s := by
  -- The first attempt succeeds, so that no other one is made.
  have once : (b.insertOnce d job submitted effective).Leaves may
      (fun t r => ∃ id, r = some (.ok (.done id)) ∧
        s.Added job ⟨id, submitted, effective⟩ d t) s := by
    refine leaves_bind (leaves_store (.find d) rfl ?_)
    cases located : s.find d with
    | none => exact leaves_insertIntoNew submitted effective absent inOrder d located consistent
    | some id =>
      obtain ⟨q, found, same⟩ := (consistent.indexed _ _).1 located
      rw [consistent.fingerprinted id q found] at same
      have own := (Definition.fingerprint_eq_iff.1 same).resolve_right (apart id q found)
      refine (leaves_insertIntoExisting submitted effective absent found (tidy.enabled id q found)
        consistent).mono ?_
      rintro t r ⟨ended, there⟩
      exact ⟨id, ended, own ▸ there⟩
  obtain ⟨n, positive⟩ := Nat.exists_eq_succ_of_ne_zero attempts
  unfold Broker.insert
  rw [valid]
  refine leaves_bind (leaves_orAbort ?_)
  rw [clamped, positive]
  refine leaves_bind (once.mono ?_)
  rintro t _ ⟨id, rfl, there⟩
  exact leaves_bind (leaves_record (leaves_pure ⟨id, rfl, there⟩))

end

end Submission

/-! ### Many insertions -/

structure Submission where
  job : String
  requirements : Requirements
  priority : Int

namespace Submission

def call (x : Submission) : BrokerCall := .insert x.job x.requirements x.priority

def definition? (b : Broker α) (x : Submission) : Option Definition :=
  (b.definitionFor x.job x.requirements).toOption

theorem definitionFor_eq {b : Broker α} {x : Submission} {d : Definition}
    (h : x.definition? b = some d) : b.definitionFor x.job x.requirements = .ok d := by
  unfold definition? at h
  cases made : b.definitionFor x.job x.requirements with
  | error e =>
    rw [made] at h
    cases h
  | ok d' =>
    rw [made] at h
    cases h
    rfl

end Submission

/-- The jobs have different names and valid requirements, and SHA-256 does not collide on their
definitions. -/
structure Broker.Accepts (b : Broker α) (xs : List Submission) : Prop where
  distinct : (xs.map Submission.job).Nodup
  valid : ∀ x ∈ xs, ∃ d, x.definition? b = some d
  apart : Definition.Apart (xs.filterMap (Submission.definition? b))

theorem Broker.Accepts.perm {b : Broker α} {xs ys : List Submission} (h : b.Accepts xs)
    (perm : xs.Perm ys) : b.Accepts ys where
  distinct := (perm.map Submission.job).nodup_iff.1 h.distinct
  valid x mem := h.valid x (perm.mem_iff.2 mem)
  apart d mem e mem' :=
    have same := perm.filterMap (Submission.definition? b)
    h.apart d (same.mem_iff.2 mem) e (same.mem_iff.2 mem')

section

variable [Scalar α]

/-- What is stored are the jobs that were submitted, each with its priorities in the queue with its
definition; every queue is enabled and has a job. -/
structure Store.Files (b : Broker α) (xs : List Submission) (s : Store α) : Prop where
  consistent : s.Consistent
  tidy : s.Tidy
  filed : ∀ x ∈ xs, ∃ (record : Job α) (q : StoredQueue α), s.jobs[x.job]? = some record ∧
    record.submitted = x.priority ∧
    b.policy.bounds.effective? x.priority = some record.effective ∧
    s.queues[record.queue]? = some q ∧ x.definition? b = some q.definition
  others : ∀ (job : String) (record : Job α), s.jobs[job]? = some record → ∃ x ∈ xs, x.job = job

namespace Store.Files

variable {b : Broker α} {xs : List Submission} {s t : Store α}

theorem empty : Files b [] ({} : Store α) where
  consistent := consistent_empty
  tidy := Midway.empty.tidy
  filed := by simp
  others := by simp

theorem midway (h : s.Files b xs) : s.Midway [] [] where
  consistent := h.consistent
  enabled id q found := .inl (h.tidy.enabled id q found)
  filled id q found := .inl (h.tidy.filled id q found)

theorem origin (h : s.Files b xs) {id : Int} {q : StoredQueue α} (found : s.queues[id]? = some q)
    {job : String} (mem : job ∈ q.jobs) :
    ∃ x ∈ xs, x.job = job ∧ x.definition? b = some q.definition := by
  obtain ⟨record, stored, rfl⟩ := (h.consistent.member id job).1 ⟨q, found, mem⟩
  obtain ⟨x, submitted, rfl⟩ := h.others job record stored
  obtain ⟨record', q', stored', -, -, found', valid⟩ := h.filed x submitted
  cases stored.symm.trans stored'
  cases found.symm.trans found'
  exact ⟨x, submitted, rfl, valid⟩

theorem definition_mem (h : s.Files b xs) {id : Int} {q : StoredQueue α}
    (found : s.queues[id]? = some q) : ∃ x ∈ xs, x.definition? b = some q.definition := by
  obtain ⟨job, mem⟩ := TextSet.exists_mem (h.tidy.filled id q found)
  obtain ⟨x, submitted, -, valid⟩ := h.origin found mem
  exact ⟨x, submitted, valid⟩

theorem add (h : s.Files b xs) {x : Submission} (absent : s.jobs[x.job]? = none)
    {record : Job α} {d : Definition} (added : s.Added x.job record d t)
    (submitted : record.submitted = x.priority)
    (clamped : b.policy.bounds.effective? x.priority = some record.effective)
    (valid : x.definition? b = some d) (consistent : t.Consistent) (tidy : t.Tidy) :
    t.Files b (xs ++ [x]) where
  consistent := consistent
  tidy := tidy
  filed y mem := by
    rcases List.mem_append.1 mem with old | new
    · obtain ⟨before, q, stored, submitted, clamped, found, valid⟩ := h.filed y old
      have other : x.job ≠ y.job := by
        rintro same
        rw [same, stored] at absent
        cases absent
      have there : t.jobs[y.job]? = some before := by
        rw [added.jobs, Std.ExtTreeMap.getElem?_insert, if_neg (by simpa using other), stored]
      obtain ⟨q', found', -⟩ := consistent.home there
      have same := (added.kept _ _ (h.consistent.defines found)).2 q' found'
      exact ⟨before, q', there, submitted, clamped, found', same ▸ valid⟩
    · cases List.mem_singleton.1 new
      have there : t.jobs[x.job]? = some record := by
        rw [added.jobs, Std.ExtTreeMap.getElem?_insert_self]
      obtain ⟨q, found, -⟩ := consistent.home there
      exact ⟨record, q, there, submitted, clamped, found, added.defines.2 q found ▸ valid⟩
  others job record stored := by
    rw [added.jobs, Std.ExtTreeMap.getElem?_insert] at stored
    split at stored
    · rename_i same
      exact ⟨x, by simp, by simpa using same⟩
    · obtain ⟨y, mem, own⟩ := h.others job record stored
      exact ⟨y, List.mem_append_left [x] mem, own⟩

theorem setPriorities (h : s.Files b xs) (priorities : List (Int × α)) :
    (s.setPriorities priorities).Files b xs where
  consistent := (s.effect_perform (.setPriorities priorities)).consistent h.consistent
  tidy := by
    constructor
    all_goals
      intro id q found
      rw [getElem?_queues_setPriorities] at found
      obtain ⟨before, there, rfl⟩ := Option.map_eq_some_iff.1 found
    · exact h.tidy.enabled id before there
    · exact h.tidy.filled id before there
  filed x mem := by
    obtain ⟨record, q, stored, submitted, clamped, found, valid⟩ := h.filed x mem
    refine ⟨record, { q with priority := lastPriority record.queue priorities q.priority }, ?_,
      submitted, clamped, ?_, valid⟩
    · rw [s.jobs_setPriorities, stored]
    · rw [getElem?_queues_setPriorities, found, Option.map_some]
  others job record stored := by
    rw [s.jobs_setPriorities] at stored
    exact h.others job record stored

end Store.Files

/-! ### Worlds -/

namespace World

structure SameSources (w w' : World α (Store α)) : Prop where
  settings : ∀ group, w'.settings group = w.settings group
  held : ∀ grouping, (w'.ledger.record grouping).held = (w.ledger.record grouping).held

omit [Scalar α] in
theorem SameSources.refl (w : World α (Store α)) : w.SameSources w := ⟨fun _ => rfl, fun _ => rfl⟩

omit [Scalar α] in
theorem SameSources.symm {w w' : World α (Store α)} (h : w.SameSources w') : w'.SameSources w :=
  ⟨fun group => (h.settings group).symm, fun grouping => (h.held grouping).symm⟩

omit [Scalar α] in
theorem SameSources.trans {w w' w'' : World α (Store α)} (h : w.SameSources w')
    (h' : w'.SameSources w'') : w.SameSources w'' where
  settings group := (h'.settings group).trans (h.settings group)
  held grouping := (h'.held grouping).trans (h.held grouping)

theorem sameSources_reply (w : World α (Store α)) {q : Request α} (h : q.keepsSources = true) :
    w.SameSources (w.reply q).2 := by
  cases q with
  | reloadShares | book | hold => cases h
  | held grouping => exact ⟨fun _ => rfl, fun other => by simp [reply, answer]⟩
  | _ => exact ⟨fun _ => rfl, fun _ => rfl⟩

theorem sameSources_play {β : Type} {breaks : Prop} {x : Operation α β}
    (h : x.Within (fun q => q.keepsSources = true) breaks) (w : World α (Store α)) :
    w.SameSources (w.play x).2 := by
  have stays : (⟨w, []⟩ : Trial α).Ends x fun t _ => w.SameSources t.world := by
    refine Trial.ends_of_within h (.refl w) fun t q answer t' there asked met => ?_
    cases met with
    | refused => exact there
    | answered => exact there.trans (t.world.sameSources_reply asked)
  rwa [Trial.Ends, Trial.run_calm] at stays

variable [Random.Logarithm α]

def Answers (b : Broker α) : World α (Store α) → List BrokerCall → Prop
  | _, [] => True
  | w, call :: rest => (∃ result, (w.play (b.course call)).1 = some (.ok result)) ∧
      Answers b (w.play (b.course call)).2 rest

theorem answers_append {b : Broker α} {w : World α (Store α)} {calls calls' : List BrokerCall}
    (h : w.Answers b calls) (later : (w.serve b calls).Answers b calls') :
    w.Answers b (calls ++ calls') := by
  induction calls generalizing w with
  | nil => exact later
  | cons call rest ih => exact ⟨h.1, ih h.2 later⟩

theorem serve_cons (b : Broker α) (w : World α (Store α)) (call : BrokerCall)
    (rest : List BrokerCall) :
    w.serve b (call :: rest) = (w.play (b.course call)).2.serve b rest := rfl

theorem serve_append (b : Broker α) (w : World α (Store α)) (calls calls' : List BrokerCall) :
    w.serve b (calls ++ calls') = (w.serve b calls).serve b calls' := List.foldl_append

end World

namespace Submission

variable [Random.Logarithm α] {b : Broker α} (inOrder : b.InOrder)
  (attempts : b.policy.insertAttempts ≠ 0)
  (effective : ∀ submitted, ∃ x, b.policy.bounds.effective? submitted = some x)

attribute [local irreducible] Broker.definitionFor

include inOrder attempts effective

theorem files_play {w : World α (Store α)} {xs ys : List Submission} {x : Submission}
    (accepted : b.Accepts (xs ++ x :: ys)) (files : w.store.Files b xs) :
    (∃ id, (w.play (b.course x.call)).1 = some (.ok id)) ∧
      (w.play (b.course x.call)).2.store.Files b (xs ++ [x]) ∧
        w.SameSources (w.play (b.course x.call)).2 := by
  obtain ⟨d, valid⟩ := accepted.valid x (by simp)
  obtain ⟨weight, clamped⟩ := effective x.priority
  have absent : w.store.jobs[x.job]? = none := by
    cases stored : w.store.jobs[x.job]? with
    | none => rfl
    | some record =>
      obtain ⟨y, mem, same⟩ := files.others x.job record stored
      have distinct := accepted.distinct
      rw [List.map_append, List.nodup_append] at distinct
      exact (distinct.2.2 y.job (List.mem_map_of_mem mem) x.job (by simp) same).elim
  have apart (id : Int) (q : StoredQueue α) (found : w.store.queues[id]? = some q) :
      ¬ Digest.Collide q.definition.bytes d.bytes := by
    obtain ⟨y, mem, same⟩ := files.definition_mem found
    exact accepted.apart _ (List.mem_filterMap.2 ⟨y, by simp [mem], same⟩) _
      (List.mem_filterMap.2 ⟨x, by simp, valid⟩)
  have plays := w.plays_any (b.course x.call)
  have made := definitionFor_eq valid
  obtain ⟨id, ended, added⟩ := leaves_insert x.priority weight absent inOrder attempts made clamped
    files.tidy files.consistent apart _ _ plays
  have midway := Tidiness.leaves_insert inOrder x.job x.requirements x.priority files.midway _ _ plays
  have asked : (b.course x.call).Within (fun q => q.keepsSources = true) True :=
    Asking.within_insert x.job x.priority (fun _ => trivial) x.requirements (fun _ => trivial)
      (fun _ _ _ => Request.keepsSources_of_inserts) rfl
  exact ⟨⟨id, ended⟩, files.add absent added rfl clamped valid midway.consistent midway.tidy,
    World.sameSources_play asked w⟩

theorem files_serve {w : World α (Store α)} {xs ys : List Submission}
    (accepted : b.Accepts (xs ++ ys)) (files : w.store.Files b xs) :
    w.Answers b (ys.map call) ∧ (w.serve b (ys.map call)).store.Files b (xs ++ ys) ∧
      w.SameSources (w.serve b (ys.map call)) := by
  induction ys generalizing w xs with
  | nil =>
    rw [List.append_nil]
    exact ⟨trivial, files, .refl w⟩
  | cons x rest ih =>
    obtain ⟨answered, filed, same⟩ := files_play inOrder attempts effective accepted files
    rw [List.append_cons] at accepted ⊢
    obtain ⟨answers, all, same'⟩ := ih accepted filed
    rw [List.map_cons, World.serve_cons]
    exact ⟨⟨answered, answers⟩, all, same.trans same'⟩

theorem files_serve_empty {w : World α (Store α)} (empty : w.store = {}) {xs : List Submission}
    (accepted : b.Accepts xs) :
    w.Answers b (xs.map call) ∧ (w.serve b (xs.map call)).store.Files b xs ∧
      w.SameSources (w.serve b (xs.map call)) := by
  have files : w.store.Files b [] := empty ▸ .empty
  rw [← List.nil_append xs] at accepted
  exact files_serve inOrder attempts effective accepted files

end Submission

end

end Matchmaker
