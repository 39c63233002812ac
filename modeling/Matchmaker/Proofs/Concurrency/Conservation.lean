import Matchmaker.Proofs.Concurrency.Removal

/-!
Jobs are conserved: each job that was queued is stored or was removed once, in every run, whatever
the order of turns and whichever calls fail.
-/
namespace Matchmaker

variable {α : Type}

namespace Entry

def added? (e : Entry α) : Option String := e.question.added? e.answer

def removed? (e : Entry α) : Option String := e.question.removed? e.answer

end Entry

def added (history : List (Entry α)) : List String := history.filterMap Entry.added?

def removed (history : List (Entry α)) : List String := history.filterMap Entry.removed?

def removedBy (i : Nat) (history : List (Entry α)) : List String :=
  removed (history.filter (·.task = i))

def Store.stock (s : Store α) (job : String) : Nat := if s.jobs.contains job then 1 else 0

theorem Store.stock_of_none {s : Store α} {job : String} (h : s.jobs[job]? = none) :
    s.stock job = 0 := by
  rw [stock, Std.ExtTreeMap.contains_eq_isSome_getElem?, h]
  rfl

theorem Store.stock_of_some {s : Store α} {job : String} {record : Job α}
    (h : s.jobs[job]? = some record) : s.stock job = 1 := by
  rw [stock, Std.ExtTreeMap.contains_eq_isSome_getElem?, h]
  rfl

/-! ### One exchange -/

theorem Request.moved?_of_reads {call : StoreCall α} (h : call.reads = true)
    (answer : Except StoreError call.Answer) :
    (Request.store call).added? answer = none ∧ (Request.store call).removed? answer = none := by
  cases call <;> first | exact ⟨rfl, rfl⟩ | cases h

theorem Request.moved?_of_call?_eq_none {q : Request α} (h : q.call? = none) (answer : q.Answer) :
    q.added? answer = none ∧ q.removed? answer = none := by
  cases q with
  | store => cases h
  | _ => exact ⟨rfl, rfl⟩

theorem Request.moved?_of_error (call : StoreCall α) (e : StoreError) :
    (Request.store call).added? (Except.error e) = none ∧
      (Request.store call).removed? (Except.error e) = none := by
  cases call <;> exact ⟨rfl, rfl⟩

variable [Scalar α]

namespace Store.Effect

variable {s t : Store α} {call : StoreCall α} {answer : Except StoreError call.Answer}

theorem stock (e : s.Effect call answer t) (job : String) :
    ((Request.store call).added? answer).toList.count job + s.stock job =
      ((Request.store call).removed? answer).toList.count job + t.stock job := by
  cases e with
  | read reads =>
    obtain ⟨noneAdded, noneRemoved⟩ := Request.moved?_of_reads reads (s.perform call).1
    rw [noneAdded, noneRemoved]
  | added id name submitted effective q absent found =>
    change [name].count job + s.stock job = 0 + _
    by_cases same : name = job
    · subst same
      rw [stock_of_none absent, stock_of_some Std.ExtTreeMap.getElem?_insert_self,
        List.count_singleton_self]
    · simp [Store.stock, same]
  | removed name record stored =>
    change 0 + s.stock job = [name].count job + _
    by_cases same : name = job
    · subst same
      rw [stock_of_some stored, stock_of_none Std.ExtTreeMap.getElem?_erase_self,
        List.count_singleton_self]
    · simp [Store.stock, same]
  | updated name submitted effective record stored =>
    change 0 + s.stock job = 0 + _
    by_cases same : name = job
    · subst same
      rw [stock_of_some stored, stock_of_some Std.ExtTreeMap.getElem?_insert_self]
    · simp [Store.stock, same]
  | prioritized priorities =>
    change 0 + s.stock job = 0 + _
    rw [Store.stock, Store.stock, jobs_setPriorities]
  | _ => rfl

theorem size (e : s.Effect call answer t) :
    ((Request.store call).added? answer).toList.length + s.jobs.size =
      ((Request.store call).removed? answer).toList.length + t.jobs.size := by
  cases e with
  | read reads =>
    obtain ⟨noneAdded, noneRemoved⟩ := Request.moved?_of_reads reads (s.perform call).1
    rw [noneAdded, noneRemoved]
  | added id name submitted effective q absent found =>
    have unstored : ¬ s.jobs.contains name := by
      rw [Std.ExtTreeMap.contains_eq_isSome_getElem?, absent]
      exact Bool.false_ne_true
    change 1 + s.jobs.size = 0 + (s.jobs.insert name _).size
    rw [Std.ExtTreeMap.size_insert, if_neg unstored]
    omega
  | removed name record stored =>
    have present : s.jobs.contains name := by
      rw [Std.ExtTreeMap.contains_eq_isSome_getElem?, stored]
      rfl
    have positive : s.jobs.size ≠ 0 := by
      intro none
      rw [Std.ExtTreeMap.eq_empty_iff_size_eq_zero.2 none] at present
      simp at present
    change 0 + s.jobs.size = 1 + (s.jobs.erase name).size
    rw [Std.ExtTreeMap.size_erase, if_pos present]
    omega
  | updated name submitted effective record stored =>
    have present : s.jobs.contains name := by
      rw [Std.ExtTreeMap.contains_eq_isSome_getElem?, stored]
      rfl
    change 0 + s.jobs.size = 0 + (s.jobs.insert name _).size
    rw [Std.ExtTreeMap.size_insert, if_pos present]
  | prioritized priorities =>
    change 0 + s.jobs.size = 0 + _
    rw [jobs_setPriorities]
  | _ => rfl

end Store.Effect

namespace Answered

variable {faulty : Prop} {s t : Store α} {q : Request α} {answer : q.Answer}

theorem stock (h : Answered faulty s q answer t) (job : String) :
    (q.added? answer).toList.count job + s.stock job =
      (q.removed? answer).toList.count job + t.stock job := by
  cases h with
  | performed effect => exact effect.stock job
  | failed call e => rw [(Request.moved?_of_error call e).1, (Request.moved?_of_error call e).2]
  | elsewhere other =>
    rw [(Request.moved?_of_call?_eq_none other answer).1,
      (Request.moved?_of_call?_eq_none other answer).2]

theorem size (h : Answered faulty s q answer t) :
    (q.added? answer).toList.length + s.jobs.size =
      (q.removed? answer).toList.length + t.jobs.size := by
  cases h with
  | performed effect => exact effect.size
  | failed call e => rw [(Request.moved?_of_error call e).1, (Request.moved?_of_error call e).2]
  | elsewhere other =>
    rw [(Request.moved?_of_call?_eq_none other answer).1,
      (Request.moved?_of_call?_eq_none other answer).2]

end Answered

/-! ### Histories -/

omit [Scalar α] in
theorem added_cons (e : Entry α) (rest : List (Entry α)) :
    added (e :: rest) = e.added?.toList ++ added rest := by
  rw [added, List.filterMap_cons]
  cases e.added? <;> rfl

omit [Scalar α] in
theorem removed_cons (e : Entry α) (rest : List (Entry α)) :
    removed (e :: rest) = e.removed?.toList ++ removed rest := by
  rw [removed, List.filterMap_cons]
  cases e.removed? <;> rfl

namespace Trace

variable {faulty : Prop} {s t : Store α} {h : List (Entry α)}

theorem stock (trace : Trace faulty s h t) (job : String) :
    (added h).count job + s.stock job = (removed h).count job + t.stock job := by
  induction trace with
  | nil => rfl
  | @cons e rest t answered _ ih =>
    have here := answered.stock job
    rw [added_cons, removed_cons, List.count_append, List.count_append]
    change e.added?.toList.count job + _ = e.removed?.toList.count job + _ at here
    omega

theorem size (trace : Trace faulty s h t) :
    (added h).length + s.jobs.size = (removed h).length + t.jobs.size := by
  induction trace with
  | nil => rfl
  | @cons e rest t answered _ ih =>
    have here := answered.size
    rw [added_cons, removed_cons, List.length_append, List.length_append]
    change e.added?.toList.length + _ = e.removed?.toList.length + _ at here
    omega

end Trace

/-! ### Which removal takes which job -/

/-- The removal at one place takes the job queued at another: it was queued before, and not again in
between. -/
structure Consumes (h : List (Entry α)) (job : String) (k l : Nat) : Prop where
  queued : ∃ e, h[k]? = some e ∧ e.added? = some job
  taken : ∃ e, h[l]? = some e ∧ e.removed? = some job
  order : k < l
  last : ∀ (j : Nat) (e : Entry α), k < j → j < l → h[j]? = some e → e.added? ≠ some job

omit [Scalar α] in
theorem Consumes.queued_unique {h : List (Entry α)} {job : String} {k k' l : Nat}
    (first : Consumes h job k l) (second : Consumes h job k' l) : k = k' := by
  obtain ⟨e, here, queued⟩ := first.queued
  obtain ⟨e', here', queued'⟩ := second.queued
  rcases Nat.lt_trichotomy k k' with before | same | after
  · exact absurd queued' (first.last k' e' before second.order here')
  · exact same
  · exact absurd queued (second.last k e after first.order here)

omit [Scalar α] in
theorem exists_last_added {h : List (Entry α)} {job : String} (mem : job ∈ added h) :
    ∃ k e, h[k]? = some e ∧ e.added? = some job ∧
      ∀ (j : Nat) (f : Entry α), k < j → h[j]? = some f → f.added? ≠ some job := by
  induction h with
  | nil => cases mem
  | cons first rest ih =>
    by_cases later : job ∈ added rest
    · obtain ⟨k, e, here, queued, last⟩ := ih later
      refine ⟨k + 1, e, here, queued, fun j f order found => ?_⟩
      cases j with
      | zero => omega
      | succ j => exact last j f (by omega) found
    · rw [added_cons, List.mem_append, Option.mem_toList] at mem
      refine ⟨0, first, rfl, mem.resolve_right later, fun j f order found same => later ?_⟩
      cases j with
      | zero => omega
      | succ j => exact List.mem_filterMap.2 ⟨f, List.mem_of_getElem? found, same⟩

omit [Scalar α] in
theorem Store.stock_le_one (s : Store α) (job : String) : s.stock job ≤ 1 := by
  rw [stock]
  split <;> omega

omit [Scalar α] in
theorem Request.added?_of_removed? {q : Request α} {answer : q.Answer} {job : String}
    (h : q.removed? answer = some job) : q.added? answer = none := by
  unfold removed? at h
  split at h
  · rfl
  · cases h

theorem Answered.stock_of_removed? {faulty : Prop} {s t : Store α} {q : Request α}
    {answer : q.Answer} {job : String} (h : Answered faulty s q answer t)
    (taken : q.removed? answer = some job) : s.stock job = 1 ∧ t.stock job = 0 := by
  have balance := h.stock job
  have bound := s.stock_le_one job
  rw [Request.added?_of_removed? taken, taken, Option.toList_some,
    List.count_singleton_self] at balance
  change 0 + s.stock job = _ at balance
  omega

namespace Trace

variable {faulty : Prop} {t : Store α} {h : List (Entry α)} {job : String}

theorem exists_consumes (trace : Trace faulty {} h t) {l : Nat} {e : Entry α}
    (here : h[l]? = some e) (taken : e.removed? = some job) : ∃ k, Consumes h job k l := by
  obtain ⟨earlier, answered, -⟩ := trace.through here
  have there := (answered.stock_of_removed? taken).1
  have balance := earlier.stock job
  rw [there] at balance
  have mem : job ∈ added (h.take l) := by
    refine List.count_pos_iff.1 ?_
    change _ + 0 = _ at balance
    omega
  obtain ⟨k, f, found, queued, last⟩ := exists_last_added mem
  rw [List.getElem?_take] at found
  split at found
  · rename_i order
    refine ⟨k, ⟨f, found, queued⟩, ⟨e, here, taken⟩, order, fun j g after before there => ?_⟩
    exact last j g after ((List.getElem?_take_of_lt before).trans there)
  · cases found

theorem consumes_unique (trace : Trace faulty {} h t) {k l l' : Nat}
    (first : Consumes h job k l) (second : Consumes h job k l') : l = l' := by
  have later {l l' : Nat} (first : Consumes h job k l) (second : Consumes h job k l') :
      ¬ l < l' := by
    intro order
    obtain ⟨e, here, taken⟩ := first.taken
    obtain ⟨f, there, taken'⟩ := second.taken
    have gone := ((trace.through here).2.1.stock_of_removed? taken).2
    have back := ((trace.through there).2.1.stock_of_removed? taken').1
    -- From none to one: the job was queued again, against the choice of its queueing as the last.
    have balance := (trace.between here there order).stock job
    rw [gone, back] at balance
    have mem : job ∈ added ((h.drop (l + 1)).take (l' - (l + 1))) := by
      refine List.count_pos_iff.1 ?_
      omega
    obtain ⟨g, among, queued⟩ := List.mem_filterMap.1 mem
    obtain ⟨j, after, before, found⟩ := mem_between among
    exact second.last j g (Nat.lt_trans first.order after) before found queued
  have notBefore := later first second
  have notAfter := later second first
  omega

end Trace

/-! ### Runs -/

omit [Scalar α] in
theorem after_removalRules (i : Nat) (history : List (Entry α)) :
    (removalRules α).after i history = removedBy i history := by
  rw [Rules.after_eq, removedBy]
  generalize history.filter (·.task = i) = asked
  have moved (before : List String) : asked.foldl (fun g e =>
      (removalRules α).next g e.question e.answer) before = before ++ removed asked := by
    induction asked generalizing before with
    | nil => exact (List.append_nil before).symm
    | cons e rest ih =>
      rw [List.foldl_cons, ih, removed_cons]
      exact List.append_assoc before _ _
  exact moved []

/-- What is conserved in a system: every removal takes a job that was queued, no two take the same
one, and what was not taken is stored. Matches hand out what they remove, deletions count it, and
other calls remove nothing. -/
structure Conserved (s : System α) : Prop where
  consumed : ∀ (l : Nat) (e : Entry α) (job : String), s.history[l]? = some e →
    e.removed? = some job →
      ∃ k, Consumes s.history job k l ∧ ∀ k', Consumes s.history job k' l → k' = k
  once : ∀ (job : String) (k l l' : Nat), Consumes s.history job k l →
    Consumes s.history job k l' → l = l'
  stocked : ∀ job : String,
    (added s.history).count job = s.store.stock job + (removed s.history).count job
  balanced : (added s.history).length = s.store.jobs.size + (removed s.history).length
  /-- Once a match has removed a job, every course of what is left of it hands out that job. -/
  matched : ∀ (i : Nat) (c : Capabilities) (rest : Course α (Except BrokerError (Option MatchedJob))),
    s.tasks[i]? = some ⟨.takeJob c, rest⟩ →
      removedBy i s.history = [] ∧ (∀ m, rest ≠ .done (.ok (some m))) ∨
        ∃ job, removedBy i s.history = [job] ∧
          rest.Returns fun result => ∃ m, result = .ok (some m) ∧ m.job = job
  deleted : ∀ (i : Nat) (jobs : List String) (report : DeleteReport),
    s.tasks[i]? = some ⟨.delete jobs, .done (.ok report)⟩ →
      report.removed = (removedBy i s.history).length
  untouched : ∀ (i : Nat) (task : Task α), s.tasks[i]? = some task →
    (∀ c, task.call ≠ .takeJob c) → (∀ jobs, task.call ≠ .delete jobs) →
      removedBy i s.history = []

namespace Conserved

variable [Random.Logarithm α] {b : Broker α} (inOrder : b.InOrder) (moves : List (Move α))

include inOrder in
theorem removedBy_length_le {i : Nat} {c : Capabilities}
    {rest : Course α (Except BrokerError (Option MatchedJob))}
    (found : (System.run b moves).tasks[i]? = some ⟨.takeJob c, rest⟩) :
    (removedBy i (System.run b moves).history).length ≤ 1 := by
  have followed := Rules.followed_run (Removal.keptBy inOrder) moves
  rw [← after_removalRules]
  refine followed.after_induct found (motive := fun g => g.length ≤ 1) (Nat.zero_le 1) ?_
  intro g q a short allowed
  change (g ++ (q.removed? a).toList).length ≤ 1
  by_cases removal : q.isRemoval = true
  · have none : g = [] := allowed removal
    rw [none]
    cases q.removed? a with
    | none => exact Nat.zero_le 1
    | some job => exact Nat.le_refl 1
  · rw [Request.removed?_of_not_isRemoval (by simpa using removal)]
    simpa using short

include inOrder in
theorem matched_run {i : Nat} {c : Capabilities}
    {rest : Course α (Except BrokerError (Option MatchedJob))}
    (found : (System.run b moves).tasks[i]? = some ⟨.takeJob c, rest⟩) :
    removedBy i (System.run b moves).history = [] ∧ (∀ m, rest ≠ .done (.ok (some m))) ∨
      ∃ job, removedBy i (System.run b moves).history = [job] ∧
        rest.Returns fun result => ∃ m, result = .ok (some m) ∧ m.job = job := by
  have short := removedBy_length_le inOrder moves found
  have kept := (Rules.followed_run (Removal.keptBy inOrder) moves).kept i _ found
  rw [after_removalRules] at kept
  generalize removedBy i (System.run b moves).history = taken at short kept
  match taken with
  | [] =>
    refine .inl ⟨rfl, ?_⟩
    rintro m rfl
    cases (kept : [] = [m.job])
  | [job] =>
    refine .inr ⟨job, rfl, ?_⟩
    refine kept.returns (· = [job]) rfl ?_ ?_
    · rintro g q a rfl allowed
      change [job] ++ (q.removed? a).toList = [job]
      by_cases removal : q.isRemoval = true
      · cases (allowed removal : [job] = [])
      · rw [Request.removed?_of_not_isRemoval (by simpa using removal)]
        rfl
    · rintro g r rfl ends
      rcases r with _ | e | _ | m
      · cases (ends : [job] = [])
      · cases (ends : [job] = [])
      · cases (ends : [job] = [])
      · cases (ends : [job] = [m.job])
        exact ⟨_, rfl, m, rfl, rfl⟩
  | _ :: _ :: _ => simp at short

include inOrder in
theorem untouched_run {i : Nat} {task : Task α}
    (found : (System.run b moves).tasks[i]? = some task) (noMatch : ∀ c, task.call ≠ .takeJob c)
    (noDeletion : ∀ jobs, task.call ≠ .delete jobs) :
    removedBy i (System.run b moves).history = [] := by
  have followed := Rules.followed_run (Removal.keptBy inOrder) moves
  rw [← after_removalRules]
  refine followed.after_induct found (motive := fun g => g = []) rfl ?_
  rintro g q a rfl allowed
  change [] ++ (q.removed? a).toList = []
  by_cases removal : q.isRemoval = true
  · have may : task.call.mayRemove [] := allowed removal
    cases call : task.call with
    | takeJob c => exact absurd call (noMatch c)
    | delete jobs => exact absurd call (noDeletion jobs)
    | _ => rw [call] at may; exact may.elim
  · rw [Request.removed?_of_not_isRemoval (by simpa using removal)]
    rfl

end Conserved

variable [Random.Logarithm α]

theorem conserved_of_inOrder {b : Broker α} (inOrder : b.InOrder) (moves : List (Move α)) :
    Conserved (System.run b moves) := by
  have trace : Trace True {} (System.run b moves).history (System.run b moves).store :=
    System.trace_run b moves fun _ _ _ => trivial
  constructor
  · intro l e job here taken
    obtain ⟨k, consumes⟩ := trace.exists_consumes here taken
    exact ⟨k, consumes, fun k' other => other.queued_unique consumes⟩
  · intro job k l l' first second
    exact trace.consumes_unique first second
  · intro job
    have balance := trace.stock job
    change _ + 0 = _ at balance
    omega
  · have balance := trace.size
    change _ + 0 = _ at balance
    omega
  · intro i c rest found
    exact Conserved.matched_run inOrder moves found
  · intro i jobs report found
    have kept := (Rules.followed_run (Removal.keptBy inOrder) moves).kept i _ found
    rw [after_removalRules] at kept
    exact kept
  · intro i task found noMatch noDeletion
    exact Conserved.untouched_run inOrder moves found noMatch noDeletion

/-- Jobs are conserved in every run of a broker whose settings are not at fault: whatever calls are
made, whatever the order of their turns, and whatever fails. -/
theorem conserved_run {b : Broker Float} (checked : ∀ settings ∈ b.history, settings.fault? = none)
    (moves : List (Move Float)) : Conserved (System.run b moves) :=
  conserved_of_inOrder (Broker.inOrder_of_checked checked) moves

/-- A match and a deletion are after the job that was inserted; the match has it, and the store fails
right after. -/
def Conserved.moves : List (Move Float) :=
  .start (.insert "j1" ⟨some "alice", some "users", some "prod", some 700, .ofFn fun _ => none⟩ 3) ::
    Move.turns 0 8 ++ .start (.takeJob { site := some "here" }) :: .start (.delete ["j1"]) ::
    Move.turns 1 7 ++ Move.turns 2 1 ++ .proceed 1 (some (.queryFailed "gone")) Request.unanswered ::
    Move.turns 1 1 ++ Move.turns 2 2

theorem conserved_run_standard :
    (∀ settings ∈ Broker.standard.history, settings.fault? = none) ∧
      (added (System.run .standard Conserved.moves).history = ["j1"] ∧
        removedBy 1 (System.run .standard Conserved.moves).history = ["j1"] ∧
        removedBy 2 (System.run .standard Conserved.moves).history = []) ∧
      Conserved (System.run .standard Conserved.moves) := by
  refine ⟨Broker.checked_standard, ?_, conserved_run Broker.checked_standard _⟩
  decide +kernel

end Matchmaker
