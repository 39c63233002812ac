import Matchmaker.Proofs.Broker.Submission
import Matchmaker.Proofs.Broker.Sharing

/-!
Jobs that are submitted in different orders. What is stored afterwards differs in the numbers of
queues; after a recalculation of all groups the priorities of queues are the same too, where sums do
not depend on the order of their terms.
-/
namespace Matchmaker

variable {α : Type}

namespace Store

/-- The second store is the first one with other numbers for its queues, and priorities that are the
same in a given sense. -/
structure Renamed (same : α → α → Prop) (f : Int → Int) (s t : Store α) : Prop where
  queue : ∀ (id : Int) (q : StoredQueue α), s.queues[id]? = some q →
    ∃ q' : StoredQueue α, t.queues[f id]? = some q' ∧ q'.definition = q.definition ∧
      q'.jobs = q.jobs ∧ q'.enabled = q.enabled ∧ same q.priority q'.priority
  injective : ∀ id id' : Int, id ∈ s.queues → id' ∈ s.queues → f id = f id' → id = id'
  onto : ∀ id : Int, id ∈ t.queues → ∃ id', id' ∈ s.queues ∧ f id' = id
  jobs : ∀ job : String, t.jobs[job]? = s.jobs[job]?.map fun record =>
    { record with queue := f record.queue }

/-! ### The same jobs -/

section

variable [Scalar α] {b : Broker α} {xs ys : List Submission} {s t : Store α}

def counterpart (s t : Store α) (id : Int) : Int :=
  (s.queues[id]?.bind fun q => t.find q.definition).getD 0

theorem Files.counterpart (h : s.Files b xs) (h' : t.Files b ys) (same : ∀ x ∈ xs, x ∈ ys)
    {id : Int} {q : StoredQueue α} (found : s.queues[id]? = some q) :
    ∃ q' : StoredQueue α, t.queues[s.counterpart t id]? = some q' ∧ q'.definition = q.definition := by
  obtain ⟨x, submitted, valid⟩ := h.definition_mem found
  obtain ⟨record, q', -, -, -, found', valid'⟩ := h'.filed x (same x submitted)
  have own : q'.definition = q.definition := Option.some.inj (valid'.symm.trans valid)
  have located : t.find q.definition = some record.queue := by
    rw [find, ← own, ← h'.consistent.fingerprinted _ q' found']
    exact h'.consistent.indexed_own found'
  have number : s.counterpart t id = record.queue := by
    rw [Store.counterpart, found, Option.bind_some, located, Option.getD_some]
  exact ⟨q', number ▸ found', own⟩

theorem Files.jobs_subset (h : s.Files b xs) (h' : t.Files b ys) (same : ∀ x ∈ xs, x ∈ ys)
    {id id' : Int} {q q' : StoredQueue α} (found : s.queues[id]? = some q)
    (found' : t.queues[id']? = some q') (own : q'.definition = q.definition) {job : String}
    (mem : job ∈ q.jobs) : job ∈ q'.jobs := by
  obtain ⟨x, submitted, rfl, valid⟩ := h.origin found mem
  obtain ⟨record, p, stored, -, -, there, valid'⟩ := h'.filed x (same x submitted)
  have equal : p.definition = q'.definition :=
    (Option.some.inj (valid'.symm.trans valid)).trans own.symm
  have home := h'.consistent.unique there found' equal
  obtain ⟨q'', found'', mem'⟩ := (h'.consistent.member id' x.job).2 ⟨record, stored, home⟩
  cases found'.symm.trans found''
  exact mem'

theorem Files.getElem?_jobs (h : s.Files b xs) (h' : t.Files b ys) (same : ∀ x, x ∈ xs ↔ x ∈ ys)
    (job : String) :
    t.jobs[job]? = s.jobs[job]?.map fun record =>
      { record with queue := s.counterpart t record.queue } := by
  cases stored : s.jobs[job]? with
  | none =>
    cases stored' : t.jobs[job]? with
    | none => rfl
    | some record =>
      obtain ⟨x, submitted, rfl⟩ := h'.others job record stored'
      obtain ⟨record', q, there, -⟩ := h.filed x ((same x).2 submitted)
      cases stored.symm.trans there
  | some record =>
    obtain ⟨x, submitted, rfl⟩ := h.others job record stored
    obtain ⟨record, q, there, priority, clamped, found, valid⟩ := h.filed x submitted
    cases stored.symm.trans there
    obtain ⟨record', q', there', priority', clamped', found', valid'⟩ :=
      h'.filed x ((same x).1 submitted)
    obtain ⟨p, here, own⟩ := h.counterpart h' (fun x => (same x).1) found
    have home := h'.consistent.unique found' here
      ((Option.some.inj (valid'.symm.trans valid)).trans own.symm)
    rw [there', Option.map_some, ← home, priority.trans priority'.symm,
      Option.some.inj (clamped.symm.trans clamped')]

theorem Files.renamed (h : s.Files b xs) (h' : t.Files b ys) (same : ∀ x, x ∈ xs ↔ x ∈ ys) :
    s.Renamed (fun _ _ => True) (s.counterpart t) t where
  queue id q found := by
    obtain ⟨q', found', own⟩ := h.counterpart h' (fun x => (same x).1) found
    refine ⟨q', found', own, ?_, ?_, trivial⟩
    · exact Std.ExtTreeSet.ext_mem fun job =>
        ⟨h'.jobs_subset h (fun x => (same x).2) found' found own.symm,
          h.jobs_subset h' (fun x => (same x).1) found found' own⟩
    · rw [h.tidy.enabled id q found, h'.tidy.enabled _ q' found']
  injective id id' mem mem' equal := by
    obtain ⟨q, found⟩ := mem_queues.1 mem
    obtain ⟨q', found'⟩ := mem_queues.1 mem'
    obtain ⟨p, there, own⟩ := h.counterpart h' (fun x => (same x).1) found
    obtain ⟨p', there', own'⟩ := h.counterpart h' (fun x => (same x).1) found'
    rw [equal, there'] at there
    cases there
    exact h.consistent.unique found found' (own.symm.trans own')
  onto id mem := by
    obtain ⟨q, found⟩ := mem_queues.1 mem
    obtain ⟨p, there, own⟩ := h'.counterpart h (fun x => (same x).2) found
    obtain ⟨q', found', own'⟩ := h.counterpart h' (fun x => (same x).1) there
    exact ⟨t.counterpart s id, mem_queues.2 ⟨p, there⟩,
      h'.consistent.unique found' found (own'.trans own)⟩
  jobs := h.getElem?_jobs h' same

end

/-! ### The same loads -/

namespace Renamed

variable {same : α → α → Prop} {f : Int → Int} {s t : Store α} (h : s.Renamed same f t)

include h

theorem origin {id : Int} {q : StoredQueue α} (found : t.queues[id]? = some q) :
    ∃ (id' : Int) (q' : StoredQueue α), s.queues[id']? = some q' ∧ f id' = id ∧
      q.definition = q'.definition ∧ q.jobs = q'.jobs := by
  obtain ⟨id', mem, rfl⟩ := h.onto id (mem_queues.2 ⟨q, found⟩)
  obtain ⟨q', there⟩ := mem_queues.1 mem
  obtain ⟨p, found', definition, jobs, -⟩ := h.queue id' q' there
  cases found.symm.trans found'
  exact ⟨id', q', there, rfl, definition, jobs⟩

theorem groups : t.groups = s.groups := by
  refine Std.ExtTreeSet.ext_mem fun group => ?_
  rw [mem_groups, mem_groups]
  constructor
  · rintro ⟨id, q, found, rfl⟩
    obtain ⟨id', q', there, -, definition, -⟩ := h.origin found
    exact ⟨id', q', there, by rw [definition]⟩
  · rintro ⟨id, q, found, rfl⟩
    obtain ⟨q', there, definition, -⟩ := h.queue id q found
    exact ⟨f id, q', there, by rw [definition]⟩

theorem ownersIn (group : String) : t.ownersIn group = s.ownersIn group := by
  refine Std.ExtTreeSet.ext_mem fun owner => ?_
  rw [mem_ownersIn, mem_ownersIn]
  constructor
  · rintro ⟨id, q, found, rfl, rfl⟩
    obtain ⟨id', q', there, -, definition, -⟩ := h.origin found
    exact ⟨id', q', there, by rw [definition], by rw [definition]⟩
  · rintro ⟨id, q, found, rfl, rfl⟩
    obtain ⟨q', there, definition, -⟩ := h.queue id q found
    exact ⟨f id, q', there, by rw [definition], by rw [definition]⟩

theorem effectives (jobs : TextSet) : t.effectives jobs = s.effectives jobs := by
  simp only [Store.effectives, h.jobs, Option.map_map]
  rfl

variable [Scalar α]

theorem load (id : Int) {q q' : StoredQueue α} (jobs : q'.jobs = q.jobs) :
    t.load (f id) q' = { s.load id q with queue := f id } := by
  rw [Store.load, h.effectives, jobs]
  rfl

theorem perm_loads (group : String) (identity : Option String) :
    (t.loads group identity).Perm
      ((s.loads group identity).map fun l => { l with queue := f l.queue }) := by
  have distinct : ((s.loads group identity).map fun l : Load α =>
      ({ l with queue := f l.queue } : Load α)).Nodup := by
    refine (s.nodup_loads group identity).of_map.map_on fun l mem l' mem' equal => ?_
    obtain ⟨id, q, found, -, -, rfl⟩ := mem_loads_iff.1 mem
    obtain ⟨id', q', found', -, -, rfl⟩ := mem_loads_iff.1 mem'
    have same := h.injective id id' (mem_queues.2 ⟨q, found⟩) (mem_queues.2 ⟨q', found'⟩)
      (congrArg Load.queue equal)
    subst same
    cases found.symm.trans found'
    rfl
  refine (List.perm_ext_iff_of_nodup (t.nodup_loads group identity).of_map distinct).2 fun l => ?_
  rw [List.mem_map, mem_loads_iff]
  constructor
  · rintro ⟨id, q, found, own, admitted, rfl⟩
    obtain ⟨id', q', there, rfl, definition, jobs⟩ := h.origin found
    rw [definition] at own admitted
    exact ⟨s.load id' q', mem_loads_iff.2 ⟨id', q', there, own, admitted, rfl⟩,
      (h.load id' jobs).symm⟩
  · rintro ⟨l', mem, rfl⟩
    obtain ⟨id, q, found, own, admitted, rfl⟩ := mem_loads_iff.1 mem
    obtain ⟨q', there, definition, jobs, -⟩ := h.queue id q found
    rw [← definition] at own admitted
    exact ⟨f id, q', there, own, admitted, (h.load id jobs).symm⟩

omit [Scalar α] in
theorem setPriorities {same' : α → α → Prop} {priorities priorities' : List (Int × α)}
    (agree : ∀ (id : Int) (q q' : StoredQueue α), s.queues[id]? = some q →
      t.queues[f id]? = some q' → same' (lastPriority id priorities q.priority)
        (lastPriority (f id) priorities' q'.priority)) :
    (s.setPriorities priorities).Renamed same' f (t.setPriorities priorities') where
  queue id q found := by
    rw [getElem?_queues_setPriorities] at found
    obtain ⟨before, there, rfl⟩ := Option.map_eq_some_iff.1 found
    obtain ⟨q', here, definition, jobs, enabled, -⟩ := h.queue id before there
    refine ⟨{ q' with priority := lastPriority (f id) priorities' q'.priority }, ?_, definition, jobs,
      enabled, agree id before q' there here⟩
    rw [getElem?_queues_setPriorities, here, Option.map_some]
  injective id id' mem mem' :=
    h.injective id id' (mem_queues_setPriorities.1 mem) (mem_queues_setPriorities.1 mem')
  onto id mem := by
    obtain ⟨id', there, rfl⟩ := h.onto id (mem_queues_setPriorities.1 mem)
    exact ⟨id', mem_queues_setPriorities.2 there, rfl⟩
  jobs job := by
    rw [jobs_setPriorities, jobs_setPriorities, h.jobs]

end Renamed

end Store

/-! ### The same priorities -/

def Scalar.Unordered (α : Type) [Scalar α] : Prop :=
  ∀ xs ys : List α, xs.Perm ys → Scalar.total xs = Scalar.total ys

section

variable [Scalar α] (unordered : Scalar.Unordered α) {f : Int → Int}

include unordered

theorem perm_splitShare {loads loads' : List (Load α)}
    (perm : loads'.Perm (loads.map fun l => { l with queue := f l.queue })) (share : α)
    (threshold : Option α) (floor : α) :
    (splitShare loads' share threshold floor).Perm
      ((splitShare loads share threshold floor).map fun entry => (f entry.1, entry.2)) := by
  have total : competingTotal threshold loads' = competingTotal threshold loads := by
    have competing := (perm.filter fun l => !isBackground threshold l).map Load.sum
    rw [List.filter_map, List.map_map] at competing
    exact unordered _ _ competing
  unfold splitShare
  rw [total, List.map_map]
  have sliced := perm.map fun l =>
    (l.queue, slice share (competingTotal threshold loads) floor threshold l)
  rw [List.map_map] at sliced
  exact sliced

namespace World

variable {same : α → α → Prop} {b : Broker α} (inOrder : b.InOrder) {w w' : World α (Store α)}
  (stores : w.store.Renamed same f w'.store) (sources : w.SameSources w')

include inOrder stores sources

omit unordered inOrder in
theorem entities_renamed (group : String) : w'.entities b group = w.entities b group := by
  have settings : w'.settings = w.settings := funext sources.settings
  have book : (w'.grounds group).book = (w.grounds group).book := by
    simp only [grounds, stores.groups, settings]
  have usage : (w'.grounds group).usage = (w.grounds group).usage := by
    funext grouping i
    simp only [grounds, basis, sources.held]
  have owners : (w'.grounds group).ownersIn = (w.grounds group).ownersIn :=
    funext stores.ownersIn
  rw [entities, entities, settings, Basis.entities?_congr b book usage stores.groups owners]

theorem perm_priorities (group : String) :
    (w'.priorities b group).Perm
      ((w.priorities b group).map fun entry => (f entry.1, entry.2)) := by
  have threshold : w'.threshold b group = w.threshold b group := by
    rw [World.threshold, World.threshold, sources.settings]
  rw [w'.priorities_eq group inOrder, w.priorities_eq group inOrder, threshold,
    entities_renamed stores sources]
  unfold Basis.slices
  rw [List.map_flatMap]
  exact List.Perm.flatMap_left _ fun entity _ =>
    perm_splitShare unordered (stores.perm_loads group entity.1) entity.2 _ _

theorem lastPriority_renamed {id : Int} {q q' : StoredQueue α}
    (found : w.store.queues[id]? = some q) (found' : w'.store.queues[f id]? = some q')
    (own : q'.definition = q.definition) (before before' : α) :
    Store.lastPriority (f id) (w'.store.groups.toList.flatMap (w'.priorities b)) before' =
      Store.lastPriority id (w.store.groups.toList.flatMap (w.priorities b)) before := by
  have used : q.definition.ownerGroup ∈ w.store.groups.toList :=
    Std.ExtTreeSet.mem_toList.2 (Store.mem_groups.2 ⟨id, q, found, rfl⟩)
  rw [w.lastPriority_groups inOrder _ found, w'.lastPriority_groups inOrder _ found', stores.groups,
    own, if_pos used, if_pos used]
  have mem := Store.lastPriority_mem
    ((w.mem_priorities q.definition.ownerGroup inOrder id).2 ⟨q, found, rfl⟩) before
  have mem' := (perm_priorities unordered inOrder stores sources q.definition.ownerGroup).mem_iff.2
    (List.mem_map_of_mem mem)
  exact Store.lastPriority_eq (w'.nodup_priorities _ inOrder) mem' before'

end World

end

/-! ### Orders of submission -/

def Submission.calls (xs : List Submission) : List BrokerCall :=
  xs.map Submission.call ++ [.recalculateAll]

section

variable [Scalar α] [Random.Logarithm α]

/-- What becomes of jobs that are submitted to an empty store, and how little their order matters:
to the numbers of queues, and to priorities as far as they need not be the same. -/
structure Orderless (same : α → α → Prop) (b : Broker α) : Prop where
  answers : ∀ (w : World α (Store α)) (xs : List Submission), w.store = {} → b.Accepts xs →
    w.Answers b (Submission.calls xs)
  filed : ∀ (w : World α (Store α)) (xs : List Submission), w.store = {} → b.Accepts xs →
    (w.serve b (Submission.calls xs)).store.Files b xs
  renamed : ∀ (w : World α (Store α)) (xs ys : List Submission), w.store = {} → b.Accepts xs →
    xs.Perm ys → ∃ f, (w.serve b (Submission.calls xs)).store.Renamed same f
      (w.serve b (Submission.calls ys)).store

namespace Submission

variable {b : Broker α} (inOrder : b.InOrder)

include inOrder

theorem play_recalculateAll (w : World α (Store α)) :
    (w.play (b.course .recalculateAll)).2.store =
        w.store.setPriorities (w.store.groups.toList.flatMap (w.priorities b)) ∧
      ∃ n, (w.play (b.course .recalculateAll)).1 = some (.ok n) := by
  have wrote := Broker.writes_recalculateAll inOrder (t := ⟨w, []⟩) rfl
  rwa [Trial.Ends, Trial.run_calm] at wrote

theorem serve_calls (w : World α (Store α)) (xs : List Submission) :
    (w.serve b (calls xs)).store = (w.serve b (xs.map call)).store.setPriorities
      ((w.serve b (xs.map call)).store.groups.toList.flatMap
        ((w.serve b (xs.map call)).priorities b)) := by
  rw [calls, World.serve_append]
  exact (play_recalculateAll inOrder _).1

variable (attempts : b.policy.insertAttempts ≠ 0)
  (effective : ∀ submitted, ∃ x, b.policy.bounds.effective? submitted = some x)

include attempts effective

theorem orderless {same : α → α → Prop}
    (fair : (∀ x y, same x y) ∨ Scalar.Unordered α ∧ ∀ x, same x x) : Orderless same b := by
  refine ⟨fun w xs empty accepted => ?_, fun w xs empty accepted => ?_,
    fun w xs ys empty accepted perm => ?_⟩
  · obtain ⟨answers, -, -⟩ := files_serve_empty inOrder attempts effective empty accepted
    exact w.answers_append answers ⟨(play_recalculateAll inOrder _).2, trivial⟩
  · obtain ⟨-, files, -⟩ := files_serve_empty inOrder attempts effective empty accepted
    rw [serve_calls inOrder]
    exact files.setPriorities _
  · obtain ⟨-, files, sources⟩ := files_serve_empty inOrder attempts effective empty accepted
    obtain ⟨-, files', sources'⟩ :=
      files_serve_empty inOrder attempts effective empty (accepted.perm perm)
    have stores := files.renamed files' fun x => perm.mem_iff
    refine ⟨(w.serve b (xs.map call)).store.counterpart (w.serve b (ys.map call)).store, ?_⟩
    rw [serve_calls inOrder, serve_calls inOrder]
    refine stores.setPriorities fun id q q' found found' => ?_
    rcases fair with any | ⟨unordered, equal⟩
    · exact any _ _
    · obtain ⟨p, there, own, -⟩ := stores.queue id q found
      cases found'.symm.trans there
      rw [World.lastPriority_renamed unordered inOrder stores (sources.symm.trans sources') found
        found' own q.priority q'.priority]
      exact equal _

end Submission

end

/-- With settings that have passed their checks, jobs can be submitted in any order: in doubles the
same jobs are in the same queues, all of them enabled, and over the exact rationals the queues have
the same priorities too. -/
theorem orderless_of_validated [Random.Logarithm ℚ] {b : Broker Float} (valid : b.Validated)
    {b' : Broker ℚ} (valid' : b'.Validated) :
    Orderless (fun _ _ => True) b ∧ Orderless Eq b' := by
  refine ⟨?_, ?_⟩
  · exact Submission.orderless (Broker.inOrder_of_checked valid.history) valid.sound.insertAttempts
      (PriorityBounds.exists_effective valid.sound.bounds) (.inl fun _ _ => trivial)
  · have inOrder : b'.InOrder := fun settings mem =>
      HistorySettings.inOrder_of_rational (valid'.history settings mem)
    have bounds : b'.policy.bounds.min < b'.policy.bounds.max := by
      have checked := valid'.sound.bounds
      simp only [PriorityBounds.isValid, Bool.and_eq_true, decide_eq_true_eq] at checked
      exact checked.2
    refine Submission.orderless inOrder valid'.sound.insertAttempts
      (PriorityBounds.exists_effective_of_le bounds.le)
      (.inr ⟨fun xs ys perm => ?_, fun _ => rfl⟩)
    rw [Rational.total, Rational.total, perm.sum_eq]

namespace Orderless

def submissions : List Submission :=
  [⟨"j1", Tidiness.requirements, 3⟩,
    ⟨"j2", { Tidiness.requirements with ownerIdentity := some "bob" }, 5⟩]

theorem accepts_submissions : Shared.broker.Accepts submissions where
  distinct := by decide
  valid := by
    have valid : ∀ x ∈ submissions, (x.definition? Shared.broker).isSome = true := by decide +kernel
    exact fun x mem => Option.isSome_iff_exists.1 (valid x mem)
  apart := by decide +kernel

end Orderless

attribute [local instance] Shared.logarithm in
theorem orderless_submissions :
    Broker.standard.Validated ∧ Shared.broker.Validated ∧
      Shared.broker.Accepts Orderless.submissions ∧
      ∃ f, (Shared.world.serve Shared.broker (Submission.calls Orderless.submissions)).store.Renamed
        Eq f (Shared.world.serve Shared.broker
          (Submission.calls Orderless.submissions.reverse)).store := by
  have orderless := orderless_of_validated Broker.validated_standard Shared.validated_broker
  exact ⟨Broker.validated_standard, Shared.validated_broker, Orderless.accepts_submissions,
    orderless.2.renamed Shared.world _ _ rfl Orderless.accepts_submissions
      (List.reverse_perm Orderless.submissions).symm⟩

end Matchmaker
