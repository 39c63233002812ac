import Matchmaker.Proofs.Broker.Selection
import Matchmaker.Proofs.Broker.Sequence
import Matchmaker.Proofs.Concurrency.Gate
import Matchmaker.Proofs.Store.Sight

/-!
Between calls every queue is enabled and has a job. Inside a call some queues may be closed and some
emptied; which ones is followed question by question, and at the end of every path there are none.
-/
namespace Matchmaker

variable {α : Type}

namespace Store

/-- Every queue is enabled and has a job. -/
structure Tidy (s : Store α) : Prop where
  enabled : ∀ (id : Int) (q : StoredQueue α), s.queues[id]? = some q → q.enabled = true
  filled : ∀ (id : Int) (q : StoredQueue α), s.queues[id]? = some q → q.jobs ≠ ∅

/-- Tidy but for queues that may be closed, and queues that may be without jobs. -/
structure Midway (closed emptied : List Int) (s : Store α) : Prop where
  consistent : s.Consistent
  enabled : ∀ (id : Int) (q : StoredQueue α), s.queues[id]? = some q →
    q.enabled = true ∨ id ∈ closed
  filled : ∀ (id : Int) (q : StoredQueue α), s.queues[id]? = some q → q.jobs ≠ ∅ ∨ id ∈ emptied

namespace Midway

variable {closed emptied : List Int} {s t : Store α}

theorem empty : Midway [] [] ({} : Store α) where
  consistent := consistent_empty
  enabled := by simp
  filled := by simp

theorem tidy (h : s.Midway [] []) : s.Tidy where
  enabled id q found := (h.enabled id q found).resolve_right List.not_mem_nil
  filled id q found := (h.filled id q found).resolve_right List.not_mem_nil

theorem mono {closed' emptied' : List Int} (h : s.Midway closed emptied)
    (wider : closed ⊆ closed') (wider' : emptied ⊆ emptied') : s.Midway closed' emptied' where
  consistent := h.consistent
  enabled id q found := (h.enabled id q found).imp_right (@wider id)
  filled id q found := (h.filled id q found).imp_right (@wider' id)

theorem filled_of {id : Int} (h : s.Midway closed (id :: emptied))
    (jobs : ∀ q, s.queues[id]? = some q → q.jobs ≠ ∅) : s.Midway closed emptied where
  consistent := h.consistent
  enabled := h.enabled
  filled other q found := by
    rcases h.filled other q found with full | mem
    · exact .inl full
    · rcases List.mem_cons.1 mem with rfl | mem
      · exact .inl (jobs q found)
      · exact .inr mem

theorem change {closed' emptied' : List Int} (h : s.Midway closed emptied) (id : Int)
    (consistent : t.Consistent)
    (others : ∀ other, id ≠ other → t.queues[other]? = s.queues[other]?)
    (own : ∀ q, t.queues[id]? = some q →
      (q.enabled = true ∨ id ∈ closed') ∧ (q.jobs ≠ ∅ ∨ id ∈ emptied'))
    (wider : closed ⊆ id :: closed') (wider' : emptied ⊆ id :: emptied') :
    t.Midway closed' emptied' where
  consistent := consistent
  enabled other p present := by
    by_cases same : id = other
    · subst same
      exact (own p present).1
    · rw [others other same] at present
      exact (h.enabled other p present).imp_right fun mem =>
        List.mem_of_ne_of_mem (Ne.symm same) (wider mem)
  filled other p present := by
    by_cases same : id = other
    · subst same
      exact (own p present).2
    · rw [others other same] at present
      exact (h.filled other p present).imp_right fun mem =>
        List.mem_of_ne_of_mem (Ne.symm same) (wider' mem)

variable [Scalar α] {call : StoreCall α} {answer : Except StoreError call.Answer}

theorem quiet (h : s.Midway closed emptied) (effect : s.Effect call answer t)
    (asked : (Request.store call).isQuiet = true) : t.Midway closed emptied := by
  have consistent := effect.consistent h.consistent
  cases effect with
  | created | switched | added | removed => cases asked
  | deleted id =>
    refine h.change id consistent (fun other different => ?_) (fun q present => ?_)
      (List.subset_cons_self id closed) (List.subset_cons_self id emptied)
    · simp [Std.ExtTreeMap.getElem?_erase, different]
    · rw [Std.ExtTreeMap.getElem?_erase_self] at present
      cases present
  | prioritized priorities =>
    refine ⟨consistent, fun id p present => ?_, fun id p present => ?_⟩
    all_goals
      rw [getElem?_queues_setPriorities, Option.map_eq_some_iff] at present
      obtain ⟨q, found, rfl⟩ := present
    · exact h.enabled id q found
    · exact h.filled id q found
  | _ => exact ⟨consistent, h.enabled, h.filled⟩

theorem hold {id : Int} {answer : Except StoreError Bool} (h : s.Midway closed emptied)
    (effect : s.Effect (.setEnabled id true false) answer t) : t.Midway (id :: closed) emptied := by
  have consistent := effect.consistent h.consistent
  cases effect with
  | read reads => cases reads
  | unswitched => exact h.mono (List.subset_cons_self id closed) (List.Subset.refl emptied)
  | switched _ _ _ q found held =>
    refine h.change id consistent (fun other different => ?_) (fun p present => ?_)
      (List.subset_cons_of_subset id (List.subset_cons_self id closed))
      (List.subset_cons_self id emptied)
    · simp [Std.ExtTreeMap.getElem?_insert, different]
    · rw [Std.ExtTreeMap.getElem?_insert_self] at present
      cases present
      exact ⟨.inr List.mem_cons_self, h.filled id q found⟩

theorem release {id : Int} {answer : Except StoreError Bool} (h : s.Midway (id :: closed) emptied)
    (effect : s.Effect (.setEnabled id false true) answer t) : t.Midway closed emptied := by
  have consistent := effect.consistent h.consistent
  cases effect with
  | read reads => cases reads
  | unswitched _ _ _ other =>
    refine ⟨consistent, fun other' p present => ?_, h.filled⟩
    rcases h.enabled other' p present with opened | mem
    · exact .inl opened
    · rcases List.mem_cons.1 mem with rfl | mem
      · exact .inl (eq_true_of_ne_false (other p present))
      · exact .inr mem
  | switched _ _ _ q found held =>
    refine h.change id consistent (fun other different => ?_) (fun p present => ?_)
      (List.Subset.refl _) (List.subset_cons_self id emptied)
    · simp [Std.ExtTreeMap.getElem?_insert, different]
    · rw [Std.ExtTreeMap.getElem?_insert_self] at present
      cases present
      exact ⟨.inl rfl, h.filled id q found⟩

theorem create {d : Definition} {priority : α} {id : Int} {answer : Except StoreError Int}
    (h : s.Midway closed emptied) (effect : s.Effect (.create d priority false) answer t)
    (created : answer = .ok id) : t.Midway (id :: closed) (id :: emptied) := by
  have consistent := effect.consistent h.consistent
  cases effect with
  | read reads => cases reads
  | known => cases created
  | created =>
    cases created
    refine h.change (s.lastId + 1) consistent (fun other different => ?_) (fun p _ => ?_)
      (List.subset_cons_of_subset _ (List.subset_cons_self _ closed))
      (List.subset_cons_of_subset _ (List.subset_cons_self _ emptied))
    · simp [Std.ExtTreeMap.getElem?_insert, different]
    · exact ⟨.inr List.mem_cons_self, .inr List.mem_cons_self⟩

theorem add {id submitted : Int} {job : String} {effective : α} {answer : Except StoreError Unit}
    (h : s.Midway closed (id :: emptied))
    (effect : s.Effect (.addJob id job submitted effective) answer t) (added : answer = .ok ()) :
    t.Midway closed emptied := by
  have consistent := effect.consistent h.consistent
  cases effect with
  | read reads => cases reads
  | duplicate | homeless => cases added
  | added _ _ _ _ q absent found =>
    refine h.change id consistent (fun other different => ?_) (fun p present => ?_)
      (List.subset_cons_self id closed) (List.Subset.refl _)
    · simp [Std.ExtTreeMap.getElem?_insert, different]
    · rw [Std.ExtTreeMap.getElem?_insert_self] at present
      cases present
      exact ⟨h.enabled id q found, .inl Std.ExtTreeSet.insert_ne_empty⟩

theorem add_any {id submitted : Int} {job : String} {effective : α} {answer : Except StoreError Unit}
    (h : s.Midway closed emptied)
    (effect : s.Effect (.addJob id job submitted effective) answer t) :
    t.Midway closed emptied := by
  cases answer with
  | ok _ =>
    exact (h.mono (List.Subset.refl closed) (List.subset_cons_self id emptied)).add effect rfl
  | error e =>
    rw [effect.eq_of_fruitless rfl]
    exact h

theorem remove {job : String} {id : Int} {answer : Except StoreError (Option Int)}
    (h : s.Midway closed emptied) (effect : s.Effect (.removeJob job) answer t)
    (removed : answer = .ok (some id)) : t.Midway closed (id :: emptied) := by
  have consistent := effect.consistent h.consistent
  cases effect with
  | read reads => cases reads
  | missing => cases removed
  | removed _ record stored =>
    cases removed
    refine h.change record.queue consistent (fun other different => ?_) (fun p present => ?_)
      (List.subset_cons_self _ closed)
      (List.subset_cons_of_subset _ (List.subset_cons_self _ emptied))
    · simp [Std.ExtTreeMap.getElem?_modify, different]
    · rw [Std.ExtTreeMap.getElem?_modify_self] at present
      obtain ⟨q, found, rfl⟩ := Option.map_eq_some_iff.1 present
      exact ⟨h.enabled _ q found, .inr List.mem_cons_self⟩

theorem deleteIfEmpty {id : Int} {answer : Except StoreError Bool}
    (h : s.Midway [] (id :: emptied)) (effect : s.Effect (.deleteIfEmpty id) answer t) :
    t.Midway [] emptied := by
  have still := h.quiet effect rfl
  cases effect with
  | read reads => cases reads
  | deleted _ q found enabled empty =>
    refine still.filled_of fun p present => ?_
    rw [Std.ExtTreeMap.getElem?_erase_self] at present
    cases present
  | kept _ busy =>
    -- Without jobs it could only be kept for being closed.
    refine still.filled_of fun q found => (busy q found).resolve_left ?_
    rw [(h.enabled id q found).resolve_right List.not_mem_nil]
    exact Bool.noConfusion

end Midway

end Store

/-! ### Insertions -/

namespace Tidiness

open Operation

variable [Scalar α] {may : (q : Request α) → q.Answer → Prop} {β : Type}
  {closed emptied : List Int} {s : Store α} {b : Broker α}

theorem leaves_quiet {ends : Prop} {x : Operation α β} (quiet : Broker.Quiet ends x)
    (h : s.Midway closed emptied) :
    x.Leaves may (fun t r => t.Midway closed emptied ∧ (r = none → ¬ ends)) s :=
  quiet.leaves h fun s call h asked => h.quiet (s.effect_perform call) asked

theorem leaves_attempt_recalculate (inOrder : b.InOrder) (group : String)
    (h : s.Midway closed emptied) :
    (attempt (b.recalculate group)).Leaves may
      (fun t r => t.Midway closed emptied ∧ r = some (.ok ())) s :=
  (b.quiet_recalculate group).leaves_attempt (not_not_intro inOrder) h fun s call h asked =>
    h.quiet (s.effect_perform call) asked

theorem leaves_release {id : Int} (h : s.Midway (id :: closed) emptied) :
    (Broker.release (α := α) id).Leaves may
      (fun t r => t.Midway closed emptied ∧ r = some (.ok ())) s :=
  leaves_bind (leaves_store (.setEnabled id false true) rfl
    (leaves_pure ⟨h.release (s.effect_perform _), rfl⟩))

theorem leaves_abandon {id : Int} (h : s.Midway [id] [id]) :
    (Broker.abandon (α := α) id).Leaves may
      (fun t r => t.Midway [] [] ∧ r = some (.ok ())) s := by
  refine leaves_bind (leaves_tryStore (.setEnabled id false true) ?_)
  have opened := h.release (s.effect_perform (.setEnabled id false true))
  refine leaves_bind (leaves_tryStore_effect (.deleteIfEmpty id) fun deleted t effect => ?_)
  have gone := opened.deleteIfEmpty effect
  rcases deleted with e | _ | _
  · exact leaves_pure ⟨gone, rfl⟩
  · exact leaves_pure ⟨gone, rfl⟩
  · exact leaves_record ⟨gone, rfl⟩

theorem leaves_insertIntoExisting (id : Int) (job : String) (submitted : Int) (effective : α)
    (h : s.Midway [] []) :
    (Broker.insertIntoExisting id job submitted effective).Leaves may
      (fun t _ => t.Midway [] []) s := by
  refine leaves_bind
    (leaves_store_effect (.setEnabled id true false) (fun changed t effect => ?_) fun e t effect => ?_)
  · cases changed with
    | false =>
      rw [effect.eq_of_fruitless rfl]
      exact leaves_pure h
    | true =>
      refine leaves_bind (leaves_tryStore_effect (.addJob ..) fun added t' effect' => ?_)
      refine leaves_bind ((leaves_release ((h.hold effect).add_any effect')).mono ?_)
      rintro u _ ⟨tidy, rfl⟩
      rcases added with e | _
      · cases e <;> first | exact leaves_throw tidy | exact leaves_pure tidy
      · exact leaves_pure tidy
  · rw [effect.eq_of_fruitless rfl]
    exact h

theorem leaves_insertIntoNew (inOrder : b.InOrder) (d : Definition) (job : String)
    (submitted : Int) (effective : α) (h : s.Midway [] []) :
    (b.insertIntoNew d job submitted effective).Leaves may (fun t _ => t.Midway [] []) s := by
  refine leaves_bind (leaves_tryStore_effect (.create ..) fun created t effect => ?_)
  rcases created with e | id
  · rw [effect.eq_of_fruitless rfl]
    cases e <;> first | exact leaves_throw h | exact leaves_pure h
  · refine leaves_bind (leaves_record (leaves_bind (leaves_tryStore_effect (.addJob ..) ?_)))
    intro added t' effect'
    have held := h.create effect rfl
    rcases added with e | _
    · refine leaves_bind ((leaves_abandon (held.add_any effect')).mono ?_)
      rintro u _ ⟨tidy, rfl⟩
      exact leaves_throw tidy
    · refine leaves_bind ((leaves_attempt_recalculate inOrder _ (held.add effect' rfl)).mono ?_)
      rintro u _ ⟨still, rfl⟩
      refine leaves_bind ((leaves_release still).mono ?_)
      rintro u' _ ⟨tidy, rfl⟩
      exact leaves_pure tidy

theorem leaves_insertOnce (inOrder : b.InOrder) (d : Definition) (job : String) (submitted : Int)
    (effective : α) (h : s.Midway [] []) :
    (b.insertOnce d job submitted effective).Leaves may (fun t _ => t.Midway [] []) s := by
  refine leaves_bind (leaves_store (.find d) rfl ?_)
  cases s.find d with
  | some id => exact leaves_insertIntoExisting id job submitted effective h
  | none => exact leaves_insertIntoNew inOrder d job submitted effective h

theorem leaves_insertRepeatedly (inOrder : b.InOrder) (d : Definition) (job : String)
    (submitted : Int) (effective : α) (attempts : Nat) (h : s.Midway [] []) :
    (b.insertRepeatedly d job submitted effective attempts).Leaves may
      (fun t _ => t.Midway [] []) s := by
  induction attempts generalizing s with
  | zero => exact leaves_bind (leaves_record (leaves_throw h))
  | succ attempts ih =>
    refine (leaves_insertOnce inOrder d job submitted effective h).bind fun attempt t tidy => ?_
    cases attempt with
    | done id => exact leaves_bind (leaves_record (leaves_pure tidy))
    | contended => exact leaves_bind (leaves_record (ih tidy))

attribute [local irreducible] Broker.definitionFor

theorem leaves_insert (inOrder : b.InOrder) (job : String) (requirements : Requirements)
    (submitted : Int) (h : s.Midway [] []) :
    (b.insert job requirements submitted).Leaves may (fun t _ => t.Midway [] []) s := by
  unfold Broker.insert
  split
  · exact leaves_bind (leaves_record (leaves_throw h))
  · refine leaves_bind (leaves_orAbort ?_)
    cases b.policy.bounds.effective? submitted with
    | none => exact h
    | some effective => exact leaves_insertRepeatedly inOrder _ job submitted effective _ h

/-! ### Matches -/

theorem leaves_cleanUp (inOrder : b.InOrder) (c : Candidate α) (h : s.Midway [] [c.queue]) :
    (b.cleanUp c).Leaves may (fun t r => t.Midway [] [] ∧ r = some (.ok ())) s := by
  refine leaves_bind (leaves_tryStore_effect (.deleteIfEmpty c.queue) fun deleted t effect => ?_)
  have tidy := h.deleteIfEmpty effect
  rcases deleted with e | _ | _
  · exact leaves_pure ⟨tidy, rfl⟩
  · exact leaves_pure ⟨tidy, rfl⟩
  · exact leaves_bind (leaves_record (leaves_attempt_recalculate inOrder c.ownerGroup tidy))

theorem leaves_cleanUpAfter (inOrder : b.InOrder) (c : Candidate α) (h : s.Midway [] [c.queue]) :
    (b.cleanUpAfter c).Leaves may (fun t r => t.Midway [] [] ∧ r = some (.ok ())) s := by
  refine leaves_bind (leaves_tryStore (.countJobs c.queue) ?_)
  have performed : s.perform (.countJobs c.queue) = (.ok (s.countJobs c.queue), s) := rfl
  rw [performed]
  cases left : s.countJobs c.queue with
  | zero => exact leaves_cleanUp inOrder c h
  | succ n =>
    refine leaves_pure ⟨h.filled_of fun q found none => ?_, rfl⟩
    simp [Store.countJobs, found, none] at left

def Taken (id : Int) (t : Store α) : Ending (Option String) → Prop
  | some (.ok (some _)) => t.Midway [] [id]
  | _ => t.Midway [] []

theorem leaves_takeAny {id : Int} (batch : List String)
    (homes : ∀ job ∈ batch, s.home? job = some id) (h : s.Midway [] []) :
    (Broker.takeAny batch).Leaves may (Taken id) s := by
  induction size : batch.length generalizing batch with
  | zero =>
    obtain rfl := List.length_eq_zero_iff.1 size
    rw [Broker.takeAny]
    exact leaves_pure h
  | succ n ih =>
    obtain ⟨first, rest, rfl⟩ := List.exists_cons_of_length_eq_add_one size
    rw [Broker.takeAny]
    refine leaves_bind (leaves_choose fun i => ?_)
    cases i with
    | none => exact h
    | some i =>
      refine leaves_bind (leaves_orAbort ?_)
      cases there : (first :: rest)[i]? with
      | none => exact h
      | some job =>
        have mem : job ∈ first :: rest := List.mem_of_getElem? there
        refine leaves_bind (leaves_store_effect (.removeJob job) (fun home t effect => ?_) ?_)
        · cases home with
          | some home =>
            obtain rfl : id = home :=
              Option.some.inj ((homes _ mem).symm.trans (effect.home?_of_removed rfl))
            exact leaves_pure (h.remove effect rfl)
          | none =>
            rw [effect.eq_of_fruitless rfl]
            refine ih _ (fun job left => homes job (Selection.mem_of_mem_swapRemove there left)) ?_
            rw [Broker.length_swapRemove, size]
            rfl
        · intro e t effect
          rw [effect.eq_of_fruitless rfl]
          exact h

theorem leaves_takeFrom (inOrder : b.InOrder) (c : Candidate α) (h : s.Midway [] []) :
    (b.takeFrom c).Leaves may (Taken c.queue) s := by
  refine leaves_bind (leaves_store (.priorityClasses c.queue) rfl ?_)
  cases s.priorityClasses c.queue with
  | nil =>
    have wider := h.mono (List.Subset.refl []) (List.nil_subset [c.queue])
    refine leaves_bind ((leaves_cleanUp inOrder c wider).mono ?_)
    rintro t _ ⟨tidy, rfl⟩
    exact leaves_pure tidy
  | cons first rest =>
    refine leaves_bind (leaves_choose fun winner => ?_)
    cases winner with
    | none => exact h
    | some winner =>
      refine leaves_bind (leaves_orAbort ?_)
      cases (first :: rest)[winner.getD 0]? with
      | none => exact h
      | some chosen =>
        refine leaves_bind (leaves_store (.jobsWithPriority ..) rfl ?_)
        exact leaves_takeAny _
          (fun job mem => Store.home?_of_mem_jobsWithPriority mem h.consistent) h

theorem leaves_takeFirst (inOrder : b.InOrder) (candidates : List (Candidate α))
    (h : s.Midway [] []) :
    (b.takeFirst candidates).Leaves may (fun t _ => t.Midway [] []) s := by
  induction candidates generalizing s with
  | nil => exact leaves_pure h
  | cons c rest ih =>
    refine leaves_bind ((leaves_takeFrom inOrder c h).mono fun t r taken => ?_)
    rcases r with _ | e | _ | job
    · exact taken
    · exact taken
    · exact ih taken
    · refine leaves_bind ((leaves_cleanUpAfter inOrder c taken).mono ?_)
      rintro u _ ⟨tidy, rfl⟩
      exact leaves_pure tidy

section

variable [Random.Logarithm α]

theorem leaves_rankedCandidates (f : Filter) (h : s.Midway [] []) :
    (b.rankedCandidates f).Leaves may (fun t _ => t.Midway [] []) s :=
  leaves_bind (leaves_store (.matching f) rfl (leaves_choose fun _ => h))

theorem leaves_extractWithin (inOrder : b.InOrder) (f : Filter) (attempts : Nat)
    (h : s.Midway [] []) :
    (b.extractWithin f attempts).Leaves may (fun t _ => t.Midway [] []) s := by
  induction attempts generalizing s with
  | zero => exact leaves_pure h
  | succ attempts ih =>
    refine (leaves_rankedCandidates f h).bind fun ranked t tidy => ?_
    cases ranked with
    | nil => exact leaves_pure tidy
    | cons first rest =>
      refine (leaves_takeFirst inOrder (first :: rest) tidy).bind fun taken u tidy => ?_
      cases taken with
      | none => exact ih tidy
      | some found => exact leaves_pure tidy

theorem leaves_takeJob (inOrder : b.InOrder) (resource : Capabilities) (h : s.Midway [] []) :
    (b.takeJob resource).Leaves may (fun t _ => t.Midway [] []) s := by
  unfold Broker.takeJob
  split
  · exact leaves_bind (leaves_record (leaves_throw h))
  · exact (leaves_extractWithin inOrder _ _ h).bind fun found t tidy =>
      leaves_bind (leaves_record (leaves_pure tidy))

theorem leaves_candidates (resource : Capabilities) (h : s.Midway [] []) :
    (b.candidates resource).Leaves may (fun t _ => t.Midway [] []) s := by
  unfold Broker.candidates
  cases b.filterFor resource with
  | error e => exact leaves_bind (leaves_throw h)
  | ok f => exact leaves_bind (leaves_pure (leaves_rankedCandidates f h))

end

/-! ### Deletions -/

omit [Scalar α] in
theorem touched_subset {touched : QueueSet} {id : Int} :
    touched.toList ⊆ (touched.insert id).toList := fun other mem => by
  rw [Std.ExtTreeSet.mem_toList] at mem ⊢
  exact Std.ExtTreeSet.mem_insert.2 (.inr mem)

theorem leaves_removeJobs (r : Broker.Removals) (jobs : List String)
    (h : s.Midway [] r.touched.toList) :
    (Broker.removeJobs r jobs).Leaves may
      (fun t ended => ∃ r', ended = some (.ok r') ∧ t.Midway [] r'.touched.toList) s := by
  -- On the jobs that are left, with the queues that were touched so far.
  induction jobs generalizing s r with
  | nil => exact leaves_pure ⟨r, rfl, h⟩
  | cons job rest ih =>
    refine leaves_bind
      (leaves_store_effect (.removeJob job) (fun home t effect => ?_) fun e t effect => ?_)
    · cases home with
      | none =>
        rw [effect.eq_of_fruitless rfl]
        exact ih _ h
      | some id =>
        refine ih _ ((h.remove effect rfl).mono (List.Subset.refl []) ?_)
        refine List.cons_subset.2 ⟨?_, touched_subset⟩
        exact Std.ExtTreeSet.mem_toList.2 Std.ExtTreeSet.mem_insert_self
    · cases effect

theorem leaves_dropEmptied (ids : List Int) (h : s.Midway [] ids) :
    (Broker.dropEmptied ids).Leaves may (fun t _ => t.Midway [] []) s := by
  induction ids generalizing s with
  | nil => exact leaves_pure h
  | cons id rest ih =>
    refine leaves_bind (leaves_store (.queue id) rfl ?_)
    cases found : s.queue? id with
    | none =>
      rw [Store.queue?, Option.map_eq_none_iff] at found
      exact ih (h.filled_of fun q here => absurd (found.symm.trans here) nofun)
    | some q =>
      obtain ⟨stored, here, rfl⟩ := Option.map_eq_some_iff.1 found
      dsimp only [proceed]
      split
      · refine leaves_bind (leaves_store_effect (.deleteIfEmpty id)
          (fun deleted t effect => (ih (h.deleteIfEmpty effect)).bind fun _ _ tidy => leaves_pure tidy)
          fun e t effect => ?_)
        cases effect
      · rename_i full
        have filled (q : StoredQueue α) (again : s.queues[id]? = some q) : q.jobs ≠ ∅ := by
          intro none
          cases here.symm.trans again
          exact full (by simp [StoredQueue.summary, none])
        exact leaves_bind (leaves_pure ((ih (h.filled_of filled)).bind
          fun _ _ tidy => leaves_pure tidy))

theorem leaves_delete (jobs : List String) (h : s.Midway [] []) :
    (b.delete jobs).Leaves may (fun t _ => t.Midway [] []) s := by
  refine leaves_bind ((leaves_removeJobs {} jobs (h.mono (List.Subset.refl [])
    (List.nil_subset _))).mono ?_)
  rintro t _ ⟨r, rfl, emptied⟩
  refine leaves_bind (leaves_record ((leaves_dropEmptied _ emptied).bind ?_))
  rintro ⟨deleted, groups⟩ u tidy
  refine leaves_bind (leaves_record (Leaves.bind ?_ fun _ _ tidy => leaves_pure tidy))
  exact (leaves_quiet (b.quiet_recalculateGroups groups.toList) tidy).mono fun _ _ => And.left

/-! ### Calls -/

variable [Random.Logarithm α]

theorem leaves_course (inOrder : b.InOrder) (call : BrokerCall) (h : s.Midway [] []) :
    (b.course call).Leaves may (fun t _ => t.Midway [] []) s := by
  have settled {ends : Prop} {β : Type} {x : Operation α β} (quiet : Broker.Quiet ends x) :
      x.Leaves may (fun t _ => t.Midway [] []) s :=
    (leaves_quiet quiet h).mono fun _ _ ended => ended.1
  cases call with
  | insert job requirements submitted => exact leaves_insert inOrder job requirements submitted h
  | takeJob resource => exact leaves_takeJob inOrder resource h
  | candidates resource => exact leaves_candidates resource h
  | delete jobs => exact leaves_delete jobs h
  | reprioritize updates => exact settled (b.quiet_reprioritize updates)
  | recalculate group => exact settled (b.quiet_recalculate group)
  | recalculateAll => exact settled b.quiet_recalculateAll
  | clean => exact settled b.quiet_clean
  | refreshShares => exact settled (Broker.quiet_refreshShares False)
  | refreshHistory => exact settled (b.quiet_refreshHistory False)
  | sweep => exact settled b.quiet_sweep

theorem midway_of_reached (inOrder : b.InOrder) (h : b.Reached s) : s.Midway [] [] :=
  h.induct .empty fun _ call tidy => leaves_course inOrder call tidy

end Tidiness

/-- Whatever calls are made one after another and whatever becomes of them, whatever settings and
usage come to and whatever is drawn, no queue is left closed or without jobs. -/
theorem tidy_of_reached {b : Broker Float} (valid : b.Validated) {s : Store Float}
    (h : b.Reached s) : s.Tidy :=
  (Tidiness.midway_of_reached (Broker.inOrder_of_checked valid.history) h).tidy

namespace Tidiness

def requirements : Requirements :=
  ⟨some "alice", some "users", some "prod", some 700, .ofFn fun _ => none⟩

def world : World Float (Store Float) where
  store := {}
  shares := { table := { defaultShare := 1 } }
  generator := .ofWords []

def served : World Float (Store Float) :=
  world.serve .standard [.insert "j1" requirements 3, .insert "j2" requirements 5,
    .insert "j2" requirements 5, .delete ["j1"]]

theorem reached_served : Broker.standard.Reached served.store := Broker.reached_serve .empty _

theorem jobs_served :
    served.store.queues[(1 : Int)]?.map (fun q => q.jobs.toList) = some ["j2"] := by
  decide +kernel

end Tidiness

theorem tidy_of_reached_standard :
    Broker.standard.Reached Tidiness.served.store ∧
      Tidiness.served.store.queues[(1 : Int)]?.map (fun q => q.jobs.toList) = some ["j2"] ∧
      Tidiness.served.store.Tidy :=
  ⟨Tidiness.reached_served, Tidiness.jobs_served,
    tidy_of_reached Broker.validated_standard Tidiness.reached_served⟩

end Matchmaker
