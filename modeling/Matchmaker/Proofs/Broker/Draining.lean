import Matchmaker.Proofs.Broker.Basis
import Matchmaker.Proofs.Broker.Selection

/-!
A batch of jobs is drained in random order. Whatever the random words and the answers of the store
are, no job is tried twice, the first removal that is not refused is the last one, and only when all
jobs were tried in vain is nothing found. The jobs refused so far and those that are left make up
the batch at each step.
-/
namespace Matchmaker

variable {α : Type}

/-! ### Removals that were asked for -/

/-- A job whose removal was asked for, with the answer. -/
abbrev Try := String × Except StoreError (Option Int)

namespace Try

def refusal (job : String) : Try := (job, .ok none)

theorem eq_none_of_mem_refusals {jobs : List String} {t : Try} (mem : t ∈ jobs.map refusal) :
    t.2 = .ok none := by
  obtain ⟨job, -, rfl⟩ := List.mem_map.1 mem
  rfl

theorem map_fst_refusals (jobs : List String) : (jobs.map refusal).map Prod.fst = jobs := by
  rw [List.map_map]
  exact List.map_id jobs

end Try

namespace Exchange

def tried? : Exchange α → Option Try
  | ⟨.store (.removeJob job), answer⟩ => some (job, answer)
  | _ => none

def ofTry (t : Try) : Exchange α := ⟨.store (.removeJob t.1), t.2⟩

end Exchange

def tries (exchanges : List (Exchange α)) : List Try := exchanges.filterMap Exchange.tried?

theorem tries_concat_word (exchanges : List (Exchange α)) (q : Random.WordRequest)
    (word : q.Answer) : tries (exchanges ++ [⟨.word q, word⟩]) = tries exchanges := by
  rw [tries, List.filterMap_append]
  exact List.append_nil _

theorem tries_concat_ofTry (exchanges : List (Exchange α)) (t : Try) :
    tries (exchanges ++ [Exchange.ofTry t]) = tries exchanges ++ [t] := by
  rw [tries, List.filterMap_append]
  rfl

/-- No job is tried twice, and no other one after a removal that was not refused. -/
structure Sparing (batch : List String) (tried : List Try) : Prop where
  length_le : tried.length ≤ batch.length
  once : (tried.map Prod.fst).Nodup
  mem_batch : ∀ t ∈ tried, t.1 ∈ batch
  refused : ∀ t ∈ tried.dropLast, t.2 = .ok none

/-- How a batch is drained: the last try decides how it ends, unless all jobs were refused. -/
structure Drains (batch : List String) (tried : List Try) (r : Operation.Ending (Option String)) :
    Prop extends Sparing batch tried where
  ends : r ≠ none
  taken : ∀ job, r = some (.ok (some job)) ↔ ∃ home, tried.getLast? = some (job, .ok (some home))
  failed : ∀ e, r = some (.error e) ↔
    ∃ job cause, e = .store cause ∧ tried.getLast? = some (job, .error cause)
  exhausted : r = some (.ok none) ↔ (tried.map Prod.fst).Perm batch ∧ ∀ t ∈ tried, t.2 = .ok none

namespace Draining

open Operation

/-! ### Courses of a drain -/

inductive Drained (batch : List String) : List Try → Ending (Option String) → Prop where
  | taken {refused : List String} {job : String} {home : Int}
      (part : (refused ++ [job]).Subperm batch) :
      Drained batch (refused.map Try.refusal ++ [(job, .ok (some home))]) (some (.ok (some job)))
  | failed {refused : List String} {job : String} {cause : StoreError}
      (part : (refused ++ [job]).Subperm batch) :
      Drained batch (refused.map Try.refusal ++ [(job, .error cause)])
        (some (.error (.store cause)))
  | exhausted {refused : List String} (all : refused.Perm batch) :
      Drained batch (refused.map Try.refusal) (some (.ok none))

theorem perm_refused {batch refused left : List String} {i : Nat} {job : String}
    (split : (refused ++ left).Perm batch) (there : left[i]? = some job) :
    (refused ++ [job] ++ Broker.swapRemove left i).Perm batch := by
  rw [List.append_assoc]
  exact ((Selection.perm_swapRemove there).append_left refused).trans split

theorem drained_takeAny {batch : List String} (refused left : List String)
    (split : (refused ++ left).Perm batch) {exchanges : List (Exchange α)}
    (before : tries exchanges = refused.map Try.refusal) :
    (Broker.takeAny left).Keeps .transcript (fun later r => Drained batch (tries later) r)
      exchanges := by
  induction left using Broker.takeAny.induct generalizing refused exchanges with
  | case1 =>
    rw [Broker.takeAny, keeps_pure, before]
    rw [List.append_nil] at split
    exact .exhausted split
  | case2 first rest ih =>
    rw [Broker.takeAny]
    have drawn := Random.index_returns (Nat.succ_ne_zero rest.length)
    -- Drawing a place asks for words, which are no tries.
    refine keeps_choose_bind (fun later => tries later = refused.map Try.refusal) before
      (fun later q same => ⟨trivial, fun word => ?_⟩) drawn fun later i same below => ?_
    · exact (tries_concat_word later q word).trans same
    have there : (first :: rest)[i]? = some (first :: rest)[i] := List.getElem?_eq_getElem below
    have next := perm_refused split there
    have part := (List.sublist_append_left _ _).subperm.trans next.subperm
    rw [keeps_bind, keeps_orAbort, there, Option.map_some, proceed_ok, keeps_bind, keeps_store]
    refine ⟨trivial, fun home => ?_, fun cause => ?_⟩
    · cases home with
      | none =>
        refine ih i _ next ?_
        change tries (later ++ [Exchange.ofTry (Try.refusal _)]) = _
        rw [tries_concat_ofTry, same, List.map_append, List.map_singleton]
      | some home =>
        change Drained batch (tries (later ++ [Exchange.ofTry (_, .ok (some home))])) _
        rw [tries_concat_ofTry, same]
        exact .taken part
    · change Drained batch (tries (later ++ [Exchange.ofTry (_, .error cause)])) _
      rw [tries_concat_ofTry, same]
      exact .failed part

/-! ### Batches of distinct jobs -/

variable {batch : List String} {tried : List Try} {r : Ending (Option String)}

theorem Drained.subperm (h : Drained batch tried r) : (tried.map Prod.fst).Subperm batch := by
  cases h with
  | taken part => rwa [List.map_append, Try.map_fst_refusals]
  | failed part => rwa [List.map_append, Try.map_fst_refusals]
  | exhausted all =>
    rw [Try.map_fst_refusals]
    exact all.subperm

theorem Drained.refused (h : Drained batch tried r) : ∀ t ∈ tried.dropLast, t.2 = .ok none := by
  intro t mem
  cases h with
  | taken =>
    rw [List.dropLast_concat] at mem
    exact Try.eq_none_of_mem_refusals mem
  | failed =>
    rw [List.dropLast_concat] at mem
    exact Try.eq_none_of_mem_refusals mem
  | exhausted => exact Try.eq_none_of_mem_refusals (List.dropLast_subset _ mem)

theorem Drained.sparing (h : Drained batch tried r) (distinct : batch.Nodup) :
    Sparing batch tried := by
  have part := h.subperm
  obtain ⟨jobs, same, within⟩ := id part
  refine ⟨?_, same.nodup_iff.1 (within.nodup distinct), fun t mem => ?_, h.refused⟩
  · simpa using part.length_le
  · exact part.subset (List.mem_map_of_mem mem)

theorem Drained.drains (h : Drained batch tried r) (distinct : batch.Nodup) :
    Drains batch tried r := by
  have sparing := h.sparing distinct
  cases h with
  | taken =>
    refine ⟨sparing, nofun, by simp, by simp, nofun, fun ⟨_, all⟩ => ?_⟩
    cases all _ (List.mem_append_right _ List.mem_cons_self)
  | failed =>
    refine ⟨sparing, nofun, by simp, by simp [eq_comm], nofun, fun ⟨_, all⟩ => ?_⟩
    cases all _ (List.mem_append_right _ List.mem_cons_self)
  | exhausted all =>
    refine ⟨sparing, nofun, by simp [Try.refusal], by simp [Try.refusal], ?_⟩
    rw [Try.map_fst_refusals]
    exact ⟨fun _ => ⟨all, fun _ => Try.eq_none_of_mem_refusals⟩, fun _ => rfl⟩

/-- In every course of its drain, a batch of distinct jobs has each of them tried once at most, until
one is removed, a removal fails or none is left. -/
theorem drains_of_nodup (batch : List String) (distinct : batch.Nodup) :
    (Broker.takeAny (α := α) batch).Keeps .transcript
      (fun exchanges r => Drains batch (tries exchanges) r) [] :=
  (drained_takeAny [] batch (List.Perm.refl batch) rfl).mono fun _ _ h => h.drains distinct

theorem drains_three :
    ["a", "b", "c"].Nodup ∧ (Broker.takeAny (α := Float) ["a", "b", "c"]).Keeps .transcript
      (fun exchanges r => Drains ["a", "b", "c"] (tries exchanges) r) [] :=
  ⟨by decide, drains_of_nodup _ (by decide)⟩

/-! ### Batches that a store lists -/

section Listed

variable [Scalar α] (s : Store α) (id : Int) (priority : α) (limit : Nat)

theorem nodup_jobsWithPriority : (s.jobsWithPriority id priority limit).Nodup := by
  unfold Store.jobsWithPriority
  split
  · exact List.nodup_nil
  · rename_i q _
    exact (q.jobs.nodup_toList.filter _).sublist (List.take_sublist _ _)

theorem drains_jobsWithPriority :
    (Broker.takeAny (α := α) (s.jobsWithPriority id priority limit)).Keeps .transcript
      (fun exchanges r => Drains (s.jobsWithPriority id priority limit) (tries exchanges) r) [] :=
  (drained_takeAny [] _ (List.Perm.refl _) rfl).mono fun _ _ h =>
    h.drains (nodup_jobsWithPriority s id priority limit)

end Listed

end Draining

end Matchmaker
