import Matchmaker.Broker.Match
import Matchmaker.Proofs.Random.Choice
import Mathlib.Data.List.Perm.Basic

/-!
What a match has asked when it hands out a job: it listed the queue as a candidate, then saw the job
in the queue, then removed the job by its name. Where the job was removed from is not looked at.
-/
namespace Matchmaker

variable {α : Type}

abbrev Exchange (α : Type) := (q : Request α) × q.Answer

namespace Exchange

def listing (f : Filter) (found : List (Candidate α)) : Exchange α :=
  ⟨.store (.matching f), (.ok found : Except StoreError (List (Candidate α)))⟩

def sight (id : Int) (priority : α) (limit : Nat) (batch : List String) : Exchange α :=
  ⟨.store (.jobsWithPriority id priority limit), (.ok batch : Except StoreError (List String))⟩

def removal (job : String) (home : Int) : Exchange α :=
  ⟨.store (.removeJob job), (.ok (some home) : Except StoreError (Option Int))⟩

end Exchange

/-! ### Ranking -/

namespace Random

variable [Scalar α] [Logarithm α]

theorem rank_yields (candidates : List (Candidate α)) (limit : Nat) :
    (rank candidates limit).Yields fun ranked => ∀ c ∈ ranked, c ∈ candidates := by
  refine Script.Yields.bind (keyed_returns candidates).yields fun found same => ?_
  refine Script.yields_done fun c mem => ?_
  obtain ⟨entry, kept, rfl⟩ := List.mem_map.1 mem
  have keyed : entry ∈ found := List.mem_mergeSort.1 (List.mem_of_mem_take kept)
  rw [← same]
  exact List.mem_map_of_mem keyed

end Random

/-! ### Results and what was written down before them -/

namespace Operation

variable {β γ : Type} {exchanges shown : List (Exchange α)}

/-- Whenever the operation has a result, it is good after all that was written down. -/
def Shows (good : List (Exchange α) → β → Prop) (x : Operation α β)
    (exchanges : List (Exchange α)) : Prop :=
  x.Keeps .transcript (fun later r => ∀ b, r = some (.ok b) → good later b) exchanges

variable {good : List (Exchange α) → β → Prop}

theorem shows_pure (good : List (Exchange α) → β → Prop) {b : β} (h : good exchanges b) :
    (pure b : Operation α β).Shows good exchanges := by
  intro c same
  cases same
  exact h

theorem shows_throw (e : BrokerError) : (throw e : Operation α β).Shows good exchanges := nofun

theorem Shows.bind {fine : List (Exchange α) → γ → Prop} {x : Operation α β}
    {f : β → Operation α γ} (h : x.Shows good exchanges)
    (rest : ∀ b later, good later b → (f b).Shows fine later) : (x >>= f).Shows fine exchanges :=
  Keeps.bind h (fun _ _ => nofun) (fun _ _ _ => nofun) fun later b results =>
    rest b later (results b rfl)

theorem shows_any (kept : shown.Sublist exchanges) (x : Operation α β) :
    x.Shows (fun later _ => shown.Sublist later) exchanges :=
  Script.Keeps.mono (Script.Keeps.transcript kept x.run) fun _ _ still _ _ => still

theorem shows_orAbort (kept : shown.Sublist exchanges) (value : Option β) :
    (orAbort value : Operation α β).Shows (fun later b => shown.Sublist later ∧ value = some b)
      exchanges := by
  refine (keeps_orAbort value).2 fun b same => ⟨kept, ?_⟩
  cases value with
  | none => cases same
  | some c =>
    cases same
    rfl

theorem shows_store (kept : shown.Sublist exchanges) (call : StoreCall α) :
    (store call).Shows (fun later a => (shown ++ [(⟨.store call, .ok a⟩ : Exchange α)]).Sublist later)
      exchanges := by
  refine (keeps_store _ _).2 ⟨trivial, fun a b same => ?_, fun e => nofun⟩
  cases same
  exact kept.append (List.Sublist.refl _)

end Operation

namespace Selection

open Operation

variable {exchanges shown : List (Exchange α)}

/-! ### Jobs of a batch -/

theorem perm_swapRemove {batch : List String} {i : Nat} {job : String}
    (there : batch[i]? = some job) : (job :: Broker.swapRemove batch i).Perm batch := by
  obtain ⟨below, rfl⟩ := List.getElem?_eq_some_iff.1 there
  have filled : batch ≠ [] := List.ne_nil_of_length_pos (Nat.zero_lt_of_lt below)
  obtain ⟨front, last, rfl⟩ := (List.eq_nil_or_concat' batch).resolve_left filled
  rw [Broker.swapRemove]
  split
  · rename_i final
    obtain rfl : i = front.length := by simpa using final
    rw [List.dropLast_concat, List.getElem_concat_length rfl]
    exact (List.perm_append_singleton last front).symm
  · rename_i inner
    have place : i < front.length := by
      rw [List.length_append, List.length_singleton] at below inner
      omega
    rw [List.getLastD_concat, List.set_append_left _ _ place, List.dropLast_concat,
      List.getElem_append_left place]
    calc (front[i] :: front.set i last).Perm (front[i] :: last :: front.eraseIdx i) :=
          (List.set_perm_cons_eraseIdx place last).cons _
      _ |>.Perm (last :: front[i] :: front.eraseIdx i) := List.Perm.swap _ _ _
      _ |>.Perm (last :: front) := (List.getElem_cons_eraseIdx_perm place).cons _
      _ |>.Perm (front ++ [last]) := (List.perm_append_singleton last front).symm

theorem mem_of_mem_swapRemove {batch : List String} {i : Nat} {job other : String}
    (there : batch[i]? = some job) (mem : other ∈ Broker.swapRemove batch i) : other ∈ batch :=
  (perm_swapRemove there).subset (List.mem_cons_of_mem job mem)

def Taken (shown : List (Exchange α)) (batch : List String) (later : List (Exchange α)) :
    Option String → Prop
  | some job => job ∈ batch ∧ ∃ home, (shown ++ [Exchange.removal job home]).Sublist later
  | none => shown.Sublist later

theorem shows_takeAny (batch : List String) (kept : shown.Sublist exchanges) :
    (Broker.takeAny batch).Shows (Taken shown batch) exchanges := by
  induction size : batch.length generalizing batch exchanges with
  | zero =>
    obtain rfl := List.length_eq_zero_iff.1 size
    rw [Broker.takeAny]
    exact shows_pure (Taken shown []) kept
  | succ n ih =>
    obtain ⟨first, rest, rfl⟩ := List.exists_cons_of_length_eq_add_one size
    rw [Broker.takeAny]
    refine (shows_any kept _).bind fun i later kept => ?_
    refine (shows_orAbort kept _).bind fun job later found => ?_
    obtain ⟨kept, there⟩ := found
    refine (shows_store kept _).bind fun home later written => ?_
    cases home with
    | some home =>
      exact shows_pure (Taken shown (first :: rest)) ⟨List.mem_of_getElem? there, home, written⟩
    | none =>
      have smaller : (Broker.swapRemove (first :: rest) i).length = n := by
        rw [Broker.length_swapRemove, size]
        rfl
      have still : shown.Sublist later := (List.sublist_append_left _ _).trans written
      refine Script.Keeps.mono (ih _ still smaller) fun last r taken job same => ?_
      have kind := taken job same
      cases job with
      | none => exact kind
      | some job => exact ⟨mem_of_mem_swapRemove there kind.1, kind.2⟩

/-! ### Queues -/

variable [Scalar α] {b : Broker α}

def TakenFrom (shown : List (Exchange α)) (id : Int) (later : List (Exchange α)) :
    Option String → Prop
  | some job => ∃ priority limit batch home, job ∈ batch ∧
      (shown ++ [Exchange.sight id priority limit batch, .removal job home]).Sublist later
  | none => shown.Sublist later

theorem shows_takeFrom (c : Candidate α) (kept : shown.Sublist exchanges) :
    (b.takeFrom c).Shows (TakenFrom shown c.queue) exchanges := by
  rw [Broker.takeFrom]
  refine (shows_any kept _).bind fun classes later kept => ?_
  cases classes with
  | nil =>
    refine (shows_any kept _).bind fun _ later kept => ?_
    exact shows_pure (TakenFrom shown c.queue) kept
  | cons first rest =>
    refine (shows_any kept _).bind fun winner later kept => ?_
    refine (shows_any kept _).bind fun chosen later kept => ?_
    refine (shows_store kept _).bind fun batch later written => ?_
    refine Script.Keeps.mono (shows_takeAny batch written) fun last r taken found same => ?_
    have kind := taken found same
    cases found with
    | none => exact (List.sublist_append_left _ _).trans kind
    | some job =>
      obtain ⟨mem, home, removed⟩ := kind
      refine ⟨chosen.priority, b.policy.batchSize, batch, home, mem, ?_⟩
      rw [List.append_assoc] at removed
      exact removed

/-- A match is for a candidate that was listed, in whose queue the job was seen. -/
def Selected (f : Filter) (later : List (Exchange α)) (m : MatchedJob) : Prop :=
  ∃ found, ∃ c ∈ found, ∃ priority limit, ∃ batch, ∃ home,
    m = ⟨m.job, c.queue, c.ownerIdentity, c.ownerGroup⟩ ∧ m.job ∈ batch ∧
      [Exchange.listing f found, .sight m.queue priority limit batch,
        .removal m.job home].Sublist later

omit [Scalar α] in
theorem Selected.mono {f : Filter} {m : MatchedJob} {later last : List (Exchange α)}
    (h : Selected f later m) (kept : later.Sublist last) : Selected f last m := by
  obtain ⟨found, c, listed, priority, limit, batch, home, same, mem, shown⟩ := h
  exact ⟨found, c, listed, priority, limit, batch, home, same, mem, shown.trans kept⟩

theorem shows_takeFirst {f : Filter} {found : List (Candidate α)} (candidates : List (Candidate α))
    (listed : ∀ c ∈ candidates, c ∈ found) (kept : [Exchange.listing f found].Sublist exchanges) :
    (b.takeFirst candidates).Shows (fun later r => ∀ m, r = some m → Selected f later m)
      exchanges := by
  induction candidates generalizing exchanges with
  | nil => exact shows_pure _ nofun
  | cons c rest ih =>
    rw [Broker.takeFirst]
    refine (shows_takeFrom c kept).bind fun job later taken => ?_
    cases job with
    | none => exact ih (fun c mem => listed c (List.mem_cons_of_mem _ mem)) taken
    | some job =>
      obtain ⟨priority, limit, batch, home, mem, removed⟩ := taken
      refine (shows_any removed _).bind fun _ later removed => ?_
      refine shows_pure _ fun m same => ?_
      cases same
      exact ⟨found, c, listed c List.mem_cons_self, priority, limit, batch, home, rfl, mem, removed⟩

variable [Random.Logarithm α]

theorem shows_rankedCandidates (f : Filter) :
    (b.rankedCandidates f).Shows (fun later ranked => ∃ found,
      (∀ c ∈ ranked, c ∈ found) ∧ [Exchange.listing f found].Sublist later) exchanges := by
  rw [Broker.rankedCandidates]
  refine (shows_store (List.nil_sublist exchanges) _).bind fun found later written => ?_
  refine Script.Keeps.mono (keeps_choose_transcript (Random.rank_yields found _) written) ?_
  intro last r ⟨listed, drawn⟩ ranked same
  exact ⟨found, drawn ranked same, listed⟩

theorem shows_extractWithin (f : Filter) (attempts : Nat) :
    (b.extractWithin f attempts).Shows (fun later r => ∀ m, r = some m → Selected f later m)
      exchanges := by
  induction attempts generalizing exchanges with
  | zero => exact shows_pure _ nofun
  | succ attempts ih =>
    rw [Broker.extractWithin]
    refine (shows_rankedCandidates f).bind fun ranked later ⟨found, listed, written⟩ => ?_
    cases ranked with
    | nil => exact shows_pure _ nofun
    | cons first rest =>
      refine (shows_takeFirst _ listed written).bind fun r later selected => ?_
      cases r with
      | none => exact ih
      | some m => exact shows_pure _ selected

theorem shows_takeJob (c : Capabilities) :
    (b.takeJob c).Shows (fun later r => ∀ m, r = some m →
      ∃ f, b.filterFor c = .ok f ∧ Selected f later m) [] := by
  rw [Broker.takeJob]
  cases filter : b.filterFor c with
  | error e => exact (shows_any (List.nil_sublist _) _).bind fun _ _ _ => shows_throw _
  | ok f =>
    refine (shows_extractWithin f _).bind fun r later selected => ?_
    refine (shows_any (List.Sublist.refl later) _).bind fun _ last kept => ?_
    exact shows_pure _ fun m same => ⟨f, rfl, (selected m same).mono kept⟩

end Selection

end Matchmaker
