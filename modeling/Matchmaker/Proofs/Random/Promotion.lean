import Matchmaker.Proofs.Random.Ranking
import Mathlib.Data.List.Infix
import Mathlib.Data.List.Perm.Basic

/-!
What ranking does when one candidate gets a larger priority and the words stay the same. Its key is
a logarithm, never positive, over the priority, so that the key does not become smaller. In the
order of all candidates it moves forward over some of them, and everybody else stays as they were;
the cut at the limit then keeps it if it kept it before, and costs others no more than one.
-/
namespace Matchmaker.Random

/-! ### A place that moves forward -/

structure Promoted (i : Nat) (kept kept' : List Nat) : Prop where
  stays : i ∈ kept → i ∈ kept'
  earlier : i ∈ kept → kept'.idxOf i ≤ kept.idxOf i
  /-- The others that are still kept are the first ones of those that were, in their order. -/
  others : kept'.erase i <+: kept.erase i
  same : i ∈ kept → kept'.erase i = kept.erase i

section Moving

variable {i limit : Nat} {before after : List Nat}

theorem take_of_reached (reached : before.length < limit) :
    (before ++ i :: after).take limit = before ++ i :: after.take (limit - before.length - 1) := by
  obtain ⟨n, rfl⟩ := Nat.exists_eq_add_of_lt reached
  have more : before.length + n + 1 - before.length - 1 = n := by omega
  rw [Nat.add_assoc, List.take_length_add_append, List.take_succ_cons, ← Nat.add_assoc, more]

theorem take_of_not_reached (short : ¬ before.length < limit) :
    (before ++ i :: after).take limit = before.take limit :=
  List.take_append_of_le_length (Nat.le_of_not_lt short)

theorem mem_take_iff (fresh : i ∉ before) :
    i ∈ (before ++ i :: after).take limit ↔ before.length < limit := by
  constructor
  · intro mem
    by_contra short
    rw [take_of_not_reached short] at mem
    exact fresh (List.mem_of_mem_take mem)
  · intro reached
    rw [take_of_reached reached]
    exact List.mem_append_right _ List.mem_cons_self

theorem idxOf_take (fresh : i ∉ before) (reached : before.length < limit) :
    ((before ++ i :: after).take limit).idxOf i = before.length := by
  rw [take_of_reached reached, List.idxOf_append_of_notMem fresh, List.idxOf_cons_self,
    Nat.add_zero]

theorem erase_take (fresh : i ∉ before) :
    ((before ++ i :: after).take limit).erase i =
      (before ++ after).take (if before.length < limit then limit - 1 else limit) := by
  split
  · rename_i reached
    -- The place itself takes up one of those that are kept.
    have rest : limit - 1 = before.length + (limit - before.length - 1) := by omega
    rw [take_of_reached reached, List.erase_append_right _ fresh, List.erase_cons_head, rest,
      List.take_length_add_append]
  · rename_i short
    rw [take_of_not_reached short, List.take_append_of_le_length (Nat.le_of_not_lt short)]
    exact List.erase_of_not_mem fun mem => fresh (List.mem_of_mem_take mem)

theorem promoted_take {passed : List Nat} (fresh : i ∉ before ++ passed) (limit : Nat) :
    Promoted i ((before ++ passed ++ i :: after).take limit)
      ((before ++ i :: (passed ++ after)).take limit) := by
  have fresh' : i ∉ before := fun mem => fresh (List.mem_append_left _ mem)
  have sizes : (before ++ passed).length = before.length + passed.length := List.length_append
  constructor
  · rw [mem_take_iff fresh, mem_take_iff fresh']
    omega
  · rw [mem_take_iff fresh]
    intro reached
    rw [idxOf_take fresh reached, idxOf_take fresh' (by omega)]
    omega
  · rw [erase_take fresh, erase_take fresh', ← List.append_assoc]
    exact List.take_prefix_take_left (by split <;> split <;> omega)
  · rw [mem_take_iff fresh]
    intro reached
    rw [erase_take fresh, erase_take fresh', if_pos reached, if_pos (by omega), List.append_assoc]

end Moving

/-! ### A candidate that stands better -/

variable {α : Type} [Scalar α]

section Order

variable {found : List (Keyed α)} {i : Nat} {x x' : Keyed α}

theorem before_set_iff {a b : Nat} (differs : a ≠ i) (differs' : b ≠ i) :
    Before (found.set i x') a b ↔ Before found a b := by
  unfold Before
  rw [List.getElem?_set_ne differs.symm, List.getElem?_set_ne differs'.symm]

variable [Scalar.Ordered α]

theorem Before.of_set (here : found[i]? = some x) (better : ¬ Precedes x x')
    (finite : ∀ key ∈ x.1, Scalar.isFinite key = true)
    (finite' : ∀ key ∈ x'.1, Scalar.isFinite key = true) {a : Nat} (differs : a ≠ i)
    (h : Before (found.set i x') a i) : Before found a i := by
  obtain ⟨y, z, foundY, foundZ, order⟩ := h
  rw [List.getElem?_set_ne differs.symm] at foundY
  rw [List.getElem?_set_self (List.getElem?_eq_some_iff.1 here).1] at foundZ
  cases foundZ
  refine ⟨y, x, foundY, here, ?_⟩
  rcases order with first | ⟨tied, less⟩
  · exact .inl ((first.between finite).resolve_right better)
  · exact .inr ⟨fun above => tied ((above.between finite').resolve_left better), less⟩

theorem StableOrder.erase_set {order order' : List Nat} (stable : StableOrder found order)
    (stable' : StableOrder (found.set i x') order') : order'.erase i = order.erase i := by
  have perm' := stable'.perm
  rw [List.length_set] at perm'
  refine List.Perm.eq_of_pairwise (fun _ _ _ _ first second => absurd second first.asymm) ?_
    (stable.sorted.sublist List.erase_sublist) ((perm'.trans stable.perm.symm).erase i)
  refine (stable'.sorted.sublist List.erase_sublist).imp_of_mem fun mem mem' before => ?_
  have differs {a : Nat} (mem : a ∈ order'.erase i) : a ≠ i :=
    (stable'.nodup.mem_erase_iff.1 mem).1
  exact (before_set_iff (differs mem) (differs mem')).1 before

/-- The candidate moves forward over some others; nobody else moves. -/
theorem StableOrder.moved {order order' : List Nat} (stable : StableOrder found order)
    (stable' : StableOrder (found.set i x') order') (here : found[i]? = some x)
    (better : ¬ Precedes x x') (finite : ∀ key ∈ x.1, Scalar.isFinite key = true)
    (finite' : ∀ key ∈ x'.1, Scalar.isFinite key = true) :
    ∃ before passed after, i ∉ before ++ passed ∧ order = before ++ passed ++ i :: after ∧
      order' = before ++ i :: (passed ++ after) := by
  have inside : i ∈ List.range found.length :=
    List.mem_range.2 (List.getElem?_eq_some_iff.1 here).1
  have inside' : i ∈ List.range (found.set i x').length := by rwa [List.length_set]
  have others := stable.erase_set stable'
  obtain ⟨front, back, fresh, rfl, -⟩ := List.exists_erase_eq (stable.perm.mem_iff.2 inside)
  obtain ⟨front', back', fresh', rfl, -⟩ := List.exists_erase_eq (stable'.perm.mem_iff.2 inside')
  rw [List.erase_append_right _ fresh, List.erase_append_right _ fresh', List.erase_cons_head,
    List.erase_cons_head] at others
  rcases List.append_eq_append_iff.1 others with ⟨passed, rfl, rfl⟩ | ⟨passed, rfl, rfl⟩
  · exact ⟨front', passed, back, fresh, rfl, rfl⟩
  · cases passed with
    | nil => exact ⟨front, [], back', by simpa using fresh, by simp, by simp⟩
    | cons a passed =>
      -- it would have fallen behind one that it stood before
      exfalso
      have differs : a ≠ i := by
        rintro rfl
        exact fresh' (List.mem_append_right _ List.mem_cons_self)
      have ahead : Before found i a :=
        List.rel_of_pairwise_cons (List.pairwise_append.1 stable.sorted).2.1 List.mem_cons_self
      have behind : Before (found.set i x') a i :=
        (List.pairwise_append.1 stable'.sorted).2.2 a
          (List.mem_append_right _ List.mem_cons_self) i List.mem_cons_self
      exact ahead.asymm (behind.of_set here better finite finite' differs)

end Order

/-! ### A larger priority -/

section Keys

omit [Scalar α] in
theorem getElem?_of_take {candidates : List (Candidate α)} {i n : Nat} {c : Candidate α}
    (h : (candidates.take n)[i]? = some c) : candidates[i]? = some c := by
  rw [List.getElem?_take] at h
  split at h
  · exact h
  · cases h

theorem wordCount_set {candidates : List (Candidate α)} {i : Nat} {c' : Candidate α}
    (same : ∀ c ∈ candidates[i]?, Scalar.isWeight c'.priority = Scalar.isWeight c.priority) :
    wordCount (candidates.set i c') = wordCount candidates := by
  induction candidates generalizing i with
  | nil => rfl
  | cons c rest ih =>
    cases i with
    | zero =>
      rw [List.set_cons_zero, wordCount, wordCount, List.countP_cons, List.countP_cons, same c rfl]
    | succ i =>
      rw [List.set_cons_succ, wordCount, wordCount, List.countP_cons, List.countP_cons]
      exact congrArg (· + _) (ih same)

variable [Logarithm α]

theorem keyedBy_set {candidates : List (Candidate α)} {i : Nat} {c c' : Candidate α}
    (found : candidates[i]? = some c)
    (same : Scalar.isWeight c'.priority = Scalar.isWeight c.priority) (words : List UInt64) :
    keyedBy (candidates.set i c') words = (keyedBy candidates words).set i
      (keyOf c'.priority (words.getD (wordCount (candidates.take i)) 0), c') := by
  have counts (n : Nat) :
      wordCount ((candidates.set i c').take n) = wordCount (candidates.take n) := by
    rw [List.take_set]
    refine wordCount_set fun d here => ?_
    cases found.symm.trans (getElem?_of_take here)
    exact same
  apply List.ext_getElem?
  intro n
  rw [getElem?_keyedBy, counts, List.getElem?_set, List.getElem?_set, getElem?_keyedBy,
    length_keyedBy]
  split
  · rename_i here
    subst here
    split <;> rfl
  · rfl

end Keys

theorem not_precedes_of_lt {c : Candidate Exact} {p : Exact} (word : UInt64)
    (weight : Scalar.isWeight c.priority = true) (finite : Scalar.isFinite p = true)
    (larger : c.priority < p) :
    ¬ Precedes (keyOf c.priority word, c) (keyOf p word, { c with priority := p }) := by
  obtain ⟨v, positive, number⟩ := Exact.isWeight_iff.1 weight
  obtain ⟨w, rfl⟩ := Exact.isFinite_iff.1 finite
  rw [number, Exact.number_lt] at larger
  rw [number, keyOf_number positive, keyOf_number (positive.trans larger)]
  rintro (more | ⟨-, below⟩)
  · exact Nat.lt_irrefl _ more
  · have below := Exact.number_lt.1 (of_decide_eq_true below)
    have unit := unitOf_nonneg word
    have negative : Real.log (1 - unitOf word) ≤ 0 :=
      Real.log_nonpos (sub_nonneg.2 (unitOf_lt_one word).le) (by linarith)
    rw [div_eq_mul_inv, div_eq_mul_inv] at below
    exact below.not_ge (mul_le_mul_of_nonpos_left (inv_anti₀ positive larger.le) negative)

/-- With exact keys and the same words, a candidate whose priority is raised does not come later,
and the others keep their order. -/
theorem rank_promotes (candidates : List (Candidate Exact)) (limit i : Nat) (c : Candidate Exact)
    (p : Exact) (found : candidates[i]? = some c) (weight : Scalar.isWeight c.priority = true)
    (finite : Scalar.isFinite p = true) (larger : c.priority < p) :
    let raised := candidates.set i { c with priority := p }
    Ranks candidates limit ∧ Ranks raised limit ∧ wordCount raised = wordCount candidates ∧
      ∀ words, Promoted i (keptPlaces candidates limit words) (keptPlaces raised limit words) := by
  intro raised
  have same : Scalar.isWeight p = Scalar.isWeight c.priority :=
    (Exact.isWeight_of_lt weight finite larger).trans weight.symm
  refine ⟨ranks candidates limit, ranks raised limit, ?_, fun drawn => ?_⟩
  · refine wordCount_set fun d here => ?_
    cases found.symm.trans here
    exact same
  · have keys : keyedBy raised drawn = _ := keyedBy_set found same drawn
    have stable' := stableOrder_places raised drawn
    rw [keys] at stable'
    obtain ⟨before, passed, after, fresh, order, order'⟩ :=
      (stableOrder_places candidates drawn).moved stable' (getElem?_keyedBy_of_some found drawn)
        (not_precedes_of_lt _ weight finite larger) (fun _ => isFinite_of_keyOf)
        fun _ => isFinite_of_keyOf
    unfold keptPlaces
    rw [keys, order, order']
    exact promoted_take fresh limit

theorem rank_promotes_second :
    Exact.number 1 < Exact.number 2 ∧ ∀ words,
      let first : Candidate Exact := ⟨1, "", "", 0, .number 1⟩
      let second : Candidate Exact := ⟨2, "", "", 0, .number 1⟩
      Promoted 1 (keptPlaces [first, second] 1 words)
        (keptPlaces [first, { second with priority := .number 2 }] 1 words) := by
  have larger : Exact.number 1 < Exact.number 2 := Exact.number_lt.2 one_lt_two
  have weight := Exact.isWeight_iff.2 ⟨1, one_pos, rfl⟩
  exact ⟨larger, (rank_promotes [⟨1, "", "", 0, .number 1⟩, ⟨2, "", "", 0, .number 1⟩] 1 1 _
    (.number 2) rfl weight rfl larger).2.2.2⟩

end Matchmaker.Random
