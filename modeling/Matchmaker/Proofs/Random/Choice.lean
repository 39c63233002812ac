import Matchmaker.Proofs.Script.Protocol
import Matchmaker.Random.Sampling

/-!
What random choices come to whatever the random words are. Ranked candidates start with one that
nobody exceeds in CPU time; a weighted choice is an index in range, as long as the sum of the weights
is a number to draw below.
-/
namespace Matchmaker

namespace Script

variable {Q : Type} {A : Q → Type} {β γ : Type}

theorem Returns.bind {good : β → Prop} {fine : γ → Prop} {x : Script Q A β} {f : β → Script Q A γ}
    (h : x.Returns good) (rest : ∀ b, good b → (f b).Returns fine) : (x.bind f).Returns fine := by
  induction x with
  | done b => exact rest b h
  | ask q next ih => exact fun a => ih a (h a)
  | abort => exact h.elim

theorem Returns.mono {good fine : β → Prop} {x : Script Q A β} (h : x.Returns good)
    (weaker : ∀ b, good b → fine b) : x.Returns fine := by
  induction x with
  | done b => exact weaker b h
  | ask q next ih => exact fun a => ih a (h a)
  | abort => exact h

theorem Returns.yields {good : β → Prop} {x : Script Q A β} (h : x.Returns good) :
    x.Yields good := by
  induction x with
  | done b => exact yields_done h
  | ask q next ih => exact ⟨trivial, fun a => ih a (h a)⟩
  | abort => exact h.elim

end Script

namespace Random

/-! ### Sorting -/

section Sorting

variable {β : Type} {le : β → β → Bool} {r : β → β → Prop}

theorem pairwise_merge (trans : ∀ x y z, r x y → r y z → r x z)
    (before : ∀ x y, le x y = true → r x y) (after : ∀ x y, le x y = false → r y x)
    {xs ys : List β} (sorted : xs.Pairwise r) (sorted' : ys.Pairwise r) :
    (xs.merge ys le).Pairwise r := by
  induction xs generalizing ys with
  | nil => rwa [List.nil_merge]
  | cons x xs ih =>
    induction ys with
    | nil => rwa [List.merge_right]
    | cons y ys ih' =>
      rw [List.cons_merge_cons]
      split
      · rename_i first
        have least := before x y first
        refine List.Pairwise.cons (fun z mem => ?_) (ih sorted.tail sorted')
        rcases List.mem_merge.1 mem with left | right
        · exact List.rel_of_pairwise_cons sorted left
        · rcases List.mem_cons.1 right with rfl | right
          · exact least
          · exact trans _ _ _ least (List.rel_of_pairwise_cons sorted' right)
      · rename_i second
        have least := after x y (eq_false_of_ne_true second)
        refine List.Pairwise.cons (fun z mem => ?_) (ih' sorted'.tail)
        rcases List.mem_merge.1 mem with left | right
        · rcases List.mem_cons.1 left with rfl | left
          · exact least
          · exact trans _ _ _ least (List.rel_of_pairwise_cons sorted left)
        · exact List.rel_of_pairwise_cons sorted' right

theorem pairwise_mergeSort (trans : ∀ x y z, r x y → r y z → r x z)
    (before : ∀ x y, le x y = true → r x y) (after : ∀ x y, le x y = false → r y x)
    (xs : List β) : (xs.mergeSort le).Pairwise r := by
  induction xs, le using List.mergeSort.induct with
  | case1 => rw [List.mergeSort_nil]; exact .nil
  | case2 le x => rw [List.mergeSort_singleton]; exact List.pairwise_singleton r x
  | case3 le x y xs _ _ _ ih ih' =>
    rw [List.mergeSort]
    exact pairwise_merge trans before after (ih before after) (ih' before after)

end Sorting

/-! ### Ranking -/

section Ranking

variable {α : Type} [Scalar α] [Logarithm α]

theorem reservoirKey_returns (weight : α) : (reservoirKey weight).Returns fun _ => True := by
  unfold reservoirKey
  split
  · exact fun _ => trivial
  · exact trivial

theorem keyed_returns (candidates : List (Candidate α)) :
    (keyed candidates).Returns fun found => found.map Prod.snd = candidates := by
  induction candidates with
  | nil => exact rfl
  | cons candidate rest ih =>
    refine Script.Returns.bind (reservoirKey_returns candidate.priority) fun key _ => ?_
    exact Script.Returns.bind ih fun others same => congrArg (candidate :: ·) same

omit [Logarithm α] in
theorem cpuTime_le_of_mayPrecede {x y : Option α × Candidate α} (h : mayPrecede x y = true) :
    y.2.cpuTime ≤ x.2.cpuTime := by
  simp only [mayPrecede, Bool.or_eq_true, Bool.and_eq_true, decide_eq_true_eq, beq_iff_eq] at h
  omega

omit [Logarithm α] in
theorem cpuTime_le_of_not_mayPrecede {x y : Option α × Candidate α} (h : mayPrecede x y = false) :
    x.2.cpuTime ≤ y.2.cpuTime := by
  simp only [mayPrecede, Bool.or_eq_false_iff, decide_eq_false_iff_not] at h
  omega

/-- The first of some ranked candidates, which nobody exceeds in CPU time. -/
def Leads (candidates ranked : List (Candidate α)) : Prop :=
  ∃ first rest, ranked = first :: rest ∧ first ∈ candidates ∧
    ∀ c ∈ candidates, c.cpuTime ≤ first.cpuTime

theorem rank_returns_any (candidates : List (Candidate α)) (limit : Nat) :
    (rank candidates limit).Returns fun _ => True :=
  Script.Returns.bind (keyed_returns candidates) fun _ _ => trivial

theorem rank_nil_returns (limit : Nat) :
    (rank ([] : List (Candidate α)) limit).Returns (· = []) :=
  Script.Returns.bind (keyed_returns []) fun found same => by
    obtain rfl := List.map_eq_nil_iff.1 same
    change ((([] : List (Option α × Candidate α)).mergeSort mayPrecede).take limit).map Prod.snd = []
    rw [List.mergeSort_nil, List.take_nil, List.map_nil]

theorem rank_returns {candidates : List (Candidate α)} (any : candidates ≠ []) {limit : Nat}
    (positive : limit ≠ 0) : (rank candidates limit).Returns (Leads candidates) := by
  refine Script.Returns.bind (keyed_returns candidates) fun found same => ?_
  have sorted := pairwise_mergeSort (r := fun x y => y.2.cpuTime ≤ x.2.cpuTime)
    (fun _ _ _ first second => Nat.le_trans second first)
    (fun _ _ => cpuTime_le_of_mayPrecede) (fun _ _ => cpuTime_le_of_not_mayPrecede) found
  have mem (c : Candidate α) :
      c ∈ (found.mergeSort mayPrecede).map Prod.snd ↔ c ∈ candidates := by
    rw [← same]
    simp only [List.mem_map, List.mem_mergeSort]
  obtain ⟨limit, rfl⟩ := Nat.exists_eq_succ_of_ne_zero positive
  cases order : found.mergeSort mayPrecede with
  | nil =>
    rw [order] at mem
    exact absurd (List.eq_nil_iff_forall_not_mem.2 fun c here => nomatch (mem c).2 here) any
  | cons first rest =>
    rw [order] at sorted mem
    refine ⟨first.2, (rest.take limit).map Prod.snd, ?_, ?_, fun c here => ?_⟩
    · rfl
    · exact (mem first.2).1 List.mem_cons_self
    · obtain ⟨entry, listed, rfl⟩ := List.mem_map.1 ((mem c).2 here)
      rcases List.mem_cons.1 listed with rfl | later
      · exact Nat.le_refl _
      · exact List.rel_of_pairwise_cons sorted later

end Ranking

/-! ### Choosing -/

theorem word32_returns : Draw.word32.Returns fun _ => True := fun _ => trivial

theorem index_returns {count : Nat} (positive : count ≠ 0) :
    (Draw.index count).Returns (· < count) := by
  rw [Draw.index, if_neg positive]
  refine Script.Returns.bind word32_returns fun first _ => ?_
  have below (word : UInt32) : word.toNat * count / 2 ^ 32 < count :=
    Nat.div_lt_of_lt_mul (Nat.mul_lt_mul_of_pos_right word.toNat_lt (Nat.pos_of_ne_zero positive))
  dsimp only
  split
  · refine Script.Returns.bind word32_returns fun second _ => ?_
    change (if Draw.carries count _ second = true then _ else _) < count
    split
    · rename_i carry
      have carry : 2 ^ 32 ≤ first.toNat * count % 2 ^ 32 + second.toNat * count / 2 ^ 32 :=
        of_decide_eq_true carry
      have parts := Nat.div_add_mod (first.toNat * count) (2 ^ 32)
      -- Even with the carry the quotient stays below the count.
      have whole : (first.toNat + 1) * count ≤ 2 ^ 32 * count :=
        Nat.mul_le_mul_right count first.toNat_lt
      have next : 2 ^ 32 * (first.toNat * count / 2 ^ 32 + 1) < 2 ^ 32 * count := by
        have := below second
        rw [Nat.succ_mul] at whole
        omega
      exact Nat.lt_of_mul_lt_mul_left next
    · exact below first
  · exact below first

section Choosing

variable {α : Type} [Scalar α]

theorem pickAt_lt {roll : α} {weights : List α} {i j : Nat} {before : α} {last : Option Nat}
    (h : pickAt roll weights i before last = some j) :
    last = some j ∨ j < i + weights.length := by
  induction weights generalizing i before last with
  | nil => exact .inl h
  | cons weight rest ih =>
    unfold pickAt at h
    rw [List.length_cons]
    split at h
    · split at h
      · cases h
        exact .inr (by omega)
      · rcases ih h with same | later
        · cases same
          exact .inr (by omega)
        · exact .inr (by omega)
    · rcases ih h with same | later
      · exact .inl same
      · exact .inr (by omega)

def Drawable (total : α) : Prop := total ≤ Scalar.zero ∨ Scalar.isWeight total = true

theorem pickWeighted_returns {weights : List α}
    (drawable : Drawable (Scalar.total (weights.filter Scalar.isWeight))) :
    (pickWeighted weights).Returns fun winner => ∀ i ∈ winner, i < weights.length := by
  unfold pickWeighted
  dsimp only
  split
  · exact nofun
  · rename_i positive
    have weight := drawable.resolve_left positive
    have below : (Draw.below (Scalar.total (weights.filter Scalar.isWeight))).Returns
        fun _ => True := by
      rw [Draw.below, if_pos weight]
      exact fun _ => trivial
    refine Script.Returns.bind below fun roll _ => ?_
    intro i picked
    simpa using pickAt_lt picked

theorem pickWeighted_getD_returns {weights : List α} (any : weights ≠ [])
    (drawable : Drawable (Scalar.total (weights.filter Scalar.isWeight))) :
    (pickWeighted weights).Returns fun winner => winner.getD 0 < weights.length := by
  refine (pickWeighted_returns drawable).mono fun winner below => ?_
  cases winner with
  -- The first candidate stands in where none was picked.
  | none => exact List.length_pos_iff.2 any
  | some i => exact below i rfl

end Choosing

end Random

end Matchmaker
