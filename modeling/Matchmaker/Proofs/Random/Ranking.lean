import Matchmaker.Proofs.Random.Choice
import Matchmaker.Proofs.Scalar.Exact
import Mathlib.Data.List.Basic

/-!
What ranking comes to, word by word. The words that are drawn are a list, one for each weight, and
with them the result is a function of the candidates: their places are sorted by CPU time and key,
ties by place, and the first ones are kept. The sort sees candidates without a key and keys that
compare as equal, so that its order is strict only together with the places.
-/
namespace Matchmaker.Random

/-! ### Words -/

section Words

variable {β γ : Type}

theorem repeatedAfter_eq (d : Draw β) (n : Nat) (found : List β) :
    d.repeatedAfter n found = (d.repeated n).bind fun later => pure (found.reverse ++ later) := by
  induction n generalizing found with
  | zero => exact congrArg pure (List.append_nil _).symm
  | succ n ih =>
    have step (found : List β) : d.repeatedAfter (n + 1) found =
      d.bind fun next => d.repeatedAfter n (next :: found) := rfl
    rw [Draw.repeated, step, step, Script.bind_assoc]
    congr 1
    funext next
    rw [ih [next], ih, Script.bind_assoc]
    congr 1
    funext later
    change pure _ = pure _
    rw [List.reverse_cons, List.append_assoc]
    rfl

theorem repeated_succ_bind (d : Draw β) (n : Nat) (f : List β → Draw γ) :
    (d.repeated (n + 1)).bind f = d.bind fun next => (d.repeated n).bind fun later =>
      f (next :: later) := by
  have first : d.repeated (n + 1) = d.bind fun next => d.repeatedAfter n [next] := rfl
  rw [first, Script.bind_assoc]
  congr 1
  funext next
  rw [repeatedAfter_eq, Script.bind_assoc]
  rfl

end Words

abbrev Keyed (α : Type) := Option α × Candidate α

variable {α : Type} [Scalar α]

section Keys

variable [Logarithm α]

/-- The key that a word gives to a candidate of some priority. -/
def keyOf (weight : α) (word : UInt64) : Option α :=
  let u : α := Scalar.ofInt (word >>> 11).toNat / Scalar.ofInt (Nat.pow 2 53)
  let key := Logarithm.ln (Scalar.one - u) / weight
  if Scalar.isWeight weight && Scalar.isFinite key then some key else none

theorem reservoirKey_of_isWeight {weight : α} (h : Scalar.isWeight weight = true) :
    reservoirKey weight = Draw.word64.bind fun word => pure (keyOf weight word) := by
  unfold keyOf
  simp only [h, Bool.true_and]
  exact if_pos h

theorem keyOf_of_not_isWeight {weight : α} (h : Scalar.isWeight weight = false) (word : UInt64) :
    keyOf weight word = none := by
  simp only [keyOf, h, Bool.false_and, Bool.false_eq_true, if_false]

theorem reservoirKey_of_not_isWeight {weight : α} (h : Scalar.isWeight weight = false) :
    reservoirKey weight = pure none := if_neg (ne_true_of_eq_false h)

theorem isFinite_of_keyOf {weight key : α} {word : UInt64} (h : keyOf weight word = some key) :
    Scalar.isFinite key = true := by
  unfold keyOf at h
  dsimp only at h
  split at h
  · rename_i both
    cases h
    exact (Bool.and_eq_true_iff.1 both).2
  · cases h

/-- How many words are taken for some candidates: one for each weight. -/
def wordCount (candidates : List (Candidate α)) : Nat :=
  candidates.countP (Scalar.isWeight ·.priority)

/-- Candidates with their keys, each weight taking the next word. -/
def keyedBy : List (Candidate α) → List UInt64 → List (Keyed α)
  | [], _ => []
  | c :: rest, words =>
    (keyOf c.priority (words.headD 0), c) ::
      keyedBy rest (if Scalar.isWeight c.priority then words.tail else words)

theorem keyed_eq (candidates : List (Candidate α)) :
    keyed candidates = (Draw.word64.repeated (wordCount candidates)).bind fun words =>
      pure (keyedBy candidates words) := by
  induction candidates with
  | nil => rfl
  | cons c rest ih =>
    have step : keyed (c :: rest) = (reservoirKey c.priority).bind fun key =>
      (keyed rest).bind fun others => pure ((key, c) :: others) := rfl
    rw [step, ih]
    by_cases weight : Scalar.isWeight c.priority = true
    · have more : wordCount (c :: rest) = wordCount rest + 1 := List.countP_cons_of_pos weight
      rw [reservoirKey_of_isWeight weight, more, repeated_succ_bind, Script.bind_assoc]
      congr 1
      funext word
      simp only [keyedBy, weight, if_true, List.headD_cons, List.tail_cons]
      exact Script.bind_assoc _ _ _
    · have same : wordCount (c :: rest) = wordCount rest := List.countP_cons_of_neg weight
      rw [reservoirKey_of_not_isWeight (eq_false_of_ne_true weight), same]
      simp only [keyedBy, weight, if_false, Bool.false_eq_true,
        keyOf_of_not_isWeight (eq_false_of_ne_true weight)]
      exact Script.bind_assoc _ _ _

theorem getElem?_keyedBy (candidates : List (Candidate α)) (words : List UInt64) (i : Nat) :
    (keyedBy candidates words)[i]? = candidates[i]?.map fun c =>
      (keyOf c.priority (words.getD (wordCount (candidates.take i)) 0), c) := by
  induction candidates generalizing words i with
  | nil => rfl
  | cons c rest ih =>
    cases i with
    | zero => cases words <;> rfl
    | succ i =>
      rw [keyedBy, List.getElem?_cons_succ, List.getElem?_cons_succ, ih, List.take_succ_cons]
      by_cases weight : Scalar.isWeight c.priority = true
      · have more : wordCount (c :: rest.take i) = wordCount (rest.take i) + 1 :=
          List.countP_cons_of_pos weight
        rw [if_pos weight, more]
        cases words <;> rfl
      · have same : wordCount (c :: rest.take i) = wordCount (rest.take i) :=
          List.countP_cons_of_neg weight
        rw [if_neg weight, same]

theorem getElem?_keyedBy_of_some {candidates : List (Candidate α)} {i : Nat} {c : Candidate α}
    (found : candidates[i]? = some c) (words : List UInt64) :
    (keyedBy candidates words)[i]? =
      some (keyOf c.priority (words.getD (wordCount (candidates.take i)) 0), c) := by
  rw [getElem?_keyedBy, found, Option.map_some]

@[simp] theorem map_snd_keyedBy (candidates : List (Candidate α)) (words : List UInt64) :
    (keyedBy candidates words).map Prod.snd = candidates := by
  induction candidates generalizing words with
  | nil => rfl
  | cons c rest ih => rw [keyedBy, List.map_cons, ih]

@[simp] theorem length_keyedBy (candidates : List (Candidate α)) (words : List UInt64) :
    (keyedBy candidates words).length = candidates.length := by
  rw [← List.length_map, map_snd_keyedBy]

theorem isFinite_of_mem_keyedBy {candidates : List (Candidate α)} {words : List UInt64}
    {x : Keyed α} (mem : x ∈ keyedBy candidates words) :
    ∀ key ∈ x.1, Scalar.isFinite key = true := by
  obtain ⟨i, found⟩ := List.mem_iff_getElem?.1 mem
  rw [getElem?_keyedBy] at found
  obtain ⟨c, -, rfl⟩ := Option.map_eq_some_iff.1 found
  exact fun key => isFinite_of_keyOf

end Keys

/-! ### Order -/

def Precedes (x y : Keyed α) : Prop :=
  y.2.cpuTime < x.2.cpuTime ∨ x.2.cpuTime = y.2.cpuTime ∧ keyBelow y.1 x.1 = true

theorem mayPrecede_iff {x y : Keyed α} : mayPrecede x y = true ↔ ¬ Precedes y x := by
  unfold mayPrecede Precedes
  simp only [Bool.or_eq_true, decide_eq_true_eq, Bool.and_eq_true, beq_iff_eq, Bool.not_eq_true']
  have order := Nat.lt_trichotomy x.2.cpuTime y.2.cpuTime
  cases keyBelow x.1 y.1 <;>
    simp only [Bool.false_eq_true, Bool.true_eq_false, and_true, and_false, or_false] <;> omega

/-- The place stands before another one in a stable order. -/
def Before (found : List (Keyed α)) (i j : Nat) : Prop :=
  ∃ x y, found[i]? = some x ∧ found[j]? = some y ∧ (Precedes x y ∨ ¬ Precedes y x ∧ i < j)

def places (found : List (Keyed α)) : List Nat :=
  (found.zipIdx.mergeSort (List.zipIdxLE mayPrecede)).map Prod.snd

def Comparable (found : List (Keyed α)) : Prop :=
  ∀ x ∈ found, ∀ key ∈ x.1, Scalar.isFinite key = true

section Sorting

variable {β : Type} {le : β → β → Bool}

theorem pairwise_mergeSort_of_mem {xs : List β}
    (trans : ∀ x ∈ xs, ∀ y ∈ xs, ∀ z ∈ xs, le x y = true → le y z = true → le x z = true)
    (total : ∀ x ∈ xs, ∀ y ∈ xs, (le x y || le y x) = true) :
    (xs.mergeSort le).Pairwise fun x y => le x y = true := by
  have sorted : (xs.attach.mergeSort fun x y => le x.1 y.1).Pairwise fun x y =>
      le x.1 y.1 = true :=
    List.pairwise_mergeSort (fun x y z => trans x.1 x.2 y.1 y.2 z.1 z.2)
      (fun x y => total x.1 x.2 y.1 y.2) xs.attach
  have same := List.map_mergeSort (r := fun x y : { x // x ∈ xs } => le x.1 y.1) (s := le)
    (f := Subtype.val) (l := xs.attach) fun _ _ _ _ => rfl
  rw [List.attach_map_subtype_val] at same
  rw [← same]
  exact List.pairwise_map.2 sorted

end Sorting

theorem zipIdxLE_iff {x y : Keyed α × Nat} :
    List.zipIdxLE mayPrecede x y = true ↔
      ¬ Precedes y.1 x.1 ∧ (Precedes x.1 y.1 ∨ x.2 ≤ y.2) := by
  unfold List.zipIdxLE
  by_cases first : Precedes y.1 x.1 <;> by_cases second : Precedes x.1 y.1 <;>
    simp [mayPrecede_iff, first, second]

theorem perm_places (found : List (Keyed α)) :
    (places found).Perm (List.range found.length) := by
  have sorted := (List.mergeSort_perm found.zipIdx (List.zipIdxLE mayPrecede)).map Prod.snd
  rwa [List.zipIdx_map_snd, ← List.range_eq_range'] at sorted

section Ordered

variable [Scalar.Ordered α]

theorem keyBelow_asymm {x y : Option α} (h : keyBelow x y = true) : keyBelow y x = false := by
  cases x with
  | none =>
    cases y with
    | none => cases h
    | some y => rfl
  | some x =>
    cases y with
    | none => cases h
    | some y => exact decide_eq_false (Scalar.Ordered.asymm (of_decide_eq_true h))

theorem keyBelow_between {x y z : Option α} (finite : ∀ key ∈ y, Scalar.isFinite key = true)
    (h : keyBelow x z = true) : keyBelow x y = true ∨ keyBelow y z = true := by
  cases y with
  | none =>
    cases z with
    | none => cases x <;> cases h
    | some z => exact .inr rfl
  | some y =>
    cases x with
    | none => exact .inl rfl
    | some x =>
      cases z with
      | none => cases h
      | some z =>
        exact (Scalar.Ordered.between y (finite y rfl) (of_decide_eq_true h)).imp
          decide_eq_true decide_eq_true

theorem Precedes.asymm {x y : Keyed α} (h : Precedes x y) : ¬ Precedes y x := by
  rintro (more | ⟨same, below⟩)
  · rcases h with more' | ⟨same, -⟩ <;> omega
  · rcases h with more | ⟨-, below'⟩
    · omega
    · rw [keyBelow_asymm below] at below'
      cases below'

theorem Precedes.between {x y z : Keyed α} (h : Precedes x z)
    (finite : ∀ key ∈ y.1, Scalar.isFinite key = true) : Precedes x y ∨ Precedes y z := by
  unfold Precedes at *
  rcases h with more | ⟨same, below⟩
  · by_cases above : y.2.cpuTime < x.2.cpuTime
    · exact .inl (.inl above)
    · exact .inr (.inl (by omega))
  · rcases Nat.lt_trichotomy x.2.cpuTime y.2.cpuTime with less | equal | more
    · exact .inr (.inl (by omega))
    · rcases keyBelow_between finite below with right | left
      · exact .inr (.inr ⟨by omega, right⟩)
      · exact .inl (.inr ⟨equal, left⟩)
    · exact .inl (.inl more)

theorem Before.asymm {found : List (Keyed α)} {i j : Nat} (h : Before found i j) :
    ¬ Before found j i := by
  rintro ⟨y', x', foundY, foundX, order'⟩
  obtain ⟨x, y, foundX', foundY', order⟩ := h
  cases foundX.symm.trans foundX'
  cases foundY.symm.trans foundY'
  rcases order with first | ⟨tied, less⟩
  · rcases order' with second | ⟨tied, -⟩
    · exact first.asymm second
    · exact tied first
  · rcases order' with second | ⟨-, less'⟩
    · exact tied second
    · omega

theorem zipIdxLE_trans {x y z : Keyed α × Nat}
    (finiteX : ∀ key ∈ x.1.1, Scalar.isFinite key = true)
    (finiteY : ∀ key ∈ y.1.1, Scalar.isFinite key = true)
    (finiteZ : ∀ key ∈ z.1.1, Scalar.isFinite key = true)
    (first : List.zipIdxLE mayPrecede x y = true) (second : List.zipIdxLE mayPrecede y z = true) :
    List.zipIdxLE mayPrecede x z = true := by
  rw [zipIdxLE_iff] at first second ⊢
  refine ⟨fun above => (above.between finiteY).elim second.1 first.1, ?_⟩
  rcases first.2 with strict | early
  · exact .inl ((strict.between finiteZ).resolve_right second.1)
  · rcases second.2 with strict | early'
    · exact .inl ((strict.between finiteX).resolve_left first.1)
    · exact .inr (Nat.le_trans early early')

theorem zipIdxLE_total (x y : Keyed α × Nat) :
    (List.zipIdxLE mayPrecede x y || List.zipIdxLE mayPrecede y x) = true := by
  rw [Bool.or_eq_true, zipIdxLE_iff, zipIdxLE_iff]
  by_cases first : Precedes x.1 y.1
  · exact .inl ⟨first.asymm, .inl first⟩
  · by_cases second : Precedes y.1 x.1
    · exact .inr ⟨second.asymm, .inl second⟩
    · exact (Nat.le_total x.2 y.2).imp (fun le => ⟨second, .inr le⟩) fun le => ⟨first, .inr le⟩

theorem pairwise_places {found : List (Keyed α)} (comparable : Comparable found) :
    (places found).Pairwise (Before found) := by
  have finite {e : Keyed α × Nat} (here : e ∈ found.zipIdx) :=
    comparable e.1 (List.mem_of_getElem? (List.mem_zipIdx_iff_getElem?.1 here))
  have sorted : (found.zipIdx.mergeSort (List.zipIdxLE mayPrecede)).Pairwise fun x y =>
      List.zipIdxLE mayPrecede x y = true :=
    pairwise_mergeSort_of_mem
      (fun x hereX y hereY z hereZ => zipIdxLE_trans (finite hereX) (finite hereY) (finite hereZ))
      fun x _ y _ => zipIdxLE_total x y
  have distinct : (places found).Nodup := (perm_places found).nodup_iff.2 List.nodup_range
  have listed : ∀ e ∈ found.zipIdx.mergeSort (List.zipIdxLE mayPrecede), found[e.2]? = some e.1 :=
    fun e mem => List.mem_zipIdx_iff_getElem?.1 (List.mem_mergeSort.1 mem)
  refine List.pairwise_map.2 ((sorted.and (List.pairwise_map.1 distinct)).imp_of_mem ?_)
  rintro x y hereX hereY ⟨le, different⟩
  rw [zipIdxLE_iff] at le
  refine ⟨x.1, y.1, listed x hereX, listed y hereY, ?_⟩
  by_cases strict : Precedes x.1 y.1
  · exact .inl strict
  · exact .inr ⟨le.1, Nat.lt_of_le_of_ne (le.2.resolve_left strict) different⟩

end Ordered

/-- All places, each before those that it stands before. -/
structure StableOrder (found : List (Keyed α)) (order : List Nat) : Prop where
  perm : order.Perm (List.range found.length)
  sorted : order.Pairwise (Before found)

theorem StableOrder.nodup {found : List (Keyed α)} {order : List Nat}
    (h : StableOrder found order) : order.Nodup := h.perm.nodup_iff.2 List.nodup_range

theorem StableOrder.unique [Scalar.Ordered α] {found : List (Keyed α)} {order order' : List Nat}
    (h : StableOrder found order) (h' : StableOrder found order') : order' = order :=
  List.Perm.eq_of_pairwise (fun _ _ _ _ first second => absurd second first.asymm) h'.sorted
    h.sorted (h'.perm.trans h.perm.symm)

/-! ### Ranking -/

def candidatesAt (candidates : List (Candidate α)) (kept : List Nat) : List (Candidate α) :=
  kept.filterMap (candidates[·]?)

theorem take_mergeSort_eq (found : List (Keyed α)) (limit : Nat) :
    ((found.mergeSort mayPrecede).take limit).map Prod.snd =
      candidatesAt (found.map Prod.snd) ((places found).take limit) := by
  have there : ∀ e ∈ (found.zipIdx.mergeSort (List.zipIdxLE mayPrecede)).take limit,
      (found.map Prod.snd)[e.2]? = some e.1.2 := by
    intro e mem
    have here := List.mem_mergeSort.1 (List.mem_of_mem_take mem)
    rw [List.getElem?_map, List.mem_zipIdx_iff_getElem?.1 here, Option.map_some]
  rw [places, candidatesAt, ← List.map_take, List.filterMap_map, ← List.mergeSort_zipIdx,
    ← List.map_take, List.map_map]
  exact (List.filterMap_eq_map_iff_forall_eq_some.2 there).symm

variable [Logarithm α]

def keptPlaces (candidates : List (Candidate α)) (limit : Nat) (words : List UInt64) : List Nat :=
  (places (keyedBy candidates words)).take limit

theorem rank_eq (candidates : List (Candidate α)) (limit : Nat) :
    rank candidates limit = (Draw.word64.repeated (wordCount candidates)).bind fun words =>
      pure (candidatesAt candidates (keptPlaces candidates limit words)) := by
  have ranked : rank candidates limit = (keyed candidates).bind fun found =>
    pure (((found.mergeSort mayPrecede).take limit).map Prod.snd) := rfl
  rw [ranked, keyed_eq, Script.bind_assoc]
  congr 1
  funext words
  change pure _ = pure _
  rw [take_mergeSort_eq, map_snd_keyedBy]
  rfl

section Kept

variable (candidates : List (Candidate α)) (words : List UInt64)

theorem mem_places_iff {i : Nat} :
    i ∈ places (keyedBy candidates words) ↔ i < candidates.length := by
  rw [(perm_places _).mem_iff, List.mem_range, length_keyedBy]

theorem map_some_candidatesAt (limit : Nat) :
    (candidatesAt candidates (keptPlaces candidates limit words)).map some =
      (keptPlaces candidates limit words).map (candidates[·]?) := by
  have inside : ∀ i ∈ keptPlaces candidates limit words, i < candidates.length :=
    fun i mem => (mem_places_iff _ _).1 (List.mem_of_mem_take mem)
  rw [candidatesAt]
  generalize keptPlaces candidates limit words = kept at inside
  induction kept with
  | nil => rfl
  | cons i kept ih =>
    obtain ⟨here, later⟩ := List.forall_mem_cons.1 inside
    have found := List.getElem?_eq_getElem here
    rw [List.filterMap_cons_some found, List.map_cons, List.map_cons, ih later, found]

theorem length_candidatesAt (limit : Nat) :
    (candidatesAt candidates (keptPlaces candidates limit words)).length =
      min limit candidates.length := by
  have listed := congrArg List.length (map_some_candidatesAt candidates words limit)
  rw [List.length_map, List.length_map] at listed
  rw [listed, keptPlaces, List.length_take, (perm_places _).length_eq, List.length_range,
    length_keyedBy]

variable [Scalar.Ordered α]

theorem stableOrder_places :
    StableOrder (keyedBy candidates words) (places (keyedBy candidates words)) :=
  ⟨perm_places _, pairwise_places fun _ mem => isFinite_of_mem_keyedBy mem⟩

theorem pairwise_candidatesAt {r : Candidate α → Candidate α → Prop}
    (holds : ∀ i j c d, Before (keyedBy candidates words) i j → candidates[i]? = some c →
      candidates[j]? = some d → r c d) (limit : Nat) :
    (candidatesAt candidates (keptPlaces candidates limit words)).Pairwise r :=
  List.pairwise_filterMap.2 (((stableOrder_places candidates words).sorted.sublist
    (List.take_sublist _ _)).imp fun before _ foundC _ foundD => holds _ _ _ _ before foundC foundD)

theorem before_of_dropped {limit i j : Nat} (kept : i ∈ keptPlaces candidates limit words)
    (inside : j < candidates.length) (lost : j ∉ keptPlaces candidates limit words) :
    Before (keyedBy candidates words) i j := by
  have listed := (mem_places_iff candidates words).2 inside
  have sorted := (stableOrder_places candidates words).sorted
  rw [← List.take_append_drop limit (places _), List.mem_append] at listed
  rw [← List.take_append_drop limit (places _), List.pairwise_append] at sorted
  exact sorted.2.2 i kept j (listed.resolve_left lost)

end Kept

theorem cpuTime_le_of_before {candidates : List (Candidate α)} {words : List UInt64} {i j : Nat}
    {c d : Candidate α} (before : Before (keyedBy candidates words) i j)
    (foundC : candidates[i]? = some c) (foundD : candidates[j]? = some d) :
    d.cpuTime ≤ c.cpuTime := by
  obtain ⟨_, _, foundX, foundY, order⟩ := before
  cases foundX.symm.trans (getElem?_keyedBy_of_some foundC words)
  cases foundY.symm.trans (getElem?_keyedBy_of_some foundD words)
  rcases order with (more | ⟨equal, -⟩) | ⟨tied, -⟩
  · exact Nat.le_of_lt more
  · exact Nat.le_of_eq equal.symm
  · exact Nat.le_of_not_lt fun more => tied (.inl more)

structure Ranks (candidates : List (Candidate α)) (limit : Nat) : Prop where
  /-- One word is drawn for each weight, in the order of the candidates, and nothing else. -/
  draws : rank candidates limit = (Draw.word64.repeated (wordCount candidates)).bind fun words =>
    pure (candidatesAt candidates (keptPlaces candidates limit words))
  /-- There is one stable order by CPU time and key, and its first places are kept. -/
  order : ∀ words, ∃ order, StableOrder (keyedBy candidates words) order ∧
    (∀ other, StableOrder (keyedBy candidates words) other → other = order) ∧
      keptPlaces candidates limit words = order.take limit
  listed : ∀ words, (candidatesAt candidates (keptPlaces candidates limit words)).map some =
    (keptPlaces candidates limit words).map (candidates[·]?)
  length : ∀ words, (candidatesAt candidates (keptPlaces candidates limit words)).length =
    min limit candidates.length
  distinct : ∀ words, (keptPlaces candidates limit words).Nodup
  cpuTime : ∀ words, (candidatesAt candidates (keptPlaces candidates limit words)).Pairwise
    fun c d => d.cpuTime ≤ c.cpuTime
  /-- What is dropped does not stand before what is kept. -/
  dropped : ∀ words, ∀ i ∈ keptPlaces candidates limit words, ∀ j < candidates.length,
    j ∉ keptPlaces candidates limit words → ¬ Before (keyedBy candidates words) j i

theorem ranks [Scalar.Ordered α] (candidates : List (Candidate α)) (limit : Nat) :
    Ranks candidates limit where
  draws := rank_eq candidates limit
  order words := ⟨_, stableOrder_places candidates words,
    fun _ => (stableOrder_places candidates words).unique, rfl⟩
  listed words := map_some_candidatesAt candidates words limit
  length words := length_candidatesAt candidates words limit
  distinct words := (stableOrder_places candidates words).nodup.sublist (List.take_sublist _ _)
  cpuTime words := pairwise_candidatesAt candidates words
    (fun _ _ _ _ before => cpuTime_le_of_before before) limit
  dropped words _ kept _ inside lost :=
    (before_of_dropped candidates words kept inside lost).asymm

/-! ### Exact keys -/

noncomputable def unitOf (word : UInt64) : ℝ := (word >>> 11).toNat / 2 ^ 53

theorem unitOf_nonneg (word : UInt64) : 0 ≤ unitOf word := by
  unfold unitOf
  positivity

theorem unitOf_lt_one (word : UInt64) : unitOf word < 1 := by
  have bound : (word >>> 11).toNat < 2 ^ 53 := by
    rw [UInt64.toNat_shiftRight, Nat.shiftRight_eq_div_pow]
    have := word.toNat_lt
    exact Nat.div_lt_of_lt_mul this
  rw [unitOf, div_lt_one (by positivity)]
  exact_mod_cast bound

theorem keyOf_number {w : ℝ} (positive : 0 < w) (word : UInt64) :
    keyOf (Exact.number w) word = some (.number (Real.log (1 - unitOf word) / w)) := by
  have unit : (Scalar.ofInt (word >>> 11).toNat / Scalar.ofInt (Nat.pow 2 53) : Exact) =
      .number (unitOf word) := by
    have size : (((Nat.pow 2 53 : ℕ) : ℤ) : ℝ) = 2 ^ 53 := by norm_num
    rw [Exact.ofInt_eq, Exact.ofInt_eq, size, Exact.number_div _ (by positivity), Int.cast_natCast,
      unitOf]
  have weight := Exact.isWeight_iff.2 ⟨w, positive, rfl⟩
  -- The logarithm is taken of a positive number, so that no key is lost.
  have rest : 0 < 1 - unitOf word := sub_pos.2 (unitOf_lt_one word)
  unfold keyOf
  simp only [unit, weight, Exact.one_eq, Exact.number_sub, Exact.ln_number rest,
    Exact.number_div _ positive.ne']
  rfl

/-- Weights stand before what is no weight, as far as CPU time allows. -/
structure WeightsFirst (candidates : List (Candidate Exact)) : Prop where
  before : ∀ words i j c d, candidates[i]? = some c → candidates[j]? = some d →
    c.cpuTime = d.cpuTime → Scalar.isWeight c.priority = true →
      Scalar.isWeight d.priority = false → Before (keyedBy candidates words) i j
  kept : ∀ words limit, (candidatesAt candidates (keptPlaces candidates limit words)).Pairwise
    fun c d => c.cpuTime = d.cpuTime → Scalar.isWeight d.priority = true →
      Scalar.isWeight c.priority = true

theorem before_of_isWeight {candidates : List (Candidate Exact)} (words : List UInt64) {i j : Nat}
    {c d : Candidate Exact} (foundC : candidates[i]? = some c) (foundD : candidates[j]? = some d)
    (same : c.cpuTime = d.cpuTime) (weight : Scalar.isWeight c.priority = true)
    (other : Scalar.isWeight d.priority = false) : Before (keyedBy candidates words) i j := by
  obtain ⟨w, positive, number⟩ := Exact.isWeight_iff.1 weight
  refine ⟨_, _, getElem?_keyedBy_of_some foundC words, getElem?_keyedBy_of_some foundD words,
    .inl (.inr ⟨same, ?_⟩)⟩
  rw [number, keyOf_number positive, keyOf_of_not_isWeight other]
  rfl

theorem weightsFirst (candidates : List (Candidate Exact)) : WeightsFirst candidates where
  before words _ _ _ _ := before_of_isWeight words
  kept words limit := by
    refine pairwise_candidatesAt candidates words (fun i j c d before foundC foundD => ?_) limit
    intro same weight
    by_contra other
    exact before.asymm
      (before_of_isWeight words foundD foundC same.symm weight (eq_false_of_ne_true other))

/-- Ranking doubles is sorting stably by the keys that their words give; with exact keys no weight
comes after what is no weight. -/
theorem ranks_stably :
    (∀ (candidates : List (Candidate Float)) (limit : Nat), Ranks candidates limit) ∧
      ∀ (candidates : List (Candidate Exact)) (limit : Nat),
        Ranks candidates limit ∧ WeightsFirst candidates :=
  ⟨ranks, fun candidates limit => ⟨ranks candidates limit, weightsFirst candidates⟩⟩

end Matchmaker.Random
