import Matchmaker.Queue.Segments
import Mathlib.Data.Nat.Basic
import Mathlib.Order.Bounds.Defs
import Mathlib.Order.Monotone.Defs

/-!
The segment of a time is the least boundary not below it, or the last one. More time never goes to
a lower segment, and a boundary below the last one separates times as it separates their segments.
-/
namespace Matchmaker

/-! ### Accepted boundaries -/

theorem ascendingPairs_iff {xs : List Nat} :
    ascendingPairs xs = true ↔ xs.Pairwise (· < ·) := by
  refine ⟨pairwise_of_ascendingPairs, fun ordered => ?_⟩
  induction xs with
  | nil => rfl
  | cons first tail ih =>
    cases tail with
    | nil => rfl
    | cons second rest =>
      have below : first < second := List.rel_of_pairwise_cons ordered List.mem_cons_self
      simp only [ascendingPairs, Bool.and_eq_true, decide_eq_true_eq]
      exact ⟨below, ih ordered.of_cons⟩

namespace Segments

theorem ofList_eq_ok_iff {xs : List Nat} {s : Segments} :
    ofList xs = .ok s ↔ s.boundaries = xs := by
  unfold ofList
  constructor
  · intro made
    split at made
    · cases made
    · split at made
      · cases made
        rfl
      · cases made
  · rintro rfl
    rw [dif_neg s.nonempty, dif_pos (ascendingPairs_iff.2 s.ascending)]

theorem exists_ofList_iff {xs : List Nat} :
    (∃ s, ofList xs = .ok s) ↔ xs ≠ [] ∧ xs.Pairwise (· < ·) := by
  simp only [ofList_eq_ok_iff]
  constructor
  · rintro ⟨s, rfl⟩
    exact ⟨s.nonempty, s.ascending⟩
  · intro ⟨nonempty, ascending⟩
    exact ⟨⟨xs, nonempty, ascending⟩, rfl⟩

/-! ### Segments of times -/

variable (s : Segments)

theorem le_getLast {boundary : Nat} (mem : boundary ∈ s.boundaries) :
    boundary ≤ s.boundaries.getLast s.nonempty := by
  rw [← List.dropLast_concat_getLast s.nonempty] at mem
  rcases List.mem_append.1 mem with before | last
  · have ordered := s.ascending
    rw [← List.dropLast_concat_getLast s.nonempty, List.pairwise_append] at ordered
    exact Nat.le_of_lt (ordered.2.2 _ before _ List.mem_cons_self)
  · exact Nat.le_of_eq (List.mem_singleton.1 last)

theorem bucket_mem (time : Nat) : s.bucket time ∈ s.boundaries := by
  unfold bucket
  cases found : s.boundaries.find? fun boundary => time ≤ boundary with
  | none => exact List.getLast_mem s.nonempty
  | some boundary => exact List.mem_of_find?_eq_some found

theorem le_bucket {time boundary : Nat} (mem : boundary ∈ s.boundaries) (above : time ≤ boundary) :
    time ≤ s.bucket time := by
  unfold bucket
  cases found : s.boundaries.find? fun boundary => time ≤ boundary with
  | none => exact absurd above (by simpa using List.find?_eq_none.1 found boundary mem)
  | some first => simpa using List.find?_some found

theorem bucket_le {time boundary : Nat} (mem : boundary ∈ s.boundaries)
    (above : time ≤ boundary) : s.bucket time ≤ boundary := by
  unfold bucket
  cases found : s.boundaries.find? fun boundary => time ≤ boundary with
  | none => exact absurd above (by simpa using List.find?_eq_none.1 found boundary mem)
  | some first =>
    obtain ⟨-, before, after, split, below⟩ := List.find?_eq_some_iff_append.1 found
    have ordered := s.ascending
    rw [split] at mem ordered
    rcases List.mem_append.1 mem with early | late
    · have short := below boundary early
      simp only [Bool.not_eq_true', decide_eq_false_iff_not] at short
      exact absurd above short
    · rcases List.mem_cons.1 late with same | later
      · exact Nat.le_of_eq same.symm
      · have sorted := (List.pairwise_append.1 ordered).2.1
        exact Nat.le_of_lt ((List.pairwise_cons.1 sorted).1 boundary later)

theorem bucket_mono {time more : Nat} (h : time ≤ more) : s.bucket time ≤ s.bucket more := by
  cases found : s.boundaries.find? fun boundary => more ≤ boundary with
  | none =>
    have last : s.bucket more = s.boundaries.getLast s.nonempty := by
      rw [bucket, found, Option.getD_none]
    rw [last]
    exact s.le_getLast (s.bucket_mem time)
  | some boundary =>
    have above : more ≤ boundary := by simpa using List.find?_some found
    have reached := s.le_bucket (List.mem_of_find?_eq_some found) above
    exact s.bucket_le (s.bucket_mem more) (Nat.le_trans h reached)

theorem bucket_isLeast {time boundary : Nat} (mem : boundary ∈ s.boundaries)
    (above : time ≤ boundary) :
    IsLeast {b | b ∈ s.boundaries ∧ time ≤ b} (s.bucket time) :=
  ⟨⟨s.bucket_mem time, s.le_bucket mem above⟩, fun _ other => s.bucket_le other.1 other.2⟩

theorem bucket_of_lt {time : Nat} (h : ∀ boundary ∈ s.boundaries, boundary < time) :
    s.bucket time = s.boundaries.getLast s.nonempty := by
  have none : s.boundaries.find? (fun boundary => time ≤ boundary) = none := by
    apply List.find?_eq_none.2
    simpa using h
  rw [bucket, none, Option.getD_none]

theorem bucket_eq_self {boundary : Nat} (mem : boundary ∈ s.boundaries) :
    s.bucket boundary = boundary :=
  Nat.le_antisymm (s.bucket_le mem (Nat.le_refl _)) (s.le_bucket mem (Nat.le_refl _))

theorem le_iff_bucket_le {boundary : Nat} (mem : boundary ∈ s.boundaries)
    (inner : boundary ≠ s.boundaries.getLast s.nonempty) (time : Nat) :
    time ≤ boundary ↔ s.bucket time ≤ boundary := by
  refine ⟨s.bucket_le mem, fun below => ?_⟩
  by_cases covered : ∃ b ∈ s.boundaries, time ≤ b
  · obtain ⟨b, listed, above⟩ := covered
    exact Nat.le_trans (s.le_bucket listed above) below
  · -- Above all boundaries the segment is the last one, which is not below another boundary.
    have last : s.bucket time = _ := s.bucket_of_lt (by simpa using covered)
    have most := s.le_getLast mem
    omega

structure Rounds : Prop where
  mem : ∀ time, s.bucket time ∈ s.boundaries
  /-- The least boundary from the time on, where there is one. -/
  least : ∀ time, (∃ boundary ∈ s.boundaries, time ≤ boundary) →
    IsLeast {boundary | boundary ∈ s.boundaries ∧ time ≤ boundary} (s.bucket time)
  last : ∀ time, (∀ boundary ∈ s.boundaries, boundary < time) →
    s.bucket time = s.boundaries.getLast s.nonempty
  mono : Monotone s.bucket
  idem : ∀ time, s.bucket (s.bucket time) = s.bucket time
  embeds : ∀ boundary ∈ s.boundaries, boundary ≠ s.boundaries.getLast s.nonempty →
    ∀ time, time ≤ boundary ↔ s.bucket time ≤ boundary

theorem rounds : s.Rounds where
  mem := s.bucket_mem
  least := fun _ ⟨_, mem, above⟩ => s.bucket_isLeast mem above
  last := fun _ => s.bucket_of_lt
  mono := fun _ _ => s.bucket_mono
  idem := fun time => s.bucket_eq_self (s.bucket_mem time)
  embeds := fun _ => s.le_iff_bucket_le

/-- Boundaries are accepted exactly when there are some and each is smaller than every later one,
and then they round times. -/
theorem rounds_of_ofList (xs : List Nat) :
    ((∃ s, ofList xs = .ok s) ↔ xs ≠ [] ∧ xs.Pairwise (· < ·)) ∧
      ∀ s, ofList xs = .ok s → s.boundaries = xs ∧ s.Rounds :=
  ⟨exists_ofList_iff, fun s made => ⟨ofList_eq_ok_iff.1 made, s.rounds⟩⟩

end Segments

end Matchmaker
