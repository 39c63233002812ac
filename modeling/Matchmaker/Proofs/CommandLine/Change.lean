import Matchmaker.CommandLine.Change
import Matchmaker.Proofs.Decimal.Literal

/-!
A change of a priority is read at the last equals sign, since none stands in a number: whatever the
job is called, the change that was written comes back, and nothing of what is read gets lost.
-/
namespace Matchmaker

/-! ### The last separator -/

section Splitting

variable {c : Char} {cs before after : List Char}

theorem splitAtLast_eq_none_iff : splitAtLast c cs = none ↔ c ∉ cs := by
  fun_induction splitAtLast c cs with
  | case1 => exact ⟨fun _ => List.not_mem_nil, fun _ => rfl⟩
  | case2 x xs front back split ih =>
    rw [split] at ih
    simpa using fun _ => ih
  | case3 xs none ih => simp
  | case4 x xs none other ih =>
    have first : c ≠ x := fun same => other same.symm
    simpa [first] using ih.1 none

theorem splitAtLast_append (before : List Char) (last : c ∉ after) :
    splitAtLast c (before ++ c :: after) = some (before, after) := by
  induction before with
  | nil =>
    rw [List.nil_append, splitAtLast, splitAtLast_eq_none_iff.2 last]
    exact if_pos rfl
  | cons x before ih => rw [List.cons_append, splitAtLast, ih]

theorem exists_of_splitAtLast (h : splitAtLast c cs = some (before, after)) :
    cs = before ++ c :: after ∧ c ∉ after := by
  fun_induction splitAtLast c cs generalizing before after with
  | case1 => cases h
  | case2 x xs front back split ih =>
    cases h
    obtain ⟨rfl, last⟩ := ih split
    exact ⟨rfl, last⟩
  | case3 xs none =>
    cases h
    exact ⟨rfl, splitAtLast_eq_none_iff.1 none⟩
  | case4 => cases h

theorem splitAtLast_eq_some_iff :
    splitAtLast c cs = some (before, after) ↔ cs = before ++ c :: after ∧ c ∉ after := by
  refine ⟨exists_of_splitAtLast, ?_⟩
  rintro ⟨rfl, last⟩
  exact splitAtLast_append before last

end Splitting

namespace PriorityChange

def text (c : PriorityChange) : String := c.job ++ "=" ++ Decimal.intText c.priority

theorem read_eq_ok_iff_splitAtLast {text : String} {c : PriorityChange} :
    read text = .ok c ↔ ∃ number, splitAtLast '=' text.toList = some (c.job.toList, number) ∧
      c.job ≠ "" ∧ Decimal.readInt (String.ofList number) = .ok c.priority := by
  unfold read
  constructor
  · intro h
    split at h
    · cases h
    · cases h
    · rename_i job number filled split
      split at h
      · cases h
      · rename_i n value
        cases h
        refine ⟨number, by rw [split, String.toList_ofList], fun empty => filled ?_, value⟩
        rwa [String.ofList_eq_empty_iff] at empty
  · rintro ⟨number, split, filled, value⟩
    rw [split]
    cases job : c.job.toList with
    | nil => exact absurd (String.toList_eq_nil_iff.1 job) filled
    | cons first rest =>
      dsimp only
      rw [value, ← job, String.ofList_toList]

theorem toList_eq_iff {text job : String} {number : List Char} :
    text.toList = job.toList ++ '=' :: number ↔ text = job ++ "=" ++ String.ofList number := by
  rw [← String.toList_inj]
  simp [String.toList_append]

theorem separator_not_mem {number : List Char} {n : Int} (h : Decimal.SignedNumeral number n) :
    '=' ∉ number := h.not_mem (by decide) (by decide) (by decide)

theorem read_eq_ok_iff {text : String} {c : PriorityChange} :
    read text = .ok c ↔ c.job ≠ "" ∧ (-2 ^ 63 ≤ c.priority ∧ c.priority < 2 ^ 63) ∧
      ∃ number : String, text = c.job ++ "=" ++ number ∧
        Decimal.SignedNumeral number.toList c.priority := by
  rw [read_eq_ok_iff_splitAtLast]
  simp only [splitAtLast_eq_some_iff, Decimal.readInt_eq_ok_iff, toList_eq_iff,
    String.toList_ofList]
  constructor
  · rintro ⟨number, ⟨written, -⟩, named, fits, numeral⟩
    exact ⟨named, fits, String.ofList number, written, by rwa [String.toList_ofList]⟩
  · rintro ⟨named, fits, number, written, numeral⟩
    rw [← String.ofList_toList (s := number)] at written
    exact ⟨number.toList, ⟨written, separator_not_mem numeral⟩, named, fits, numeral⟩

/-- A change of any job is read from its text. What is read is the job, a separator and a number in
which no separator stands. -/
theorem reads_written :
    (∀ c : PriorityChange, c.job ≠ "" → -2 ^ 63 ≤ c.priority ∧ c.priority < 2 ^ 63 →
      read c.text = .ok c) ∧
    ∀ text c, read text = .ok c ↔
      c.job ≠ "" ∧ (-2 ^ 63 ≤ c.priority ∧ c.priority < 2 ^ 63) ∧
        ∃ number : String, text = c.job ++ "=" ++ number ∧ '=' ∉ number.toList ∧
          Decimal.SignedNumeral number.toList c.priority := by
  refine ⟨fun c named fits => ?_, fun text c => ?_⟩
  · have numeral := Decimal.signedNumeral_intText c.priority
    exact read_eq_ok_iff.2 ⟨named, fits, Decimal.intText c.priority, rfl, numeral⟩
  · rw [read_eq_ok_iff]
    refine and_congr_right fun _ => and_congr_right fun _ => exists_congr fun number => ?_
    exact and_congr_right fun _ => ⟨fun numeral => ⟨separator_not_mem numeral, numeral⟩, And.right⟩

theorem reads_written_least :
    "a=b=" ≠ "" ∧ (-2 ^ 63 ≤ (-2 ^ 63 : Int) ∧ (-2 ^ 63 : Int) < 2 ^ 63) ∧
      read (text ⟨"a=b=", -2 ^ 63⟩) = .ok ⟨"a=b=", -2 ^ 63⟩ :=
  ⟨by decide, by decide, reads_written.1 ⟨"a=b=", -2 ^ 63⟩ (by decide) (by decide)⟩

end PriorityChange

end Matchmaker
