import Matchmaker.Text.Blank
import Mathlib.Data.List.TakeWhile

/-!
Trimming. A text is its trimmed form with blanks before and behind, a trimmed form has no blank at
either end, and two texts have the same one exactly when they differ in such blanks only.
-/
namespace Matchmaker.Text

def Blank (s : String) : Prop := ∀ c ∈ s.toList, isBlank c = true

structure Trimmed (s : String) : Prop where
  first : ∀ c ∈ s.toList.head?, isBlank c = false
  last : ∀ c ∈ s.toList.getLast?, isBlank c = false

structure Clean (s : String) : Prop where
  nonempty : s ≠ ""
  trimmed : Trimmed s

/-- The text `s` is `core` with blanks before and behind. -/
def Padded (core s : String) : Prop :=
  ∃ front back : List Char, s.toList = front ++ core.toList ++ back ∧
    (∀ c ∈ front, isBlank c = true) ∧ ∀ c ∈ back, isBlank c = true

def Alike (s t : String) : Prop := ∃ core, Padded core s ∧ Padded core t

/-! ### Characters -/

theorem exists_trimChars (cs : List Char) :
    ∃ front back, cs = front ++ trimChars cs ++ back ∧
      (∀ c ∈ front, isBlank c = true) ∧ ∀ c ∈ back, isBlank c = true := by
  refine ⟨cs.takeWhile isBlank, ((cs.dropWhile isBlank).reverse.takeWhile isBlank).reverse, ?_,
    fun _ => List.mem_takeWhile_imp, fun _ mem => List.mem_takeWhile_imp (List.mem_reverse.1 mem)⟩
  rw [trimChars, List.append_assoc, ← List.reverse_append, List.takeWhile_append_dropWhile,
    List.reverse_reverse, List.takeWhile_append_dropWhile]

theorem trimChars_append {front back : List Char} (h : ∀ c ∈ front, isBlank c = true)
    (h' : ∀ c ∈ back, isBlank c = true) (core : List Char) :
    trimChars (front ++ core ++ back) = trimChars core := by
  have dropped : back.dropWhile isBlank = [] := List.dropWhile_eq_nil_iff.2 h'
  rw [trimChars, trimChars, List.append_assoc, List.dropWhile_append_of_pos h,
    List.dropWhile_append]
  split
  · rename_i nothing
    rw [dropped, List.isEmpty_iff.1 nothing]
  · rw [List.reverse_append, List.dropWhile_append_of_pos]
    simpa using h'

theorem trimChars_eq_nil_iff {cs : List Char} :
    trimChars cs = [] ↔ ∀ c ∈ cs, isBlank c = true := by
  constructor
  · intro nothing
    obtain ⟨front, back, split, before, behind⟩ := exists_trimChars cs
    rw [nothing, List.append_nil] at split
    rw [split]
    simpa [or_imp, forall_and] using ⟨before, behind⟩
  · intro blank
    have none : ∀ c ∈ ([] : List Char), isBlank c = true := by simp
    simpa [trimChars] using trimChars_append blank none []

theorem isBlank_of_head?_dropWhile (cs : List Char) :
    ∀ c ∈ (cs.dropWhile isBlank).head?, isBlank c = false := by
  intro c first
  have stop := List.head?_dropWhile_not isBlank cs
  rwa [Option.mem_def.1 first] at stop

theorem isBlank_of_getLast?_trimChars {cs : List Char} :
    ∀ c ∈ (trimChars cs).getLast?, isBlank c = false := by
  rw [trimChars, List.getLast?_reverse]
  exact isBlank_of_head?_dropWhile _

theorem isBlank_of_head?_trimChars {cs : List Char} :
    ∀ c ∈ (trimChars cs).head?, isBlank c = false := by
  intro c first
  apply isBlank_of_head?_dropWhile cs c
  have split := List.takeWhile_append_dropWhile (p := isBlank)
    (l := (cs.dropWhile isBlank).reverse)
  rw [← List.reverse_inj, List.reverse_append, List.reverse_reverse] at split
  rw [← split, List.head?_append, Option.mem_def, ← trimChars, Option.mem_def.1 first,
    Option.some_or]

theorem dropWhile_eq_self {cs : List Char} (h : ∀ c ∈ cs.head?, isBlank c = false) :
    cs.dropWhile isBlank = cs := by
  cases cs with
  | nil => rfl
  | cons c rest => simp [h c rfl]

/-! ### Texts -/

variable {s t core : String}

@[simp] theorem toList_trim (s : String) : (trim s).toList = trimChars s.toList :=
  String.toList_ofList

theorem trim_eq_empty_iff : trim s = "" ↔ Blank s := by
  rw [← String.toList_inj, toList_trim]
  exact trimChars_eq_nil_iff

theorem content?_of_blank (h : Blank s) : content? s = none :=
  if_pos (String.isEmpty_iff.2 (trim_eq_empty_iff.2 h))

theorem content?_of_not_blank (h : ¬ Blank s) : content? s = some (trim s) :=
  if_neg (mt String.isEmpty_iff.1 (mt trim_eq_empty_iff.1 h))

theorem padded_trim (s : String) : Padded (trim s) s := by
  rw [Padded, toList_trim]
  exact exists_trimChars s.toList

theorem trimmed_trim (s : String) : Trimmed (trim s) where
  first := by
    rw [toList_trim]
    exact isBlank_of_head?_trimChars
  last := by
    rw [toList_trim]
    exact isBlank_of_getLast?_trimChars

theorem Padded.trim_eq (h : Padded core s) : trim s = trim core := by
  obtain ⟨front, back, split, before, behind⟩ := h
  rw [trim, trim, split, trimChars_append before behind]

theorem Trimmed.trim_eq (h : Trimmed s) : trim s = s := by
  have last : s.toList.reverse.dropWhile isBlank = s.toList.reverse := by
    apply dropWhile_eq_self
    rw [List.head?_reverse]
    exact h.last
  rw [← String.toList_inj, toList_trim, trimChars, dropWhile_eq_self h.first, last,
    List.reverse_reverse]

theorem clean_trim (h : ¬ Blank s) : Clean (trim s) :=
  ⟨mt trim_eq_empty_iff.1 h, trimmed_trim s⟩

theorem Clean.not_blank (h : Clean s) : ¬ Blank s := by
  rw [← trim_eq_empty_iff, h.trimmed.trim_eq]
  exact h.nonempty

theorem alike_iff : Alike s t ↔ trim s = trim t := by
  constructor
  · rintro ⟨core, padded, padded'⟩
    rw [padded.trim_eq, padded'.trim_eq]
  · intro same
    refine ⟨trim s, padded_trim s, ?_⟩
    rw [same]
    exact padded_trim t

theorem Alike.blank_iff (h : Alike s t) : Blank s ↔ Blank t := by
  rw [← trim_eq_empty_iff, ← trim_eq_empty_iff, alike_iff.1 h]

end Matchmaker.Text
