import Matchmaker.Decimal.Digits

/-!
A number written in decimal is read back from the front of a text, whatever follows that is no
digit.
-/
namespace Matchmaker.Decimal

theorem digits_lt (n : Nat) : ∀ d ∈ digits n, d < 10 := by
  induction n using digits.induct with
  | case1 n small =>
    intro d mem
    rw [digits, dif_pos small, List.mem_singleton] at mem
    exact mem ▸ small
  | case2 n large ih =>
    intro d mem
    rw [digits, dif_neg large, List.mem_append, List.mem_singleton] at mem
    rcases mem with earlier | rfl
    · exact ih d earlier
    · exact Nat.mod_lt n (by decide)

theorem ofDigits_digits (n : Nat) : ofDigits (digits n) = n := by
  induction n using digits.induct with
  | case1 n small =>
    rw [digits, dif_pos small]
    exact Nat.zero_add n
  | case2 n large ih =>
    have last : ofDigits (digits (n / 10) ++ [n % 10]) = 10 * ofDigits (digits (n / 10)) + n % 10 :=
      List.foldl_append
    rw [digits, dif_neg large, last, ih]
    exact Nat.div_add_mod n 10

theorem digitValue?_digitChar {d : Nat} (h : d < 10) : digitValue? (digitChar d) = some d := by
  have all : ∀ d < 10, digitValue? (digitChar d) = some d := by decide
  exact all d h

theorem digits_ne_nil (n : Nat) : digits n ≠ [] := by
  rw [digits]
  split <;> simp

theorem head?_digits {n : Nat} (h : n ≠ 0) : (digits n).head? ≠ some 0 := by
  induction n using digits.induct with
  | case1 n small =>
    rw [digits, dif_pos small]
    simpa using h
  | case2 n large ih =>
    obtain ⟨d, ds, shown⟩ := List.exists_cons_of_ne_nil (digits_ne_nil (n / 10))
    have first := ih (by omega)
    rw [shown] at first
    rw [digits, dif_neg large, shown]
    exact first

theorem digits_ne_zero_cons (n d : Nat) (ds : List Nat) : digits n ≠ 0 :: d :: ds := by
  intro shown
  by_cases zero : n = 0
  · rw [zero, digits, dif_pos (by decide)] at shown
    cases shown
  · exact head?_digits zero (congrArg List.head? shown)

theorem exists_natChars (n : Nat) : ∃ c rest, natChars n = c :: rest ∧ isDigit c = true := by
  have bound := digits_lt n
  cases shown : digits n with
  | nil => exact absurd shown (digits_ne_nil n)
  | cons d rest =>
    rw [shown] at bound
    refine ⟨digitChar d, rest.map digitChar, congrArg (List.map digitChar) shown, ?_⟩
    rw [isDigit, digitValue?_digitChar (bound d List.mem_cons_self)]
    rfl

theorem takeDigits_map_append {ds : List Nat} {rest : List Char} (bound : ∀ d ∈ ds, d < 10)
    (ends : ∀ c ∈ rest.head?, isDigit c = false) :
    takeDigits (ds.map digitChar ++ rest) = (ds, rest) := by
  induction ds with
  | nil =>
    cases rest with
    | nil => rfl
    | cons c rest => simp [takeDigits, ends c rfl]
  | cons d ds ih =>
    have value := digitValue?_digitChar (bound d List.mem_cons_self)
    have tail := ih fun e mem => bound e (List.mem_cons_of_mem d mem)
    simp only [takeDigits, Prod.mk.injEq] at tail
    simp [takeDigits, isDigit, value, tail]

theorem takeDigits_natChars_append (n : Nat) {rest : List Char}
    (ends : ∀ c ∈ rest.head?, isDigit c = false) :
    takeDigits (natChars n ++ rest) = (digits n, rest) :=
  takeDigits_map_append (digits_lt n) ends

theorem natChars_append_inj {m n : Nat} {rest rest' : List Char}
    (ends : ∀ c ∈ rest.head?, isDigit c = false) (ends' : ∀ c ∈ rest'.head?, isDigit c = false)
    (h : natChars m ++ rest = natChars n ++ rest') : m = n ∧ rest = rest' := by
  have read := congrArg takeDigits h
  rw [takeDigits_natChars_append m ends, takeDigits_natChars_append n ends', Prod.mk.injEq] at read
  refine ⟨?_, read.2⟩
  rw [← ofDigits_digits m, read.1, ofDigits_digits]

end Matchmaker.Decimal
