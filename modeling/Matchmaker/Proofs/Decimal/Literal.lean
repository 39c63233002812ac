import Matchmaker.Decimal.Literal
import Matchmaker.Proofs.Decimal.Digits
import Mathlib.Algebra.Ring.Int.Defs

/-!
A text is read as a whole number exactly if it is at most one sign before digits that write the
number, and the number is in range. Zeros at the front are no obstacle, however many there are.
-/
namespace Matchmaker.Decimal

/-! ### Digits -/

theorem eq_digitChar_of_digitValue? {c : Char} {d : Nat} (h : digitValue? c = some d) :
    d < 10 ∧ c = digitChar d := by
  unfold digitValue? at h
  split at h
  · rename_i inside
    obtain rfl := Option.some.inj h
    obtain ⟨above, below⟩ : '0' ≤ c ∧ c ≤ '9' := by simpa using inside
    have least : 48 ≤ c.toNat := UInt32.le_iff_toNat_le.1 (Char.le_def.1 above)
    have greatest : c.toNat ≤ 57 := UInt32.le_iff_toNat_le.1 (Char.le_def.1 below)
    change c.toNat - 48 < 10 ∧ c = Nat.digitChar (c.toNat - 48)
    have small : c.toNat - 48 < 10 := by omega
    refine ⟨small, Char.toNat_inj.1 ?_⟩
    rw [Nat.toNat_digitChar_of_lt_ten small]
    omega
  · cases h

/-- Digits, most significant first, that write a number. -/
def Numeral (cs : List Char) (n : Nat) : Prop :=
  ∃ ds, ds ≠ [] ∧ (∀ d ∈ ds, d < 10) ∧ cs = ds.map digitChar ∧ n = ofDigits ds

inductive UnsignedNumeral : List Char → Nat → Prop where
  | bare {cs : List Char} {n : Nat} (h : Numeral cs n) : UnsignedNumeral cs n
  | plus {cs : List Char} {n : Nat} (h : Numeral cs n) : UnsignedNumeral ('+' :: cs) n

inductive SignedNumeral : List Char → Int → Prop where
  | unsigned {cs : List Char} {n : Nat} (h : UnsignedNumeral cs n) : SignedNumeral cs n
  | minus {cs : List Char} {n : Nat} (h : Numeral cs n) : SignedNumeral ('-' :: cs) (-n)

theorem Numeral.ne_nil {cs : List Char} {n : Nat} (h : Numeral cs n) : cs ≠ [] := by
  obtain ⟨ds, filled, -, rfl, -⟩ := h
  simpa using filled

theorem Numeral.isDigit {cs : List Char} {n : Nat} (h : Numeral cs n) :
    ∀ c ∈ cs, isDigit c = true := by
  obtain ⟨ds, -, small, rfl, -⟩ := h
  intro c mem
  obtain ⟨d, here, rfl⟩ := List.mem_map.1 mem
  rw [Decimal.isDigit, digitValue?_digitChar (small d here), Option.isSome_some]

theorem Numeral.not_mem {cs : List Char} {n : Nat} (h : Numeral cs n) {c : Char}
    (other : Decimal.isDigit c = false) : c ∉ cs := by
  intro mem
  rw [h.isDigit c mem] at other
  cases other

theorem numeral_natChars (n : Nat) : Numeral (natChars n) n :=
  ⟨digits n, digits_ne_nil n, digits_lt n, rfl, (ofDigits_digits n).symm⟩

/-! ### Numbers up to a limit -/

section Bounded

variable {limit : Nat} {excess : WholeError}

theorem le_foldl_digits (ds : List Nat) (n : Nat) : n ≤ ds.foldl (fun n d => 10 * n + d) n := by
  induction ds generalizing n with
  | nil => exact Nat.le_refl n
  | cons d ds ih => exact Nat.le_trans (by omega) (ih (10 * n + d))

theorem boundedDigits_map_digitChar {ds : List Nat} {n : Nat} (small : ∀ d ∈ ds, d < 10)
    (fits : ds.foldl (fun n d => 10 * n + d) n ≤ limit) :
    boundedDigits limit excess n (ds.map digitChar) = .ok (ds.foldl (fun n d => 10 * n + d) n) := by
  induction ds generalizing n with
  | nil => rfl
  | cons d ds ih =>
    have value := digitValue?_digitChar (small d List.mem_cons_self)
    have next : 10 * n + d ≤ limit := Nat.le_trans (le_foldl_digits ds _) fits
    rw [List.map_cons, boundedDigits, value]
    dsimp only
    rw [if_pos next]
    exact ih (fun e mem => small e (List.mem_cons_of_mem d mem)) fits

theorem exists_of_boundedDigits {cs : List Char} {n m : Nat} (fits : n ≤ limit)
    (h : boundedDigits limit excess n cs = .ok m) :
    m ≤ limit ∧ ∃ ds : List Nat, (∀ d ∈ ds, d < 10) ∧ cs = ds.map digitChar ∧
      m = ds.foldl (fun n d => 10 * n + d) n := by
  induction cs generalizing n with
  | nil =>
    cases h
    exact ⟨fits, [], nofun, rfl, rfl⟩
  | cons c cs ih =>
    rw [boundedDigits] at h
    cases value : digitValue? c with
    | none =>
      rw [value] at h
      cases h
    | some d =>
      rw [value] at h
      dsimp only at h
      obtain ⟨small, rfl⟩ := eq_digitChar_of_digitValue? value
      split at h
      · rename_i next
        obtain ⟨below, ds, rest, rfl, same⟩ := ih next h
        exact ⟨below, d :: ds, List.forall_mem_cons.2 ⟨small, rest⟩, rfl, same⟩
      · cases h

theorem boundedDigits_eq_ok_iff {cs : List Char} (filled : cs ≠ []) {m : Nat} :
    boundedDigits limit excess 0 cs = .ok m ↔ m ≤ limit ∧ Numeral cs m := by
  constructor
  · intro h
    obtain ⟨below, ds, small, rfl, same⟩ := exists_of_boundedDigits (Nat.zero_le limit) h
    exact ⟨below, ds, by simpa using filled, small, rfl, same⟩
  · rintro ⟨below, ds, -, small, rfl, rfl⟩
    exact boundedDigits_map_digitChar small below

end Bounded

/-! ### Signs -/

theorem not_numeral_plus {cs : List Char} {n : Nat} : ¬ Numeral ('+' :: cs) n :=
  fun h => h.not_mem (by decide) List.mem_cons_self

theorem not_numeral_minus {cs : List Char} {n : Nat} : ¬ Numeral ('-' :: cs) n :=
  fun h => h.not_mem (by decide) List.mem_cons_self

theorem unsignedNumeral_plus_iff {cs : List Char} {n : Nat} :
    UnsignedNumeral ('+' :: cs) n ↔ Numeral cs n := by
  refine ⟨fun h => ?_, .plus⟩
  cases h with
  | bare h => exact absurd h not_numeral_plus
  | plus h => exact h

theorem signedNumeral_minus_iff {cs : List Char} {n : Int} :
    SignedNumeral ('-' :: cs) n ↔ ∃ m : Nat, Numeral cs m ∧ n = -m := by
  constructor
  · intro h
    cases h with
    | unsigned h =>
      cases h with
      | bare h => exact absurd h not_numeral_minus
    | minus h => exact ⟨_, h, rfl⟩
  · rintro ⟨m, h, rfl⟩
    exact .minus h

theorem SignedNumeral.not_mem {cs : List Char} {n : Int} (h : SignedNumeral cs n) {c : Char}
    (other : Decimal.isDigit c = false) (plus : c ≠ '+') (minus : c ≠ '-') : c ∉ cs := by
  cases h with
  | unsigned h =>
    cases h with
    | bare h => exact h.not_mem other
    | plus h => exact List.not_mem_cons_of_ne_of_not_mem plus (h.not_mem other)
  | minus h => exact List.not_mem_cons_of_ne_of_not_mem minus (h.not_mem other)

theorem signedNumeral_intText (n : Int) : SignedNumeral (intText n).toList n := by
  have written := numeral_natChars n.natAbs
  rw [intText, natText]
  split
  · have h := SignedNumeral.minus written
    have same : -(n.natAbs : Int) = n := by omega
    rw [same] at h
    simp only [String.toList_append, String.toList_ofList]
    exact h
  · have h := SignedNumeral.unsigned (.bare written)
    have same : (n.natAbs : Int) = n := by omega
    rw [same] at h
    rw [String.toList_ofList]
    exact h

/-! ### Texts that are read -/

theorem readNat_eq_ok_iff {limit : Nat} {s : String} {n : Nat} :
    readNat limit s = .ok n ↔ n ≤ limit ∧ UnsignedNumeral s.toList n := by
  unfold readNat
  generalize s.toList = cs
  split
  · refine ⟨nofun, fun ⟨_, h⟩ => ?_⟩
    cases h with
    | bare h => exact absurd rfl h.ne_nil
  · refine ⟨nofun, fun ⟨_, h⟩ => ?_⟩
    exact absurd rfl (unsignedNumeral_plus_iff.1 h).ne_nil
  · rename_i filled
    rw [unsignedNumeral_plus_iff]
    exact boundedDigits_eq_ok_iff filled
  · rename_i filled _ bare
    rw [boundedDigits_eq_ok_iff filled]
    refine and_congr_right fun _ => ⟨.bare, fun h => ?_⟩
    cases h with
    | bare h => exact h
    | plus => exact absurd rfl (bare _)

theorem map_eq_ok_iff {ε β γ : Type} {x : Except ε β} {f : β → γ} {c : γ} :
    x.map f = .ok c ↔ ∃ b, x = .ok b ∧ c = f b := by
  cases x <;> simp [Except.map, eq_comm]

theorem readInt_eq_ok_iff {s : String} {n : Int} :
    readInt s = .ok n ↔ (-2 ^ 63 ≤ n ∧ n < 2 ^ 63) ∧ SignedNumeral s.toList n := by
  unfold readInt
  generalize shown : s.toList = cs
  split
  · refine ⟨nofun, fun ⟨_, h⟩ => ?_⟩
    obtain ⟨m, h, -⟩ := signedNumeral_minus_iff.1 h
    exact absurd rfl h.ne_nil
  · rename_i cs filled
    rw [signedNumeral_minus_iff, map_eq_ok_iff, bind_pure_comp]
    constructor
    · rintro ⟨_, cast, rfl⟩
      obtain ⟨m, read, rfl⟩ := map_eq_ok_iff.1 cast
      obtain ⟨below, h⟩ := (boundedDigits_eq_ok_iff filled).1 read
      have below : m ≤ 2 ^ 63 := below
      exact ⟨by omega, m, h, rfl⟩
    · rintro ⟨range, m, h, rfl⟩
      have below : m ≤ 2 ^ 63 := by omega
      exact ⟨m, map_eq_ok_iff.2 ⟨m, (boundedDigits_eq_ok_iff filled).2 ⟨below, h⟩, rfl⟩, rfl⟩
  · rename_i noSign
    rw [map_eq_ok_iff]
    simp only [readNat_eq_ok_iff, shown]
    constructor
    · rintro ⟨m, ⟨below, h⟩, rfl⟩
      have below : m ≤ 2 ^ 63 - 1 := below
      have range : -2 ^ 63 ≤ (m : Int) ∧ (m : Int) < 2 ^ 63 := by omega
      exact ⟨range, .unsigned h⟩
    · rintro ⟨range, h⟩
      cases h with
      | @unsigned _ m h =>
        have below : m ≤ 2 ^ 63 - 1 := by omega
        exact ⟨m, ⟨below, h⟩, rfl⟩
      | minus => exact absurd rfl (noSign _)

end Matchmaker.Decimal
