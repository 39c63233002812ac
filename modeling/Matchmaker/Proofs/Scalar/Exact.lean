import Matchmaker.Proofs.Scalar.Ordered
import Matchmaker.Random.Sampling
import Mathlib.Analysis.SpecialFunctions.Log.Basic

/-!
Real numbers as weights and keys, so that a logarithm and its quotient by a weight are not rounded.
A weight may also be infinite or undefined. That is only compared: no arithmetic is done with it.
-/
namespace Matchmaker

inductive Exact where
  | number (x : ℝ)
  | infinite (negative : Bool)
  | undefined

namespace Exact

def lift (f : ℝ → ℝ → ℝ) : Exact → Exact → Exact
  | number x, number y => number (f x y)
  | _, _ => undefined

noncomputable def div : Exact → Exact → Exact
  | number x, number y => if y = 0 then undefined else number (x / y)
  | _, _ => undefined

def Below : Exact → Exact → Prop
  | number x, number y => x < y
  | number _, infinite negative => negative = false
  | infinite negative, number _ => negative = true
  | infinite negative, infinite negative' => negative = true ∧ negative' = false
  | undefined, _ => False
  | _, undefined => False

open Classical in
noncomputable instance : Scalar Exact where
  add := lift (· + ·)
  sub := lift (· - ·)
  mul := lift (· * ·)
  div := div
  lt := Below
  le x y := Below x y ∨ x = y ∧ x ≠ undefined
  beq x y := decide (x = y ∧ x ≠ undefined)
  decLt _ _ := inferInstance
  decLe _ _ := inferInstance
  ofInt n := number n
  emptySum := number 0
  isFinite
    | number _ => true
    | _ => false
  compareClass x y := if Below x y then .lt else if Below y x then .gt else .eq

/-- Positive numbers have a logarithm. -/
noncomputable instance : Random.Logarithm Exact where
  ln
    | number x => if 0 < x then number (Real.log x) else undefined
    | _ => undefined

instance : Scalar.Ordered Exact where
  asymm {x y} below above := by
    change Below x y at below
    change Below y x at above
    cases x <;> cases y <;> simp_all [Below, lt_asymm]
  between {x z} y finite below := by
    change Below x z at below
    change Below x y ∨ Below y z
    cases y with
    | number y =>
      cases x <;> cases z <;> simp_all [Below]
      exact (lt_or_ge _ _).imp_right fun above => lt_of_le_of_lt above below
    | infinite negative => cases finite
    | undefined => cases finite

variable {x y : ℝ}

@[simp] theorem zero_eq : (Scalar.zero : Exact) = number 0 := congrArg number Int.cast_zero

@[simp] theorem one_eq : (Scalar.one : Exact) = number 1 := congrArg number Int.cast_one

@[simp] theorem ofInt_eq (n : Int) : (Scalar.ofInt n : Exact) = number n := rfl

@[simp] theorem number_lt : number x < number y ↔ x < y := Iff.rfl

@[simp] theorem number_sub (x y : ℝ) : number x - number y = number (x - y) := rfl

theorem number_div (x : ℝ) (h : y ≠ 0) : number x / number y = number (x / y) := if_neg h

theorem ln_number (h : 0 < x) : Random.Logarithm.ln (number x) = number (Real.log x) := if_pos h

theorem isFinite_iff {w : Exact} : Scalar.isFinite w = true ↔ ∃ x, w = number x := by
  cases w <;> simp [Scalar.isFinite]

theorem isWeight_iff {w : Exact} : Scalar.isWeight w = true ↔ ∃ x, 0 < x ∧ w = number x := by
  cases w <;> simp [Scalar.isWeight, Scalar.isFinite]

theorem isWeight_of_lt {v w : Exact} (weight : Scalar.isWeight v = true)
    (finite : Scalar.isFinite w = true) (above : v < w) : Scalar.isWeight w = true := by
  obtain ⟨x, positive, rfl⟩ := isWeight_iff.1 weight
  obtain ⟨y, rfl⟩ := isFinite_iff.1 finite
  exact isWeight_iff.2 ⟨y, positive.trans (number_lt.1 above), rfl⟩

end Exact

end Matchmaker
