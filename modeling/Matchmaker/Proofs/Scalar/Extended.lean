import Matchmaker.Share.Table
import Matchmaker.Usage.Settings
import Mathlib.Algebra.BigOperators.Group.List.Basic
import Mathlib.Algebra.Order.Field.Rat

/-!
Exact numbers as reports may hold them: rational, infinite, or no number at all. What is computed
from rationals is not rounded. Dividing by zero gives no number, and no number comes out of
arithmetic with one; so a rational result is also one that was got without dividing by zero.
-/
namespace Matchmaker

inductive Extended where
  | number (q : ℚ)
  | infinite (negative : Bool)
  | undefined
  deriving DecidableEq

namespace Extended

def neg : Extended → Extended
  | number q => number (-q)
  | infinite negative => infinite !negative
  | undefined => undefined

def add : Extended → Extended → Extended
  | number p, number q => number (p + q)
  | number _, infinite negative => infinite negative
  | infinite negative, number _ => infinite negative
  | infinite n, infinite m => if n = m then infinite n else undefined
  | undefined, _ => undefined
  | _, undefined => undefined

def mul : Extended → Extended → Extended
  | number p, number q => number (p * q)
  | number p, infinite negative =>
    if p = 0 then undefined else infinite (negative != decide (p < 0))
  | infinite negative, number q =>
    if q = 0 then undefined else infinite (negative != decide (q < 0))
  | infinite n, infinite m => infinite (n != m)
  | undefined, _ => undefined
  | _, undefined => undefined

def div : Extended → Extended → Extended
  | number p, number q => if q = 0 then undefined else number (p / q)
  | number _, infinite _ => number 0
  | infinite negative, number q =>
    if q = 0 then undefined else infinite (negative != decide (q < 0))
  | infinite _, infinite _ => undefined
  | undefined, _ => undefined
  | _, undefined => undefined

def below : Extended → Extended → Bool
  | number p, number q => decide (p < q)
  | number _, infinite negative => !negative
  | infinite negative, number _ => negative
  | infinite n, infinite m => n && !m
  | undefined, _ => false
  | _, undefined => false

def same : Extended → Extended → Bool
  | undefined, _ => false
  | x, y => decide (x = y)

/-- Where what is not rational stands in the order of classes. -/
def rank : Extended → Nat
  | infinite true => 0
  | number _ => 1
  | infinite false => 2
  | undefined => 3

instance : Scalar Extended where
  add := add
  sub x y := add x (neg y)
  mul := mul
  div := div
  lt x y := below x y = true
  le x y := below x y = true ∨ same x y = true
  beq := same
  decLt _ _ := inferInstanceAs (Decidable (_ = true))
  decLe _ _ := inferInstanceAs (Decidable (_ ∨ _))
  ofInt n := number n
  emptySum := number 0
  isFinite
    | number _ => true
    | _ => false
  compareClass
    | number p, number q => compare p q
    | x, y => compare x.rank y.rank

/-! ### Rational values -/

variable {p q : ℚ}

@[simp] theorem zero_eq : (Scalar.zero : Extended) = number 0 := rfl

@[simp] theorem one_eq : (Scalar.one : Extended) = number 1 := rfl

@[simp] theorem number_add (p q : ℚ) : number p + number q = number (p + q) := rfl

@[simp] theorem number_mul (p q : ℚ) : number p * number q = number (p * q) := rfl

theorem number_div (p : ℚ) (h : q ≠ 0) : number p / number q = number (p / q) := if_neg h

@[simp] theorem number_lt : number p < number q ↔ p < q := decide_eq_true_iff

@[simp] theorem number_le : number p ≤ number q ↔ p ≤ q := by
  change decide (p < q) = true ∨ decide (number p = number q) = true ↔ p ≤ q
  simp [le_iff_lt_or_eq]

def toRat : Extended → ℚ
  | number q => q
  | _ => 0

@[simp] theorem toRat_number (q : ℚ) : (number q).toRat = q := rfl

@[simp] theorem larger_number (p q : ℚ) :
    Scalar.larger (number p) (number q) = number (max p q) := by
  have itself : (number p == number p) = true := decide_eq_true rfl
  unfold Scalar.larger
  rw [if_pos itself, max_def_lt]
  simp only [number_lt]
  split <;> rfl

theorem isFinite_iff {x : Extended} : Scalar.isFinite x = true ↔ ∃ q, x = number q := by
  cases x <;> simp [Scalar.isFinite]

theorem isWeight_iff {x : Extended} : Scalar.isWeight x = true ↔ ∃ q, 0 < q ∧ x = number q := by
  cases x <;> simp [Scalar.isWeight, Scalar.isFinite]

theorem isFinite_of_isWeight {x : Extended} (h : Scalar.isWeight x = true) :
    Scalar.isFinite x = true := by
  obtain ⟨q, -, rfl⟩ := isWeight_iff.1 h
  rfl

theorem toRat_pos {x : Extended} (h : Scalar.isWeight x = true) : 0 < x.toRat := by
  obtain ⟨q, positive, rfl⟩ := isWeight_iff.1 h
  exact positive

theorem isBound_iff {x : Extended} :
    HistorySettings.isBound x = true ↔ ∃ q, 1 ≤ q ∧ x = number q := by
  cases x <;> simp [HistorySettings.isBound, Scalar.isFinite]

theorem isShare_iff {x : Extended} : ShareTable.isShare x = true ↔ ∃ q, 0 ≤ q ∧ x = number q := by
  cases x <;> simp [ShareTable.isShare, Scalar.isFinite]

theorem total_eq {terms : List Extended} (h : ∀ x ∈ terms, Scalar.isFinite x = true) :
    Scalar.total terms = number (terms.map toRat).sum := by
  have folded (start : ℚ) : terms.foldl (· + ·) (number start) =
      number (start + (terms.map toRat).sum) := by
    induction terms generalizing start with
    | nil => simp
    | cons x rest ih =>
      obtain ⟨q, rfl⟩ := isFinite_iff.1 (h x List.mem_cons_self)
      simp [ih (fun y mem => h y (List.mem_cons_of_mem _ mem)), add_assoc]
  have whole := folded 0
  rw [zero_add] at whole
  exact whole

theorem clamp?_number {lo hi : ℚ} (h : lo ≤ hi) (q : ℚ) :
    Scalar.clamp? (number q) (number lo) (number hi) = some (number (min hi (max lo q))) := by
  unfold Scalar.clamp?
  rw [if_pos (number_le.2 h)]
  by_cases low : q < lo
  · simp [low, low.le, h.not_gt, min_eq_right h]
  · by_cases high : hi < q
    · simp [low, high, not_lt.1 low, high.le]
    · simp [low, high, not_lt.1 low, not_lt.1 high]

end Extended

end Matchmaker
