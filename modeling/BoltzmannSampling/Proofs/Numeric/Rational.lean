import Mathlib
import BoltzmannSampling.Numeric.Scalar
import BoltzmannSampling.Specification.Constructor
import BoltzmannSampling.Proofs.Number.Binary64

/-!
Exact arithmetic. In an ordered field, such as the rational or the real numbers, every operation of the numerical part
is what its name says, and a weight, which is a double, has the value that it stands for.
-/

namespace BoltzmannSampling

namespace Binary64

def toRat (x : Binary64) : ℚ := x.toRatio.1 / x.toRatio.2

theorem toRat_pos {x : Binary64} (sign : x.negative = false) (mantissa : 0 < x.mantissa) : 0 < x.toRat := by
  have pos (n : Nat) : 0 < twoTo n := Nat.two_pow_pos n
  have hm : (0 : ℤ) < x.mantissa := Int.natCast_pos.mpr mantissa
  simp only [toRat, toRatio, sign, Bool.false_eq_true, if_false, one_mul]
  split
  case isTrue  => exact div_pos (Int.cast_pos.mpr <| mul_pos hm <| Int.natCast_pos.mpr <| pos _) (by norm_num)
  case isFalse => exact div_pos (Int.cast_pos.mpr hm) (Nat.cast_pos.mpr <| pos _)

end Binary64

namespace Scalar

instance : Scalar ℚ where
  ofNat n    := n
  ofFloat x  := (Binary64.ofFloat? x).elim 0 Binary64.toRat
  pow x n    := x ^ n
  abs x      := |x|
  max x y    := Max.max x y
  lt x y     := x < y
  le x y     := x ≤ y
  isFinite _ := true

variable {K : Type} [Field K] [LinearOrder K]

-- Every ordered field computes exactly. In the rational numbers this is what they do already.
instance (priority := low) ofField : Scalar K where
  ofNat n    := n
  ofFloat x  := ((Binary64.ofFloat? x).elim 0 Binary64.toRat : ℚ)
  pow x n    := x ^ n
  abs x      := |x|
  max x y    := Max.max x y
  lt x y     := x < y
  le x y     := x ≤ y
  isFinite _ := true

@[simp]
theorem ofNat_eq (n : Nat) : (Scalar.ofNat n : K) = n := rfl

@[simp]
theorem pow_eq (x : K) (n : Nat) : Scalar.pow x n = x ^ n := rfl

@[simp]
theorem abs_eq (x : K) : Scalar.abs x = |x| := rfl

@[simp]
theorem max_eq (x y : K) : Scalar.max x y = Max.max x y := rfl

@[simp]
theorem lt_eq (x y : K) : Scalar.lt x y = decide (x < y) := rfl

@[simp]
theorem le_eq (x y : K) : Scalar.le x y = decide (x ≤ y) := rfl

@[simp]
theorem isFinite_eq (x : K) : Scalar.isFinite x = true := rfl

theorem foldl_add (x : K) (xs : List K) : xs.foldl (· + ·) x = x + xs.sum := by
  induction xs generalizing x
  case nil => simp
  case cons y ys hi => rw [List.foldl_cons, hi, List.sum_cons, add_assoc]

theorem foldl_mul (x : K) (xs : List K) : xs.foldl (· * ·) x = x * xs.prod := by
  induction xs generalizing x
  case nil => simp
  case cons y ys hi => rw [List.foldl_cons, hi, List.prod_cons, mul_assoc]

theorem sum_eq (xs : List K) : Scalar.sum xs = xs.sum :=
  (foldl_add _ xs).trans (by simp)

theorem product_eq (xs : List K) : Scalar.product xs = xs.prod :=
  (foldl_mul _ xs).trans (by simp)

theorem ofFloat_pos [IsStrictOrderedRing K] {w : Float} (h : isWeight w = true) : 0 < (Scalar.ofFloat w : K) := by
  have ⟨finite, positive⟩ := Bool.and_eq_true_iff.mp h
  have ⟨x, hx, sign, mantissa⟩ := Binary64.ofFloat?_positive finite (of_decide_eq_true positive)
  simp only [Scalar.ofFloat, hx, Option.elim_some]
  exact Rat.cast_pos.mpr <| Binary64.toRat_pos sign mantissa

end Scalar

end BoltzmannSampling
