import Mathlib
import SExprViewer.Scalar

/-! # Exact scalars

Statements about the geometry itself are made for scalars that compute exactly: an ordered
field in which whole numbers, decimals and comparisons are what they say, every number is
finite, and a rotation by an angle keeps lengths.  The real numbers are such scalars. -/
set_option autoImplicit false

namespace SExprViewer

class ExactScalar (K : Type) extends Scalar K, Field K, LinearOrder K, IsStrictOrderedRing K,
    LawfulBEq K where
  ofNat_eq_cast (n : Nat) : Scalar.ofNat n = (n : K)
  decimal_eq (m n : Nat) : Scalar.decimal m n = (m / 10 ^ n : K)
  isFinite_eq_true (x : K) : Scalar.isFinite x = true
  cos_zero : Scalar.cos (0 : K) = 1
  sin_zero : Scalar.sin (0 : K) = 0
  cos_mul_self_add_sin_mul_self (angle : K) :
    Scalar.cos angle * Scalar.cos angle + Scalar.sin angle * Scalar.sin angle = 1

-- without it every inequality starts a long search through the classes that are extended
instance (priority := high) instIsOrderedRing {K : Type} [ExactScalar K] : IsOrderedRing K :=
  IsStrictOrderedRing.toIsOrderedRing

noncomputable instance : ExactScalar ℝ where
  __ := (inferInstance : Field ℝ)
  __ := (inferInstance : LinearOrder ℝ)
  __ := (inferInstance : IsStrictOrderedRing ℝ)
  beq x y := decide (x = y)
  eq_of_beq := of_decide_eq_true
  rfl := decide_eq_true rfl
  decidableLE := inferInstance
  decidableLT := inferInstance
  ofNat n := n
  decimal m n := m / 10 ^ n
  isFinite _ := true
  hypot x y := √(x * x + y * y)
  pi := Real.pi
  sin := Real.sin
  cos := Real.cos
  tan := Real.tan
  power x y := x ^ y
  ceil x := ⌈x⌉₊
  ofNat_eq_cast _ := rfl
  decimal_eq _ _ := rfl
  isFinite_eq_true _ := rfl
  cos_zero := Real.cos_zero
  sin_zero := Real.sin_zero
  cos_mul_self_add_sin_mul_self angle := by
    rw [← sq, ← sq]
    exact Real.cos_sq_add_sin_sq angle

end SExprViewer
