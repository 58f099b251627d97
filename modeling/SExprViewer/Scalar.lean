/-! # Scalars

The numbers that geometry, motion and layout are computed with.  Everything downstream is
written over a `Scalar`, so that it runs on doubles and can be reasoned about over any
ordered field.  `min` and `max` pass over a NaN when the other operand is a number, and give
the first operand when the two are equal. -/
set_option autoImplicit false

namespace SExprViewer

class Scalar (K : Type) extends Add K, Sub K, Mul K, Div K, Neg K, Zero K, One K,
    LE K, LT K, Min K, Max K, BEq K where
  decidableLE : ∀ a b : K, Decidable (a ≤ b)
  decidableLT : ∀ a b : K, Decidable (a < b)
  ofNat : Nat → K
  /-- `decimal m n` is `m / 10 ^ n`. -/
  decimal : Nat → Nat → K
  isFinite : K → Bool
  hypot : K → K → K
  pi : K
  sin : K → K
  cos : K → K
  tan : K → K
  power : K → K → K
  /-- The least whole number that is not below, 0 for a negative number or NaN. -/
  ceil : K → Nat

instance instDecidableLE {K : Type} [Scalar K] : DecidableLE K := Scalar.decidableLE
instance instDecidableLT {K : Type} [Scalar K] : DecidableLT K := Scalar.decidableLT

def lesserNumber (x y : Float) : Float := if x.isNaN || y < x then y else x

def greaterNumber (x y : Float) : Float := if x.isNaN || x < y then y else x

instance : Scalar Float where
  zero := 0
  one := 1
  min := lesserNumber
  max := greaterNumber
  decidableLE := inferInstance
  decidableLT := inferInstance
  ofNat := Float.ofNat
  decimal m n := Float.ofScientific m true n
  isFinite := Float.isFinite
  hypot x y := Float.sqrt (x * x + y * y)
  pi := 3.141592653589793
  sin := Float.sin
  cos := Float.cos
  tan := Float.tan
  power := Float.pow
  ceil x := x.ceil.toUInt64.toNat

end SExprViewer
