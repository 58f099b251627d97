import SExprViewer.Number.Binary

/-! # Decimal values

A decimal is a signed whole number times a power of ten.  `toFloat` is the nearest
double, and is what a literal stands for. -/
set_option autoImplicit false

namespace SExprViewer

structure Decimal where
  negative : Bool
  digits : Nat
  exponent : Int
deriving DecidableEq, Repr

namespace Decimal

def ofDigits (ds : List Char) : Nat :=
  ds.foldl (fun n c => 10 * n + (c.toNat - '0'.toNat)) 0

/-- Bits of the nearest double, without the sign. Beyond `10 ^ 400` and below `10 ^ (-400)`
no digits are computed, as every double lies between. -/
def magnitudeBits (d : Decimal) : Nat :=
  if d.digits = 0 then 0
  else if 400 < d.exponent then BinaryFormat.double.infinityBits
  else if d.exponent + (Nat.log2 d.digits : Int) < -400 then 0
  else BinaryFormat.double.nearest
    (d.digits * 10 ^ d.exponent.toNat) (10 ^ (-d.exponent).toNat)

/-- The nearest double; a zero keeps its sign. -/
def toFloat (d : Decimal) : Float :=
  Float.ofBits (d.magnitudeBits + if d.negative then 2 ^ (63 : Nat) else 0).toUInt64

def ofNat (n : Nat) : Decimal := ⟨false, n, 0⟩

end Decimal

end SExprViewer
