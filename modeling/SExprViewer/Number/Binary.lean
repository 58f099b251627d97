/-! # Binary floating-point formats

A binary format is given by the width of its significand and of its exponent field.
Every finite value is a natural number of *units*, the least positive value of the
format, with a sign: `significand * 2 ^ scale` units.  `decode` reads the fields of a
bit pattern; `nearest` gives the bit pattern of the value nearest to a fraction, ties
going to the even significand and everything beyond the largest value to infinity. -/
set_option autoImplicit false

namespace SExprViewer

/-- Powers are those of the core library, whatever else is imported. -/
instance (priority := 2000) natPow : Pow Nat Nat := instPowNat

structure BinaryFormat where
  /-- Bits of the significand, the leading one included. -/
  precision : Nat
  exponentBits : Nat
deriving DecidableEq

/-- What a bit pattern stands for. A finite value is `significand * 2 ^ scale` units. -/
inductive Binary where
  | nan
  | infinite (negative : Bool)
  | finite (negative : Bool) (significand scale : Nat)
deriving DecidableEq, Repr

namespace BinaryFormat

def double : BinaryFormat := ⟨53, 11⟩
def single : BinaryFormat := ⟨24, 8⟩

variable (f : BinaryFormat)

def fractionBits : Nat := f.precision - 1

/-- The unit is `2 ^ (-unitExponent)`. -/
def unitExponent : Nat := 2 ^ (f.exponentBits - 1) - 1 + f.fractionBits - 1

def infinityBits : Nat := (2 ^ f.exponentBits - 1) * 2 ^ f.fractionBits

def decode (bits : Nat) : Binary :=
  let fraction := bits % 2 ^ f.fractionBits
  let field := bits / 2 ^ f.fractionBits % 2 ^ f.exponentBits
  let negative := bits / 2 ^ (f.fractionBits + f.exponentBits) % 2 == 1
  if field = 2 ^ f.exponentBits - 1 then
    if fraction = 0 then .infinite negative else .nan
  else if field = 0 then .finite negative fraction 0
  else .finite negative (2 ^ f.fractionBits + fraction) (field - 1)

end BinaryFormat

/-- The quotient rounded to the nearest whole number, a half going to the even one. -/
def roundHalfEven (num den : Nat) : Nat :=
  let q := num / den
  let r := num % den
  if 2 * r < den then q else if den < 2 * r then q + 1 else q + q % 2

def roundHalfUp (num den : Nat) : Nat := (2 * num + den) / (2 * den)

namespace BinaryFormat

variable (f : BinaryFormat)

def scaleOf (num den : Nat) : Nat :=
  Nat.log2 (num * 2 ^ f.unitExponent / den) + 1 - f.precision

/-- The bits of the value nearest to `num / den`. A significand that rounds up to the next
power of two carries into the exponent field, which is the right value. -/
def nearest (num den : Nat) : Nat :=
  let scale := f.scaleOf num den
  let significand := roundHalfEven (num * 2 ^ f.unitExponent) (den * 2 ^ scale)
  min (scale * 2 ^ f.fractionBits + significand) f.infinityBits

end BinaryFormat

namespace Binary

def ofDouble (x : Float) : Binary := BinaryFormat.double.decode x.toBits.toNat
def ofSingle (x : Float32) : Binary := BinaryFormat.single.decode x.toBits.toNat

end Binary

end SExprViewer
