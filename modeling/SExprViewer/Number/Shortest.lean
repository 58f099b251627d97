import SExprViewer.Number.Decimal

/-! # Shortest decimal digits

Of all decimals that read back as a given positive binary value, `shortest` gives one
with the fewest digits, and of those the nearest.  The reals that round to the value
form an interval around it, whose ends belong to it when the significand is even.  The
search walks the powers of ten downwards: at each it looks at the two neighbours of the
value on that decimal grid, and the first grid with a neighbour inside the interval
wins. -/
set_option autoImplicit false

namespace SExprViewer

inductive TieRule where
  | awayFromZero
  | toEven
deriving DecidableEq, Repr

structure RoundingInterval where
  low : Nat
  value : Nat
  high : Nat
  unit : Nat
  closed : Bool

namespace RoundingInterval

/-- The interval of `significand * 2 ^ scale` units of `f`. Below a power of two the lower
half-gap is half as wide, except at scale 0, where the gap stays the same. -/
def ofFinite (f : BinaryFormat) (significand scale : Nat) : RoundingInterval :=
  let up := 2 ^ (scale - f.unitExponent)
  let lowerGap := if significand = 2 ^ f.fractionBits ∧ scale ≠ 0 then 1 else 2
  { low := (4 * significand - lowerGap) * up
    value := 4 * significand * up
    high := (4 * significand + 2) * up
    unit := 4 * 2 ^ (f.unitExponent - scale)
    closed := significand % 2 == 0 }

def onGrid? (i : RoundingInterval) (tie : TieRule) (exponent : Int) : Option Nat :=
  let grid := i.unit * 10 ^ exponent.toNat
  let refine := 10 ^ (-exponent).toNat
  let low := i.low * refine
  let value := i.value * refine
  let high := i.high * refine
  let below := value / grid
  let belowIn := if i.closed then low ≤ below * grid else low < below * grid
  let aboveIn := if i.closed then (below + 1) * grid ≤ high else (below + 1) * grid < high
  if belowIn then
    if aboveIn then
      let r := value % grid
      if 2 * r < grid then some below
      else if grid < 2 * r then some (below + 1)
      else match tie with
        | .awayFromZero => some (below + 1)
        | .toEven => some (below + below % 2)
    else some below
  else if aboveIn then some (below + 1)
  else none

def search (i : RoundingInterval) (tie : TieRule) : Nat → Int → Option (Nat × Int)
  | 0, _ => none
  | steps + 1, exponent =>
    match i.onGrid? tie exponent with
    | some digits => some (digits, exponent)
    | none => i.search tie steps (exponent - 1)

end RoundingInterval

/-- A power of ten above `significand * 2 ^ scale` units of `f`; `30103 / 100000` is the
decimal logarithm of two, rounded up. -/
def decimalExponentAbove (f : BinaryFormat) (significand scale : Nat) : Int :=
  ((Nat.log2 significand + scale + 1 : Nat) - (f.unitExponent : Int)) * 30103 / 100000 + 1

def exactDecimal (f : BinaryFormat) (significand scale : Nat) : Nat × Int :=
  if f.unitExponent ≤ scale then (significand * 2 ^ (scale - f.unitExponent), 0)
  else (significand * 5 ^ (f.unitExponent - scale), -((f.unitExponent - scale : Nat) : Int))

/-- Digits and exponent of the shortest decimal that reads back as the value. Thirty grids
are more than a double needs. -/
def shortest (f : BinaryFormat) (tie : TieRule) (significand scale : Nat) : Nat × Int :=
  ((RoundingInterval.ofFinite f significand scale).search tie 30
    (decimalExponentAbove f significand scale)).getD (exactDecimal f significand scale)

end SExprViewer
