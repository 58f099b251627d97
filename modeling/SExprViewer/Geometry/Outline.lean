import SExprViewer.Geometry.Point

/-! # Outlines

An outline is a sequence of moves, lines and Bézier curves.  A circle is drawn with four
arcs, or with more when four would miss it by more than a tenth. -/
set_option autoImplicit false

namespace SExprViewer

inductive OutlineStep (K : Type) where
  | moveTo (p : Point K)
  | lineTo (p : Point K)
  | quadTo (c p : Point K)
  | curveTo (c₁ c₂ p : Point K)
  | close
deriving BEq, Repr, DecidableEq

abbrev Outline (K : Type) := List (OutlineStep K)

namespace Outline

variable {K : Type} [Scalar K]

open Scalar (decimal ofNat)

def segment (p q : Point K) : Outline K := [.moveTo p, .lineTo q]

/-- The number of arcs of a circle, and the length of their control arms for radius one. -/
def circleArcs (radius : K) : Nat × K :=
  let error := (if radius < 0 then -radius else radius) / decimal 1 1
  if error < 1 / decimal 19608 8 then (4, decimal 551915024494 12)
  else
    let n := Scalar.ceil (Scalar.power (decimal 11163 4 * error) (1 / ofNat 6))
    (n, ofNat 4 / ofNat 3 * Scalar.tan (Scalar.pi / ofNat 2 / ofNat n))

/-- The arc that ends at the angle `step * i`, the last one exactly where the first began. -/
def circleArc (center : Point K) (radius arm step : K) (last i : Nat) : OutlineStep K :=
  let t₁ := step * ofNat i
  let t₀ := t₁ - step
  let s₀ := Scalar.sin t₀
  let c₀ := Scalar.cos t₀
  let s₁ := if i = last then 0 else Scalar.sin t₁
  let c₁ := if i = last then 1 else Scalar.cos t₁
  .curveTo
    ⟨center.x + radius * (c₀ - arm * s₀), center.y + radius * (s₀ + arm * c₀)⟩
    ⟨center.x + radius * (c₁ + arm * s₁), center.y + radius * (s₁ - arm * c₁)⟩
    ⟨center.x + radius * c₁, center.y + radius * s₁⟩

def circle (center : Point K) (radius : K) : Outline K :=
  let (n, arm) := circleArcs radius
  let step := ofNat 2 * Scalar.pi / ofNat n
  .moveTo ⟨center.x + radius, center.y⟩ ::
    ((List.range n).map (fun i => circleArc center radius arm step n (i + 1)) ++ [.close])

end Outline

end SExprViewer
