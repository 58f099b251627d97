import SExprViewer.Geometry.Affine

/-! # Rectangles

A rectangle is given by its edges.  A rectangle from two points has its edges in order. -/
set_option autoImplicit false

namespace SExprViewer

structure Rect (K : Type) where
  x0 : K
  y0 : K
  x1 : K
  y1 : K
deriving BEq, Repr, DecidableEq

namespace Rect

variable {K : Type} [Scalar K]

def width (r : Rect K) : K := r.x1 - r.x0
def height (r : Rect K) : K := r.y1 - r.y0

def ofPoints (p q : Point K) : Rect K := ⟨min p.x q.x, min p.y q.y, max p.x q.x, max p.y q.y⟩

def ofOriginSize (p : Point K) (s : Size K) : Rect K := ofPoints p (p.add s.toVec)

/-- The least rectangle around both. -/
def union (r s : Rect K) : Rect K :=
  ⟨min r.x0 s.x0, min r.y0 s.y0, max r.x1 s.x1, max r.y1 s.y1⟩

/-- Every edge moved outwards. -/
def inflate (r : Rect K) (w h : K) : Rect K := ⟨r.x0 - w, r.y0 - h, r.x1 + w, r.y1 + h⟩

/-- The least upright rectangle around the image of `r`. -/
def image (r : Rect K) (m : Affine K) : Rect K :=
  (ofPoints (m.apply ⟨r.x0, r.y0⟩) (m.apply ⟨r.x0, r.y1⟩)).union
    (ofPoints (m.apply ⟨r.x1, r.y0⟩) (m.apply ⟨r.x1, r.y1⟩))

end Rect

end SExprViewer
