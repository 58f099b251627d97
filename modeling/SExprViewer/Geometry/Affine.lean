import SExprViewer.Geometry.Point

/-! # Affine maps of the plane

The map with coefficients `a b c d e f` takes `(x, y)` to
`(a x + c y + e, b x + d y + f)`. -/
set_option autoImplicit false

namespace SExprViewer

structure Affine (K : Type) where
  a : K
  b : K
  c : K
  d : K
  e : K
  f : K
deriving BEq, Repr, DecidableEq

namespace Affine

variable {K : Type} [Scalar K]

def identity : Affine K := ⟨1, 0, 0, 1, 0, 0⟩
def shift (v : Vec K) : Affine K := ⟨1, 0, 0, 1, v.x, v.y⟩
def scale (s : K) : Affine K := ⟨s, 0, 0, s, 0, 0⟩

def rotate (angle : K) : Affine K :=
  let s := Scalar.sin angle
  let c := Scalar.cos angle
  ⟨c, s, -s, c, 0, 0⟩

/-- First `n`, then `m`. -/
def mul (m n : Affine K) : Affine K :=
  { a := m.a * n.a + m.c * n.b
    b := m.b * n.a + m.d * n.b
    c := m.a * n.c + m.c * n.d
    d := m.b * n.c + m.d * n.d
    e := m.a * n.e + m.c * n.f + m.e
    f := m.b * n.e + m.d * n.f + m.f }

def apply (m : Affine K) (p : Point K) : Point K :=
  ⟨m.a * p.x + m.c * p.y + m.e, m.b * p.x + m.d * p.y + m.f⟩

def determinant (m : Affine K) : K := m.a * m.d - m.b * m.c

def inverse (m : Affine K) : Affine K :=
  let k := 1 / m.determinant
  { a := k * m.d
    b := -k * m.b
    c := -k * m.c
    d := k * m.a
    e := k * (m.c * m.f - m.d * m.e)
    f := k * (m.b * m.e - m.a * m.f) }

end Affine

end SExprViewer
