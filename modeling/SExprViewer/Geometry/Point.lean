import SExprViewer.Scalar

/-! # Points, vectors and sizes -/
set_option autoImplicit false

namespace SExprViewer

structure Point (K : Type) where
  x : K
  y : K
deriving BEq, Repr, DecidableEq

structure Vec (K : Type) where
  x : K
  y : K
deriving BEq, Repr, DecidableEq

structure Size (K : Type) where
  width : K
  height : K
deriving BEq, Repr, DecidableEq

variable {K : Type} [Scalar K]

namespace Vec

def zero : Vec K := ⟨0, 0⟩
def add (u v : Vec K) : Vec K := ⟨u.x + v.x, u.y + v.y⟩
def scale (v : Vec K) (k : K) : Vec K := ⟨v.x * k, v.y * k⟩

/-- Division by a number, as the product with its reciprocal. -/
def divBy (v : Vec K) (k : K) : Vec K := v.scale (1 / k)

def length (v : Vec K) : K := Scalar.hypot v.x v.y

end Vec

namespace Point

def origin : Point K := ⟨0, 0⟩
def add (p : Point K) (v : Vec K) : Point K := ⟨p.x + v.x, p.y + v.y⟩
def sub (p q : Point K) : Vec K := ⟨p.x - q.x, p.y - q.y⟩
def toVec (p : Point K) : Vec K := ⟨p.x, p.y⟩

end Point

namespace Size

def zero : Size K := ⟨0, 0⟩
def toVec (s : Size K) : Vec K := ⟨s.width, s.height⟩
def divBy (s : Size K) (k : K) : Size K := ⟨s.width / k, s.height / k⟩

end Size

end SExprViewer
