import SExprViewer.Draw.Instruction

/-! # Encoded scenes

A surface that encodes shapes for a renderer.  It has no partial clearing, so clearing any
rectangle starts an empty scene, and no fonts, so texts leave nothing.  Of the scene itself
only whether anything is encoded is kept. -/
set_option autoImplicit false

namespace SExprViewer

structure EncodedScene (K : Type) where
  transforms : TransformStack K
  isEmpty : Bool
deriving Repr

namespace EncodedScene

variable {K : Type} [Scalar K]

def empty : EncodedScene K := ⟨.initial, true⟩

def apply (s : EncodedScene K) (i : Instruction K) : EncodedScene K :=
  { transforms := s.transforms.apply i
    isEmpty := match i with
      | .clearRect _ => true
      | .fillRect _ _ | .strokeRect _ _ _ | .fillOutline _ _ | .strokeOutline _ _ _ => false
      | _ => s.isEmpty }

end EncodedScene

end SExprViewer
