import SExprViewer.Color.Basic
import SExprViewer.Geometry.Outline
import SExprViewer.Geometry.Rect

/-! # Drawing instructions

What painting asks of a surface.  A surface keeps a current transform and a stack of saved
ones, the last first; shapes are given in the space of the current transform. -/
set_option autoImplicit false

namespace SExprViewer

inductive Instruction (K : Type) where
  | save
  /-- Pops the last saved transform; nothing happens if there is none. -/
  | restore
  | resetTransform
  | transform (m : Affine K)
  | clearRect (r : Rect K)
  | fillRect (r : Rect K) (color : Color)
  | strokeRect (r : Rect K) (color : Color) (width : K)
  | fillOutline (o : Outline K) (color : Color)
  | strokeOutline (o : Outline K) (color : Color) (width : K)
  /-- The left end of the text's baseline is at `origin`. -/
  | fillText (text : String) (origin : Point K) (color : Color)
deriving Repr

structure TransformStack (K : Type) where
  current : Affine K
  saved : List (Affine K)
deriving BEq, Repr, DecidableEq

namespace TransformStack

variable {K : Type} [Scalar K]

def initial : TransformStack K := ⟨.identity, []⟩

def save (s : TransformStack K) : TransformStack K := { s with saved := s.current :: s.saved }

def restore (s : TransformStack K) : TransformStack K :=
  match s.saved with
  | [] => s
  | m :: rest => ⟨m, rest⟩

def reset (s : TransformStack K) : TransformStack K := { s with current := .identity }

def transform (s : TransformStack K) (m : Affine K) : TransformStack K :=
  { s with current := s.current.mul m }

/-- What an instruction does to the transforms; shapes and texts do nothing. -/
def apply (s : TransformStack K) : Instruction K → TransformStack K
  | .save => s.save
  | .restore => s.restore
  | .resetTransform => s.reset
  | .transform m => s.transform m
  | _ => s

end TransformStack

end SExprViewer
