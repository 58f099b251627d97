import SExprViewer.Draw.Instruction

/-! # Display lists

A surface that notes every shape together with the transform it was drawn under. -/
set_option autoImplicit false

namespace SExprViewer

inductive Shape (K : Type) where
  | clear (r : Rect K)
  | fillRect (r : Rect K) (color : Color)
  | strokeRect (r : Rect K) (color : Color) (width : K)
  | fillOutline (o : Outline K) (color : Color)
  | strokeOutline (o : Outline K) (color : Color) (width : K)
  | fillText (text : String) (origin : Point K) (color : Color)
deriving Repr

structure Mark (K : Type) where
  shape : Shape K
  transform : Affine K
deriving Repr

structure DisplayList (K : Type) where
  transforms : TransformStack K
  marks : Array (Mark K)
deriving Repr

namespace DisplayList

variable {K : Type} [Scalar K]

def empty : DisplayList K := ⟨.initial, #[]⟩

/-- The shape that an instruction draws. -/
def shapeOf? : Instruction K → Option (Shape K)
  | .clearRect r => some (.clear r)
  | .fillRect r color => some (.fillRect r color)
  | .strokeRect r color width => some (.strokeRect r color width)
  | .fillOutline o color => some (.fillOutline o color)
  | .strokeOutline o color width => some (.strokeOutline o color width)
  | .fillText text origin color => some (.fillText text origin color)
  | .save | .restore | .resetTransform | .transform _ => none

def apply (s : DisplayList K) (i : Instruction K) : DisplayList K :=
  { transforms := s.transforms.apply i
    marks := match shapeOf? i with
      | some shape => s.marks.push ⟨shape, s.transforms.current⟩
      | none => s.marks }

def run (s : DisplayList K) (program : List (Instruction K)) : DisplayList K :=
  program.foldl apply s

/-- The list with its marks taken out; the transforms stay. -/
def take (s : DisplayList K) : DisplayList K := { s with marks := #[] }

/-- The texts in drawing order. -/
def texts (s : DisplayList K) : List String :=
  s.marks.toList.filterMap fun m => match m.shape with
    | .fillText text _ _ => some text
    | _ => none

end DisplayList

end SExprViewer
