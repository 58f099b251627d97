import SExprViewer.Diagram.Hit
import SExprViewer.Diagram.Paint

/-! # Actors

The root objects of a stage: diagrams, and markers, which paint a white unit square where
they stand. -/
set_option autoImplicit false

namespace SExprViewer

inductive Actor (K : Type) where
  | diagram (d : Diagram K)
  | marker (id : ObjectId) (placement : Placement K)

namespace Actor

variable {K : Type}

def id : Actor K → ObjectId
  | .diagram d => d.value.id
  | .marker id _ => id

def diagram? : Actor K → Option (Diagram K)
  | .diagram d => some d
  | .marker _ _ => none

def marker? : Actor K → Option (Placement K)
  | .diagram _ => none
  | .marker _ p => some p

def modifyDiagram (f : Diagram K → Diagram K) : Actor K → Actor K
  | .diagram d => .diagram (f d)
  | a => a

variable [Scalar K]

def step (elapsed : K) : Actor K → Actor K
  | .diagram d => .diagram (d.step elapsed)
  | .marker id p => .marker id (p.step elapsed)

def paint (theme : Theme K) : Actor K → List (Instruction K)
  | .diagram d => d.paint theme
  | .marker _ p => [.save, .transform p.transform, .fillRect ⟨0, 0, 1, 1⟩ .white, .restore]

end Actor

end SExprViewer
