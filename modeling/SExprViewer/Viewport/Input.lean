import SExprViewer.Geometry.Point

/-! # Input events -/
set_option autoImplicit false

namespace SExprViewer

inductive Input (K : Type) where
  | pointerDown (place : Point K)
  /-- `movement` is the way since the event before. -/
  | pointerMove (place : Point K) (movement : Vec K)
  | pointerUp (place : Point K)
  | wheel (amount : K)
  | key (name : String)
deriving Repr

namespace Input

variable {K : Type}

def position? : Input K → Option (Point K)
  | .pointerDown p | .pointerMove p _ | .pointerUp p => some p
  | .wheel _ | .key _ => none

def movement? : Input K → Option (Vec K)
  | .pointerMove _ v => some v
  | _ => none

end Input

end SExprViewer
