import SExprViewer.Geometry.Point

/-! # Keyboard shortcuts

Panning left moves the content right, so that the view looks further left, and likewise
for the other directions.  While the source is being edited, the zoom keys are text. -/
set_option autoImplicit false

namespace SExprViewer

inductive Shortcut where
  | panLeft | panUp | panRight | panDown | zoomIn | zoomOut | refit
deriving DecidableEq, Repr

namespace Shortcut

def ofKey? (key : String) (editing : Bool) : Option Shortcut :=
  match key with
  | "ArrowLeft" => some .panLeft
  | "ArrowUp" => some .panUp
  | "ArrowRight" => some .panRight
  | "ArrowDown" => some .panDown
  | "r" | "R" => some .refit
  | "+" | "=" => if editing then none else some .zoomIn
  | "-" | "_" => if editing then none else some .zoomOut
  | _ => none

def name : Shortcut → String
  | .panLeft => "PanLeft"
  | .panUp => "PanUp"
  | .panRight => "PanRight"
  | .panDown => "PanDown"
  | .zoomIn => "ZoomIn"
  | .zoomOut => "ZoomOut"
  | .refit => "SoftReset"

/-- How far a shortcut pans, at `speed` pixels a press. -/
def pan? {K : Type} [Scalar K] (speed : K) : Shortcut → Option (Vec K)
  | .panLeft => some ⟨speed, 0⟩
  | .panUp => some ⟨0, speed⟩
  | .panRight => some ⟨-speed, 0⟩
  | .panDown => some ⟨0, -speed⟩
  | .zoomIn | .zoomOut | .refit => none

end Shortcut

end SExprViewer
