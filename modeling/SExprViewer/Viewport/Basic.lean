import SExprViewer.Diagram.Layout
import SExprViewer.Stage.Basic
import SExprViewer.Viewport.Document
import SExprViewer.Viewport.Input
import SExprViewer.Viewport.Shortcut

/-! # The viewport

A viewport keeps the diagram of the edited source on its stage, fits it to the canvas, and
answers to the pointer, the wheel and the keys.  At most one node and what is below it is
active, the one the pointer was last over, and at most one node is selected. -/
set_option autoImplicit false

namespace SExprViewer

structure Viewport (K : Type) where
  stage : Stage K
  settings : Settings K
  document : Document
  root : Option ObjectId
  active : Option Path
  selected : Option Path
  dragging : Bool
  hotkeys : Bool
  /-- The source is being edited, and takes the zoom keys. -/
  editing : Bool
  nextId : ObjectId

namespace Viewport

variable {K : Type}

def camera (v : Viewport K) : Camera K := v.stage.camera

def modifyCamera (v : Viewport K) (f : Camera K → Camera K) : Viewport K :=
  { v with stage := v.stage.modifyCamera f }

def diagram? (v : Viewport K) : Option (Diagram K) := v.root.bind v.stage.diagram?

def modifyDiagram (v : Viewport K) (f : Diagram K → Diagram K) : Viewport K :=
  match v.root with
  | none => v
  | some id => { v with stage := v.stage.modifyDiagram id f }

def selectedDiagram? (v : Viewport K) : Option (Diagram K) := do
  let d ← v.diagram?
  let path ← v.selected
  d.at? path

def setHotkeys (v : Viewport K) (enabled : Bool) : Viewport K := { v with hotkeys := enabled }

def setEditing (v : Viewport K) (editing : Bool) : Viewport K := { v with editing := editing }

def cancelDrag (v : Viewport K) : Viewport K := { v with dragging := false }

variable [Scalar K]

open Scalar (ofNat)

def new (canvas : Size K) (settings : Settings K) : Viewport K where
  stage := ((Stage.new canvas).modifyCamera (·.setCentered settings.centered)).setTheme
    settings.theme
  settings := settings
  document := .empty
  root := none
  active := none
  selected := none
  dragging := false
  hotkeys := true
  editing := false
  nextId := .first

/-- Replaces the settings. Theme and centering apply at once, parsing and layout from the
next reading of the source, which then happens even if its text stays the same. -/
def setSettings (v : Viewport K) (settings : Settings K) : Viewport K :=
  let stale := settings.parse ≠ v.settings.parse ∨ (settings.layout == v.settings.layout) = false
  { v with
    stage := (v.stage.modifyCamera (·.setCentered settings.centered)).setTheme settings.theme
    settings := settings
    document := if stale then v.document.invalidate else v.document }

def resize (v : Viewport K) (canvas : Size K) : Viewport K := v.modifyCamera (·.setCanvas canvas)

/-! ### Pan, zoom and fit -/

def pan (v : Viewport K) (delta : Vec K) : Viewport K := v.modifyCamera (·.panBy delta)

def panScaled (v : Viewport K) (delta : Vec K) : Viewport K := v.modifyCamera (·.panScaled delta)

def isScale (x : K) : Bool := Scalar.isFinite x && 0 < x

/-- Multiplies the scale by a finite positive factor; others are passed over. -/
def zoom (v : Viewport K) (factor : K) : Viewport K :=
  if isScale factor then v.modifyCamera (·.scaleBy factor) else v

/-- The scale at which a diagram fills the canvas, but not more than `most`. -/
def fitScale (canvas : Size K) (most : K) (root : Node K) : K :=
  min (min (canvas.width / root.treeWidth) (canvas.height / root.treeHeight)) most

/-- Scales so that the whole diagram fits, if there is one and it can. -/
def fit (v : Viewport K) : Viewport K :=
  match v.diagram? with
  | none => v
  | some d =>
    let fit := fitScale v.camera.canvas v.settings.maxInitialScale d.value
    if isScale fit then v.modifyCamera (·.setScale fit) else v

/-- The place of the root: centered on the origin from left to right, and above it by a third
of the height of the diagram. -/
def rootPlace (root : Node K) : Point K :=
  ⟨-root.width / ofNat 2, -root.treeHeight / ofNat 3⟩

def arrange (v : Viewport K) : Viewport K :=
  v.modifyDiagram fun d =>
    Diagram.arrange v.settings.layout
      (d.modifyRoot fun n => { n with placement := n.placement.moveTo (rootPlace n) })

def zoomAndArrange (v : Viewport K) (factor : K) : Viewport K := (v.zoom factor).arrange

def refit (v : Viewport K) : Viewport K :=
  (v.modifyCamera Camera.clear).fit.arrange

def dropDiagram (v : Viewport K) : Viewport K :=
  { v with
    stage := match v.root with
      | some id => v.stage.remove id
      | none => v.stage
    root := none
    active := none
    selected := none }

def reset (v : Viewport K) : Viewport K := v.dropDiagram.modifyCamera Camera.clear

/-! ### Source -/

def display (v : Viewport K) (measure : TextMeasure K) (e : Expr) : Viewport K :=
  let (d, next) := Diagram.build measure v.settings.layout e v.nextId
  let put := fun v : Viewport K =>
    { v with stage := v.stage.add (.diagram d), root := some d.value.id, nextId := next }
  let v := if v.settings.resetViewOnParse then (put v.reset).fit else put v.dropDiagram
  v.arrange

/-- Follows the source: whether the diagram was rebuilt, or why the text has none. The diagram
stays as it is when the text is the same as before or cannot be read. -/
def setText (v : Viewport K) (measure : TextMeasure K) (text : String) :
    Except SyntaxError Bool × Viewport K :=
  let (outcome, document) := v.document.update v.settings.parse text
  let v := { v with document := document }
  match outcome with
  | .unchanged => (.ok false, v)
  | .failed e => (.error e, v)
  | .parsed e => (.ok true, v.display measure e)

/-! ### Pointer and keys -/

def hit? (v : Viewport K) (p : Point K) : Option Path :=
  v.diagram?.bind (Diagram.hit? (v.camera.toWorld p))

def remark (mark : Bool → Path → Diagram K → Diagram K) (before after : Option Path)
    (d : Diagram K) : Diagram K :=
  let d := match before with
    | some path => mark false path d
    | none => d
  match after with
  | some path => mark true path d
  | none => d

def hover (v : Viewport K) (p : Point K) : Bool × Viewport K :=
  let hit := v.hit? p
  if v.diagram?.isNone ∨ hit = v.active then (false, v)
  else
    (true, { v with active := hit }.modifyDiagram (remark Diagram.setActive v.active hit))

def click (v : Viewport K) (p : Point K) : Bool × Viewport K :=
  let hit := v.hit? p
  if v.diagram?.isNone ∨ hit = v.selected then (false, v)
  else
    (true, { v with selected := hit }.modifyDiagram (remark Diagram.setSelected v.selected hit))

def runShortcut (v : Viewport K) (s : Shortcut) : Viewport K :=
  match s.pan? v.settings.scrollSpeed with
  | some delta => v.panScaled delta
  | none =>
    match s with
    | .zoomIn => v.zoom v.settings.zoomIn
    | .zoomOut => v.zoom v.settings.zoomOut
    | .refit => v.refit
    | .panLeft | .panUp | .panRight | .panDown => v

/-- Answers to an event: whether anything visible may have changed. -/
def handle (v : Viewport K) : Input K → Bool × Viewport K
  | .pointerDown _ => (false, { v with dragging := true })
  | .pointerMove place movement =>
    let (changed, v) := v.hover place
    if v.dragging then (true, v.panScaled movement) else (changed, v)
  | .pointerUp place => { v with dragging := false }.click place
  | .wheel amount =>
    if 0 < amount then (true, v.zoom v.settings.zoomOut)
    else if amount < 0 then (true, v.zoom v.settings.zoomIn)
    else (false, v)
  | .key name =>
    if v.hotkeys then
      match Shortcut.ofKey? name v.editing with
      | some s => (true, v.runShortcut s)
      | none => (false, v)
    else (false, v)

end Viewport

end SExprViewer
