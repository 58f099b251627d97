import SExprViewer.Page.Canvas
import SExprViewer.Settings.Json
import SExprViewer.Viewport.Basic

/-! # The viewer

A viewer is a viewport on the canvas of a page.  It draws a frame whenever the page runs the
callback it asked for.  The page can run that callback also while a call of the viewer's own
is under way; the viewer is then in use and the frame is skipped, so that such frames leave
no trace and need no state. -/
set_option autoImplicit false

namespace SExprViewer

inductive ContextAnswer where
  | drawing
  | none
  | other
  | failed
deriving DecidableEq, Repr

inductive OpenError where
  | noContext
  | otherContext
  | contextFailed
deriving DecidableEq, Repr

namespace OpenError

def message : OpenError → String
  | .noContext => "canvas has no 2d context"
  | .otherContext => "not a 2d context"
  | .contextFailed => "getContext failed"

/-- Whether the page raised the error, and not the viewer. -/
def isFromPage : OpenError → Bool
  | .noContext => false
  | .otherContext | .contextFailed => true

end OpenError

structure Viewer where
  viewport : Viewport Float
  canvas : Canvas Float
  /-- Whether the viewer is there to answer to frames. -/
  attached : Bool

namespace Viewer

def page (v : Viewer) : Page Float := v.canvas.page

def modifyPage (v : Viewer) (f : Page Float → Page Float) : Viewer :=
  { v with canvas := { v.canvas with page := f v.canvas.page } }

/-- The page after it was asked for a context, and the viewer, if there can be one. -/
def create (page : Page Float) (answer : ContextAnswer) (size : Size Float) :
    Page Float × Except OpenError Viewer :=
  let page := page.note (.getContext "2d")
  (page, match answer with
    | .none => .error .noContext
    | .other => .error .otherContext
    | .failed => .error .contextFailed
    | .drawing =>
      let viewport := Viewport.new size .standard
      .ok ⟨viewport, .new page viewport.settings.theme.font, true⟩)

/-! ### Source -/

/-- Follows the source text: whether it could be read. The labels of a new diagram are
measured by the page in their order. -/
def setText (v : Viewer) (text : String) : Bool × Viewer :=
  let measured := match (v.viewport.document.update v.viewport.settings.parse text).1 with
    | .parsed e => e.labels
    | .unchanged | .failed _ => []
  let (result, viewport) := v.viewport.setText v.page.widthOf text
  (result.isOk, { v with viewport := viewport }.modifyPage (·.noteMeasured measured))

def lastError? (v : Viewer) : Option String := v.viewport.document.lastError.map SyntaxError.message

def selectedText? (v : Viewer) : Option String := v.viewport.selectedDiagram?.map Diagram.source

/-! ### Frames -/

def withStage (v : Viewer) (r : Stage Float × Page Float) : Viewer :=
  { v with viewport := { v.viewport with stage := r.1 } }.modifyPage fun _ => r.2

def run (v : Viewer) (now : Float) : Viewer :=
  v.withStage (v.viewport.stage.run Page.frameHost now v.page)

def stop (v : Viewer) : Viewer := v.withStage (v.viewport.stage.stop Page.frameHost v.page)

def frame (v : Viewer) (t : Float) : Viewer :=
  if v.attached then
    match v.viewport.stage.frame? Page.frameHost t v.page with
    | none => v
    | some (stage, page, program) =>
      let v := v.withStage (stage, page)
      { v with canvas := v.canvas.run program }
  else v

/-- The page runs all pending frames at the time `t`. -/
def runPending (v : Viewer) (t : Float) : Viewer :=
  v.page.pending.foldl (fun v _ => v.frame t) (v.modifyPage fun p => { p with pending := [] })

/-- The page runs the last callback that was asked for, pending or not. -/
def runStray (v : Viewer) (t : Float) : Viewer := if v.page.requested = 0 then v else v.frame t

def drop (v : Viewer) : Viewer := { v.stop with attached := false }

/-! ### Input and view -/

def modifyViewport (v : Viewer) (f : Viewport Float → Viewport Float) : Viewer :=
  { v with viewport := f v.viewport }

def handle (v : Viewer) (e : Input Float) : Bool × Viewer :=
  let (changed, viewport) := v.viewport.handle e
  (changed, { v with viewport := viewport })

/-! ### Settings -/

/-- Replaces the settings by those of a JSON text; `none` if it holds none. -/
def setSettingsText? (v : Viewer) (text : String) : Option Viewer :=
  (Settings.read? text).map fun settings =>
    { v with
      canvas := v.canvas.setFont settings.theme.font
      viewport := v.viewport.setSettings settings }

def settingsText (v : Viewer) : String := v.viewport.settings.render

end Viewer

end SExprViewer
