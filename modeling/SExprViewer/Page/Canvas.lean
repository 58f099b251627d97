import SExprViewer.Draw.Instruction
import SExprViewer.Page.Basic

/-! # Drawing on the page

A canvas surface keeps the current transform itself and hands the whole matrix to the
context whenever it changes, so that the two cannot drift apart. -/
set_option autoImplicit false

namespace SExprViewer

structure Canvas (K : Type) where
  transforms : TransformStack K
  page : Page K

namespace Canvas

variable {K : Type} [Scalar K]

/-- A surface on the context of a page, with its font set. -/
def new (page : Page K) (font : String) : Canvas K := ⟨.initial, page.setFont font⟩

def setFont (c : Canvas K) (font : String) : Canvas K := { c with page := c.page.setFont font }

/-- The width of a text, measured by the page. -/
def measure (c : Canvas K) (text : String) : K × Canvas K :=
  (c.page.widthOf text, { c with page := c.page.noteMeasured [text] })

def stepCall : OutlineStep K → PageCall K
  | .moveTo p => .moveTo p
  | .lineTo p => .lineTo p
  | .quadTo c p => .quadraticCurveTo c p
  | .curveTo c₁ c₂ p => .bezierCurveTo c₁ c₂ p
  | .close => .closePath

def trace (o : Outline K) : List (PageCall K) := .beginPath :: o.map stepCall

def corner (r : Rect K) : Point K := ⟨r.x0, r.y0⟩
def extent (r : Rect K) : Size K := ⟨r.width, r.height⟩

/-- The calls that carry out an instruction. Restoring without anything saved makes none. -/
def callsFor (s : TransformStack K) : Instruction K → List (PageCall K)
  | .save => [.save]
  | .restore => match s.saved with
    | [] => []
    | m :: _ => [.restore, .setTransform m]
  | .resetTransform => [.setTransform .identity]
  | .transform m => [.setTransform (s.current.mul m)]
  | .clearRect r => [.clearRect (corner r) (extent r)]
  | .fillRect r color => [.setFillStyle color.toCss, .fillRect (corner r) (extent r)]
  | .strokeRect r color width =>
    [.setStrokeStyle color.toCss, .setLineWidth width, .strokeRect (corner r) (extent r)]
  | .fillOutline o color => trace o ++ [.setFillStyle color.toCss, .fill]
  | .strokeOutline o color width =>
    trace o ++ [.setStrokeStyle color.toCss, .setLineWidth width, .stroke]
  | .fillText text origin color => [.setFillStyle color.toCss, .fillText text origin]

def apply (c : Canvas K) (i : Instruction K) : Canvas K :=
  { transforms := c.transforms.apply i
    page := c.page.noteAll (callsFor c.transforms i) }

def run (c : Canvas K) (program : List (Instruction K)) : Canvas K := program.foldl apply c

end Canvas

end SExprViewer
