import SExprViewer.Geometry.Affine
import SExprViewer.Stage.Frames
import SExprViewer.Text.Measure

/-! # The page

The page owns the canvas context that is drawn on, measures texts in the context's font and
runs animation frames on request.  It notes every call it receives, failing ones included.
Calls that can fail are named by `failing`. -/
set_option autoImplicit false

namespace SExprViewer

inductive PageCall (K : Type) where
  | getContext (kind : String)
  | setFont (font : String)
  | setFillStyle (style : String)
  | setStrokeStyle (style : String)
  | setLineWidth (width : K)
  | save
  | restore
  | setTransform (m : Affine K)
  | beginPath
  | moveTo (p : Point K)
  | lineTo (p : Point K)
  | quadraticCurveTo (c p : Point K)
  | bezierCurveTo (c₁ c₂ p : Point K)
  | closePath
  | clearRect (corner : Point K) (size : Size K)
  | fillRect (corner : Point K) (size : Size K)
  | strokeRect (corner : Point K) (size : Size K)
  | fill
  | stroke
  | fillText (text : String) (p : Point K)
  | measureText (text : String)
  | requestAnimationFrame
  | cancelAnimationFrame (handle : Nat)
deriving Repr

inductive FallibleCall where
  | setTransform | fillText | measureText | requestAnimationFrame | cancelAnimationFrame
deriving DecidableEq, Repr

namespace FallibleCall

def all : List FallibleCall :=
  [.setTransform, .fillText, .measureText, .requestAnimationFrame, .cancelAnimationFrame]

def name : FallibleCall → String
  | .setTransform => "setTransform"
  | .fillText => "fillText"
  | .measureText => "measureText"
  | .requestAnimationFrame => "requestAnimationFrame"
  | .cancelAnimationFrame => "cancelAnimationFrame"

def ofName? (text : String) : Option FallibleCall := all.find? fun c => c.name = text

end FallibleCall

structure Page (K : Type) where
  hasWindow : Bool
  measure : String → TextMeasure K
  font : String
  failing : List FallibleCall
  /-- The number of frames that were asked for, also the last handle. -/
  requested : Nat
  pending : List Nat
  calls : Array (PageCall K)

namespace Page

variable {K : Type}

def note (p : Page K) (c : PageCall K) : Page K := { p with calls := p.calls.push c }

def noteAll (p : Page K) (cs : List (PageCall K)) : Page K := cs.foldl note p

def fails (p : Page K) (c : FallibleCall) : Bool := p.failing.contains c

def setFont (p : Page K) (font : String) : Page K := { p.note (.setFont font) with font := font }

/-- The width that measuring a text gives: an estimate by characters when measuring fails. -/
def widthOf [Scalar K] (p : Page K) : TextMeasure K := fun text =>
  if p.fails .measureText then fixedAdvance standardAdvance text else p.measure p.font text

def noteMeasured (p : Page K) (texts : List String) : Page K := p.noteAll (texts.map .measureText)

/-- Asks for a frame; the handle is 0 when there is none. -/
def requestFrame (p : Page K) : Nat × Page K :=
  if !p.hasWindow then (0, p)
  else
    let p := p.note .requestAnimationFrame
    if p.fails .requestAnimationFrame then (0, p)
    else
      let handle := p.requested + 1
      (handle, { p with requested := handle, pending := p.pending ++ [handle] })

def cancelFrame (handle : Nat) (p : Page K) : Page K :=
  if !p.hasWindow then p
  else
    let p := p.note (.cancelAnimationFrame handle)
    if p.fails .cancelAnimationFrame then p else { p with pending := p.pending.erase handle }

def frameHost : FrameHost (Page K) := ⟨requestFrame, cancelFrame⟩

end Page

end SExprViewer
