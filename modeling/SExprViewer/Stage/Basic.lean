import SExprViewer.Camera
import SExprViewer.Stage.Actor
import SExprViewer.Stage.Frames

/-! # The stage

A stage holds the root objects, the camera and the theme, and runs the frame loop: started
once, every frame asks for the next, lets the time since the last one pass for all objects,
and paints them in the order in which they were added. -/
set_option autoImplicit false

namespace SExprViewer

structure Stage (K : Type) where
  actors : List (Actor K)
  camera : Camera K
  theme : Theme K
  /-- Host time of the last frame, in milliseconds. -/
  time : K
  running : Bool
  pending : Option Nat

namespace Stage

variable {K : Type}

/-! ### Actors -/

def add (s : Stage K) (a : Actor K) : Stage K := { s with actors := s.actors ++ [a] }

def actor? (s : Stage K) (id : ObjectId) : Option (Actor K) := s.actors.find? fun a => a.id = id

def diagram? (s : Stage K) (id : ObjectId) : Option (Diagram K) := (s.actor? id).bind Actor.diagram?

def marker? (s : Stage K) (id : ObjectId) : Option (Placement K) := (s.actor? id).bind Actor.marker?

/-- Removes the first actor with an identity. -/
def remove (s : Stage K) (id : ObjectId) : Stage K :=
  { s with actors := s.actors.eraseP fun a => a.id = id }

def modifyFirst {α : Type} (p : α → Bool) (f : α → α) : List α → List α
  | [] => []
  | a :: rest => if p a then f a :: rest else a :: modifyFirst p f rest

/-- Changes the first actor with an identity, if it is a diagram. -/
def modifyDiagram (s : Stage K) (id : ObjectId) (f : Diagram K → Diagram K) : Stage K :=
  { s with actors := modifyFirst (fun a => a.id = id) (Actor.modifyDiagram f) s.actors }

def clearActors (s : Stage K) : Stage K := { s with actors := [] }

/-! ### View -/

def modifyCamera (s : Stage K) (f : Camera K → Camera K) : Stage K :=
  { s with camera := f s.camera }

def setTheme (s : Stage K) (theme : Theme K) : Stage K := { s with theme := theme }

/-! ### Frames -/

variable [Scalar K]

def new (canvas : Size K) : Stage K where
  actors := []
  camera := .new canvas false
  theme := .standard
  time := 0
  running := false
  pending := none

def step (s : Stage K) (elapsed : K) : Stage K :=
  { s with actors := s.actors.map (Actor.step elapsed) }

def refresh (s : Stage K) : List (Instruction K) := [.resetTransform, .transform s.camera.affine]

/-- Clears what is visible and lays the background over it, unless that is transparent. -/
def clear (s : Stage K) : List (Instruction K) :=
  let visible := s.camera.visible
  .clearRect visible
    :: if s.theme.background == .transparent then [] else [.fillRect visible s.theme.background]

def paint (s : Stage K) : List (Instruction K) := s.actors.flatMap (Actor.paint s.theme)

variable {σ : Type}

def cancelPending (host : FrameHost σ) (s : Stage K) (w : σ) : Stage K × σ :=
  match s.pending with
  | none => (s, w)
  | some handle => ({ s with pending := none }, host.cancel handle w)

def requestFrame (host : FrameHost σ) (s : Stage K) (w : σ) : Stage K × σ :=
  let (handle, w) := host.request w
  ({ s with pending := some handle }, w)

def run (host : FrameHost σ) (now : K) (s : Stage K) (w : σ) : Stage K × σ :=
  let (s, w) := s.cancelPending host w
  requestFrame host { s with time := now, running := true } w

def stop (host : FrameHost σ) (s : Stage K) (w : σ) : Stage K × σ :=
  let (s, w) := s.cancelPending host w
  ({ s with running := false }, w)

def picture (s : Stage K) : List (Instruction K) := s.refresh ++ s.clear ++ s.paint

/-- One frame at the host time `t`, and what it draws; nothing when the loop is stopped. -/
def frame? (host : FrameHost σ) (t : K) (s : Stage K) (w : σ) :
    Option (Stage K × σ × List (Instruction K)) :=
  if s.running then
    let (s, w) := s.requestFrame host w
    let s := { s with time := t }.step (t - s.time)
    some (s, w, s.picture)
  else none

end Stage

end SExprViewer
