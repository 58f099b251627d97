import SExprViewer.Geometry.Affine

/-! # Placements

Where an object stands in the space of its parent, and the glide it may be on.  A glide
moves straight to its target at a fixed speed and ends exactly there. -/
set_option autoImplicit false

namespace SExprViewer

structure Placement (K : Type) where
  position : Point K
  rotation : K
  scale : K
  target : Option (Point K)
  /-- Units per millisecond, of the last glide. -/
  velocity : K
deriving BEq, Repr, DecidableEq

inductive Motion where
  | idle
  | gliding
deriving DecidableEq, Repr

namespace Placement

variable {K : Type} [Scalar K]

def atOrigin : Placement K := ⟨.origin, 0, 1, none, 0⟩

def motion (p : Placement K) : Motion := if p.target.isSome then .gliding else .idle

def moveTo (p : Placement K) (q : Point K) : Placement K :=
  { p with position := q, target := none }

def turnTo (p : Placement K) (angle : K) : Placement K := { p with rotation := angle }
def turnBy (p : Placement K) (angle : K) : Placement K := { p with rotation := p.rotation + angle }
def scaleTo (p : Placement K) (scale : K) : Placement K := { p with scale := scale }

/-- Starts a glide to `q`; without a positive speed, or when the object is there already,
it is put there at once. -/
def glideTo (p : Placement K) (q : Point K) (velocity : K) : Placement K :=
  if 0 < velocity ∧ (q == p.position) = false then
    { p with target := some q, velocity := velocity }
  else p.moveTo q

/-- Lets `elapsed` milliseconds pass. A glide whose rest is within reach ends. -/
def step (p : Placement K) (elapsed : K) : Placement K :=
  match p.target with
  | none => p
  | some target =>
    let travel := p.velocity * max elapsed 0
    let displacement := target.sub p.position
    let remaining := displacement.length
    if remaining ≤ travel then p.moveTo target
    else { p with position := p.position.add (displacement.scale (travel / remaining)) }

/-- From the object's own space to that of its parent: turned, scaled, then moved. -/
def transform (p : Placement K) : Affine K :=
  ((Affine.shift p.position.toVec).mul (.scale p.scale)).mul (.rotate p.rotation)

end Placement

end SExprViewer
