import SExprViewer.Geometry.Rect

/-! # The camera

The camera takes the space of the objects, the world, to the pixels of the canvas: a uniform
scale, then a shift.  A centered camera has the origin of the world at the center of
the canvas and pans in world units, scaled along with everything else; otherwise the pan is
in pixels. -/
set_option autoImplicit false

namespace SExprViewer

structure Camera (K : Type) where
  scale : K
  pan : Vec K
  centered : Bool
  canvas : Size K
deriving BEq, Repr, DecidableEq

namespace Camera

variable {K : Type} [Scalar K]

def new (canvas : Size K) (centered : Bool) : Camera K := ⟨1, .zero, centered, canvas⟩

def setCentered (c : Camera K) (centered : Bool) : Camera K := { c with centered := centered }
def setCanvas (c : Camera K) (canvas : Size K) : Camera K := { c with canvas := canvas }
def setScale (c : Camera K) (scale : K) : Camera K := { c with scale := scale }
def scaleBy (c : Camera K) (factor : K) : Camera K := { c with scale := c.scale * factor }
def panBy (c : Camera K) (delta : Vec K) : Camera K := { c with pan := c.pan.add delta }

/-- Pans by `delta` divided by the scale: centered, the picture moves by `delta` pixels. -/
def panScaled (c : Camera K) (delta : Vec K) : Camera K := c.panBy (delta.divBy c.scale)

/-- Back to scale one and no pan. -/
def clear (c : Camera K) : Camera K := { c with scale := 1, pan := .zero }

/-- The shift on the canvas. -/
def offset (c : Camera K) : Vec K :=
  if c.centered then (c.canvas.toVec.divBy (Scalar.ofNat 2)).add (c.pan.scale c.scale) else c.pan

def affine (c : Camera K) : Affine K := (Affine.shift c.offset).mul (.scale c.scale)

def toWorld (c : Camera K) (p : Point K) : Point K := c.affine.inverse.apply p

def toCanvas (c : Camera K) (p : Point K) : Point K := c.affine.apply p

/-- The part of the world that is on the canvas. -/
def visible (c : Camera K) : Rect K := .ofOriginSize (c.toWorld .origin) (c.canvas.divBy c.scale)

end Camera

end SExprViewer
