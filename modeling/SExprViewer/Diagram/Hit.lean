import SExprViewer.Diagram.Basic

/-! # Finding the node at a point

Points are given in the space that the root is placed in.  A node's own box comes before
those of its children, and these are tried from left to right. -/
set_option autoImplicit false

namespace SExprViewer

namespace Diagram

variable {K : Type} [Scalar K]

def toLocal (n : Node K) (p : Point K) : Point K := n.transform.inverse.apply p

mutual

def hit? (p : Point K) : Diagram K → Option Path
  | .node n cs =>
    let q := toLocal n p
    if n.covers q then some [] else hitAll? q 0 cs

def hitAll? (p : Point K) (i : Nat) : List (Diagram K) → Option Path
  | [] => none
  | d :: rest =>
    match hit? p d with
    | some path => some (i :: path)
    | none => hitAll? p (i + 1) rest

end

mutual

def under? (p : Point K) : Diagram K → Option (Diagram K)
  | .node n cs =>
    let q := toLocal n p
    if n.covers q then some (.node n cs) else underAll? q cs

def underAll? (p : Point K) : List (Diagram K) → Option (Diagram K)
  | [] => none
  | d :: rest =>
    match under? p d with
    | some found => some found
    | none => underAll? p rest

end

/-- The map from the space of the node at a path to the space that `m` leads to from the root. -/
def transformFrom? (m : Affine K) (d : Diagram K) : Path → Option (Affine K)
  | [] => some m
  | i :: path => d.children[i]?.bind fun c => transformFrom? (m.mul c.value.transform) c path

def transformAt? (d : Diagram K) (path : Path) : Option (Affine K) :=
  transformFrom? d.value.transform d path

/-- The upright rectangle around the box of the node at a path. -/
def boundsAt? (d : Diagram K) (path : Path) : Option (Rect K) := do
  let n ← d.at? path
  let m ← transformAt? d path
  some (n.value.box.image m)

end Diagram

end SExprViewer
