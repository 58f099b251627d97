import SExprViewer.Geometry.Rect
import SExprViewer.ObjectId
import SExprViewer.Placement
import SExprViewer.Tree.Basic

/-! # Diagrams

A diagram is a tree of boxes, one node for every list of an expression.  The body of a node
is its segments from left to right: labels, and links to its children.

A node's own space has its origin at the left edge of the box, half way up; the box spans
`[0, width] × [-height / 2, height / 2]`.  A child is placed in the space of its parent. -/
set_option autoImplicit false

namespace SExprViewer

inductive Segment (K : Type) where
  | label (text : String) (width : K)
  | link (child : Nat)
deriving Repr

structure Node (K : Type) where
  id : ObjectId
  placement : Placement K
  body : List (Segment K)
  textWidth : K
  width : K
  height : K
  /-- Width that the node and everything below it take up. -/
  treeWidth : K
  treeHeight : K
  connectorSize : K
  segmentSpacing : K
  active : Bool
  selected : Bool
deriving Repr

abbrev Diagram (K : Type) := Tree (Node K)

variable {K : Type}

namespace Node

variable [Scalar K]

/-- Whether a point of the node's own space is in its box; edges count. -/
def covers (n : Node K) (p : Point K) : Bool :=
  let half := n.height / Scalar.ofNat 2
  0 ≤ p.x && p.x ≤ n.width && -half ≤ p.y && p.y ≤ half

def box (n : Node K) : Rect K :=
  ⟨0, -n.height / Scalar.ofNat 2, n.width, n.height / Scalar.ofNat 2⟩

def transform (n : Node K) : Affine K := n.placement.transform

end Node

namespace Diagram

def child? (d : Diagram K) : Segment K → Option (Diagram K)
  | .link k => d.children[k]?
  | .label _ _ => none

def mapPlacement (f : Placement K → Placement K) (d : Diagram K) : Diagram K :=
  d.map fun n => { n with placement := f n.placement }

def modifyPlacement (f : Placement K → Placement K) (path : Path) (d : Diagram K) : Diagram K :=
  d.modifyAt (Tree.modifyRoot fun n => { n with placement := f n.placement }) path

/-- Marks the node at a path and everything below it as active, or not. -/
def setActive (active : Bool) (path : Path) (d : Diagram K) : Diagram K :=
  d.modifyAt (Tree.map fun n => { n with active := active }) path

/-- Marks the node at a path alone as selected, or not. -/
def setSelected (selected : Bool) (path : Path) (d : Diagram K) : Diagram K :=
  d.modifyAt (Tree.modifyRoot fun n => { n with selected := selected }) path

def step [Scalar K] (d : Diagram K) (elapsed : K) : Diagram K :=
  d.mapPlacement fun p => p.step elapsed

def bodySource (children : List (List Char)) : List (Segment K) → List Char
  | [] => [')']
  | s :: rest =>
    let text := match s with
      | .label text _ => text.toList
      | .link k => children[k]?.getD []
    match rest with
    | [] => text ++ [')']
    | _ => text ++ ' ' :: bodySource children rest

mutual

def sourceChars : Diagram K → List Char
  | .node n cs => '(' :: bodySource (sourceCharsAll cs) n.body

def sourceCharsAll : List (Diagram K) → List (List Char)
  | [] => []
  | d :: rest => sourceChars d :: sourceCharsAll rest

end

/-- The labels as a source text, without the quotes around texts. -/
def source (d : Diagram K) : String := String.ofList (sourceChars d)

end Diagram

end SExprViewer
