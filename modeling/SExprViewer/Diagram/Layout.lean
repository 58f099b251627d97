import SExprViewer.Diagram.Basic
import SExprViewer.Settings.Basic
import SExprViewer.Text.Measure

/-! # Layout

`build` makes the nodes of an expression from the leaves up: every node knows its own size
and that of its subtree before its parent is measured.  `arrange` then places every node
below its parent, from the root down: children side by side, the parent centered over
them. -/
set_option autoImplicit false

namespace SExprViewer

namespace Diagram

variable {K : Type} [Scalar K]

open Scalar (ofNat)

/-! ### Sizes -/

def segments (measure : TextMeasure K) (k : Nat) : List Expr → List (Segment K)
  | [] => []
  | .atom a :: rest =>
    let text := String.ofList a.label
    .label text (measure text) :: segments measure k rest
  | .list _ :: rest => .link k :: segments measure (k + 1) rest

def segmentWidth (connectorSize : K) : Segment K → K
  | .label _ width => width
  | .link _ => connectorSize

/-- Width of a body, with a gap wherever another segment follows, on top of `start`. -/
def bodyWidth (connectorSize spacing : K) (start : K) : List (Segment K) → K
  | [] => start
  | [s] => start + segmentWidth connectorSize s
  | s :: rest =>
    bodyWidth connectorSize spacing (start + segmentWidth connectorSize s + spacing) rest

def childrenWidth (layout : LayoutSettings K) (children : List (Diagram K)) : K :=
  if children.isEmpty then 0
  else
    children.foldl (fun sum c => sum + c.value.treeWidth) 0
      + layout.neighborSpacing * ofNat (children.length - 1)

def treeHeightOver (layout : LayoutSettings K) (height : K) (children : List (Diagram K)) : K :=
  children.foldl (fun most c => max most (c.value.treeHeight + layout.childSpacing)) height

def ofItems (measure : TextMeasure K) (layout : LayoutSettings K) (items : List Expr)
    (children : List (Diagram K)) (id : ObjectId) : Diagram K :=
  let body := segments measure 0 items
  let textWidth := bodyWidth layout.connectorSize layout.segmentSpacing 0 body
  let width := max layout.minNodeWidth (textWidth + layout.padding)
  let height := layout.minNodeHeight
  .node
    { id := id
      placement := .atOrigin
      body := body
      textWidth := textWidth
      width := width
      height := height
      treeWidth := max width (childrenWidth layout children)
      treeHeight := treeHeightOver layout height children
      connectorSize := layout.connectorSize
      segmentSpacing := layout.segmentSpacing
      active := false
      selected := false }
    children

mutual

/-- The diagram of an expression, a bare atom being taken for a list of one item. Identities
are taken from `next` on, those of the children first. -/
def build (measure : TextMeasure K) (layout : LayoutSettings K) :
    Expr → ObjectId → Diagram K × ObjectId
  | .list items, next =>
    let (children, next) := buildAll measure layout items next
    (ofItems measure layout items children next, next.next)
  | .atom a, next => (ofItems measure layout [.atom a] [] next, next.next)

def buildAll (measure : TextMeasure K) (layout : LayoutSettings K) :
    List Expr → ObjectId → List (Diagram K) × ObjectId
  | [], next => ([], next)
  | e :: rest, next =>
    if e.isList then
      let (d, next) := build measure layout e next
      let (ds, next) := buildAll measure layout rest next
      (d :: ds, next)
    else buildAll measure layout rest next

end

/-! ### Places -/

/-- Sends the root of a child to its slot when `left` is the left edge of its subtree. -/
def sendToSlot (layout : LayoutSettings K) (left : K) (d : Diagram K) : Diagram K :=
  let n := d.value
  let slot : Point K := ⟨left + n.treeWidth / ofNat 2 - n.width / ofNat 2, layout.childSpacing⟩
  d.modifyRoot fun n => { n with placement := n.placement.glideTo slot layout.glideVelocity }

mutual

def arrange (layout : LayoutSettings K) : Diagram K → Diagram K
  | .node n cs =>
    .node n (arrangeAll layout (-n.treeWidth / ofNat 2 + n.width / ofNat 2) cs)

def arrangeAll (layout : LayoutSettings K) (left : K) : List (Diagram K) → List (Diagram K)
  | [] => []
  | c :: rest =>
    sendToSlot layout left (arrange layout c)
      :: arrangeAll layout (left + (c.value.treeWidth + layout.neighborSpacing)) rest

end

end Diagram

end SExprViewer
