import SExprViewer.Diagram.Basic
import SExprViewer.Draw.Instruction
import SExprViewer.Settings.Basic

/-! # Painting

A node paints in its own space: its box, the marks of its state, then its body, centered in
the box.  A link is a line from its connector's dot to the middle of the child's upper edge.
Children paint after their parent, each inside its own transform. -/
set_option autoImplicit false

namespace SExprViewer

namespace Diagram

variable {K : Type} [Scalar K]

open Scalar (ofNat)

def paintBox (theme : Theme K) (n : Node K) : List (Instruction K) :=
  [.fillRect n.box theme.nodeFill, .strokeRect n.box theme.nodeStroke theme.lineWidth]
    ++ (if n.active then [.fillRect n.box theme.highlight] else [])
    ++ (if n.selected then
          [.strokeRect (n.box.inflate theme.lineWidth theme.lineWidth) theme.selection
            theme.lineWidth]
        else [])

/-- The middle of a child's upper edge, in the space of its parent. -/
def topCenter (child : Node K) : Point K :=
  child.placement.position.add ⟨child.width / ofNat 2, -child.height / ofNat 2⟩

def paintLink (theme : Theme K) (n : Node K) (x : K) (child : Node K) : List (Instruction K) :=
  let dot : Point K := ⟨x + n.connectorSize / ofNat 2, n.connectorSize / ofNat 4⟩
  [.strokeOutline (Outline.segment dot (topCenter child))
      (if n.active then theme.linkActive else theme.link) theme.lineWidth,
    .fillOutline (Outline.circle dot (n.connectorSize / ofNat 2)) theme.connector]

/-- The segments of a body from `x` on. A link without a child keeps its room. -/
def paintSegments (theme : Theme K) (n : Node K) (children : List (Diagram K)) (x : K) :
    List (Segment K) → List (Instruction K)
  | [] => []
  | .label text width :: rest =>
    .fillText text ⟨x, theme.textBaseline⟩ theme.text
      :: paintSegments theme n children (x + (width + n.segmentSpacing)) rest
  | .link k :: rest =>
    (match children[k]? with
      | some child => paintLink theme n x child.value
      | none => [])
      ++ paintSegments theme n children (x + (n.connectorSize + n.segmentSpacing)) rest

def bodyStart (n : Node K) : K := n.width / ofNat 2 - n.textWidth / ofNat 2

def paintNode (theme : Theme K) (n : Node K) (children : List (Diagram K)) :
    List (Instruction K) :=
  paintBox theme n ++ paintSegments theme n children (bodyStart n) n.body

mutual

def paint (theme : Theme K) : Diagram K → List (Instruction K)
  | .node n cs =>
    .save :: .transform n.transform :: (paintNode theme n cs ++ (paintAll theme cs ++ [.restore]))

def paintAll (theme : Theme K) : List (Diagram K) → List (Instruction K)
  | [] => []
  | d :: rest => paint theme d ++ paintAll theme rest

end

end Diagram

end SExprViewer
