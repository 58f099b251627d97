import SExprViewer.Proofs.Diagram.Painting
import SExprViewer.Proofs.Diagram.Shape
import SExprViewer.Stage.Basic

/-! # The texts of a frame

To the texts of a display list a frame adds the labels of its diagrams, node by node in document
order, and nothing else (`texts_run`, `texts_picture`). -/
set_option autoImplicit false

namespace SExprViewer

variable {K : Type}

/-! ## Labels -/

def Segment.text? : Segment K → Option String
  | .label text _ => some text
  | .link _ => none

def Diagram.labels (d : Diagram K) : List String :=
  d.preorder.flatMap fun n => n.body.filterMap Segment.text?

theorem Diagram.labels_node (n : Node K) (cs : List (Diagram K)) :
    labels (.node n cs) = n.body.filterMap Segment.text? ++ cs.flatMap labels := by
  rw [labels, Tree.preorder, Tree.preorderAll_eq, List.flatMap_cons, List.flatMap_assoc]
  rfl

def Actor.labels : Actor K → List String
  | .diagram d => d.labels
  | .marker _ _ => []

variable [Scalar K]

theorem Diagram.labels_shape (d : Diagram K) : d.shape.labels = d.labels := by
  rw [labels, shape, Tree.preorder_map, List.flatMap_map]
  rfl

/-! ## Programs -/

def Instruction.text? : Instruction K → Option String
  | .fillText text _ _ => some text
  | _ => none

theorem DisplayList.texts_apply (list : DisplayList K) (i : Instruction K) :
    (list.apply i).texts = list.texts ++ i.text?.toList := by
  cases i <;> simp [apply, texts, shapeOf?, Instruction.text?]

theorem DisplayList.texts_run (program : List (Instruction K)) : ∀ list : DisplayList K,
    (list.run program).texts = list.texts ++ program.filterMap Instruction.text? := by
  induction program with
  | nil => intro list; exact (List.append_nil _).symm
  | cons i program ih =>
      intro list
      change ((list.apply i).run program).texts = _
      rw [ih, texts_apply, List.append_assoc]
      cases h : i.text? <;> simp [h]

namespace Diagram

theorem texts_paintBox (theme : Theme K) (n : Node K) :
    (paintBox theme n).filterMap Instruction.text? = [] := by
  unfold paintBox
  cases n.active <;> cases n.selected <;> rfl

theorem texts_paintSegments (theme : Theme K) (n : Node K) (cs : List (Diagram K))
    (body : List (Segment K)) : ∀ x, (paintSegments theme n cs x body).filterMap Instruction.text? =
      body.filterMap Segment.text? := by
  induction body with
  | nil => intro x; rfl
  | cons s rest ih =>
      intro x
      cases s with
      | label text width => exact congrArg (text :: ·) (ih _)
      | link k =>
          rw [paintSegments, List.filterMap_append, ih]
          cases cs[k]? <;> rfl

theorem texts_paint (theme : Theme K) (d : Diagram K) :
    (paint theme d).filterMap Instruction.text? = d.labels := by
  induction d using Tree.node_induction with
  | node n cs ih =>
      have hchildren : (paintAll theme cs).filterMap Instruction.text? = cs.flatMap labels := by
        rw [paintAll_eq, List.filterMap_flatMap]
        exact List.flatMap_congr ih
      have hnode : (paintNode theme n cs).filterMap Instruction.text? =
          n.body.filterMap Segment.text? := by
        rw [paintNode, List.filterMap_append, texts_paintBox, texts_paintSegments, List.nil_append]
      rw [paint, labels_node, List.filterMap_cons_none rfl, List.filterMap_cons_none rfl,
        List.filterMap_append, List.filterMap_append, hnode, hchildren]
      exact congrArg _ (List.append_nil _)

end Diagram

theorem Actor.texts_paint (theme : Theme K) (a : Actor K) :
    (a.paint theme).filterMap Instruction.text? = a.labels := by
  cases a with
  | diagram d => exact Diagram.texts_paint theme d
  | marker id p => rfl

namespace Stage

theorem texts_picture (s : Stage K) :
    s.picture.filterMap Instruction.text? = s.actors.flatMap Actor.labels := by
  have hclear : s.clear.filterMap Instruction.text? = [] := by
    unfold clear
    dsimp only
    cases s.theme.background == .transparent <;> rfl
  rw [picture, List.filterMap_append, List.filterMap_append, hclear, paint, List.filterMap_flatMap]
  exact List.flatMap_congr fun a _ => a.texts_paint s.theme

end Stage

end SExprViewer
