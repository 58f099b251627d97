import SExprViewer.Proofs.Diagram.Nodes

/-! # The shape of a diagram

Bodies and sizes of the nodes come from the expression, the measure and the metrics alone
(`shape_build`); identities, places and marks do not show in the shape.  The widths of the labels
do (`LabelsBy.of_shape`), and come from the measure (`labelsBy_build`). -/
set_option autoImplicit false

namespace SExprViewer

variable {K : Type} [Scalar K]

/-- The node without its identity, its place and its marks. -/
def Node.shape (n : Node K) : Node K :=
  { n with id := .first, placement := .atOrigin, active := false, selected := false }

namespace Diagram

variable {measure : TextMeasure K} {layout : LayoutSettings K}

def shape (d : Diagram K) : Diagram K := d.map Node.shape

theorem value_shape (d : Diagram K) : d.shape.value = d.value.shape := Tree.value_map ..

theorem children_shape (d : Diagram K) : d.shape.children = d.children.map shape :=
  Tree.children_map ..

theorem childrenWidth_shape (cs : List (Diagram K)) :
    childrenWidth layout (cs.map shape) = childrenWidth layout cs := by
  simp [childrenWidth, List.foldl_map, shape, Node.shape]

theorem treeHeightOver_shape (height : K) (cs : List (Diagram K)) :
    treeHeightOver layout height (cs.map shape) = treeHeightOver layout height cs := by
  simp [treeHeightOver, List.foldl_map, shape, Node.shape]

theorem shape_ofItems (items : List Expr) (cs : List (Diagram K)) (id : ObjectId) :
    (ofItems measure layout items cs id).shape =
      ofItems measure layout items (cs.map shape) .first := by
  simp only [ofItems, shape, Tree.map_node]
  rw [childrenWidth_shape, treeHeightOver_shape]
  rfl

theorem shape_buildAll (items : List Expr) : ∀ next next',
    (buildAll measure layout items next).1.map shape =
      (buildAll measure layout items next').1.map shape := by
  induction items using Expr.items_induction with
  | nil => intro next next'; rfl
  | atom a rest ih => intro next next'; exact ih next next'
  | list inner rest ihInner ih =>
      intro next next'
      simp only [buildAll, Expr.isList, if_true, List.map_cons]
      congr 1
      · simp only [build, shape_ofItems, ihInner next next']
      · exact ih _ _

theorem shape_build (e : Expr) (next next' : ObjectId) :
    (build measure layout e next).1.shape = (build measure layout e next').1.shape := by
  cases e with
  | atom a => simp only [build, shape_ofItems]
  | list items => simp only [build, shape_ofItems, shape_buildAll items next next']

/-! ## Labels -/

/-- Every label is as wide as a measure makes it. -/
def LabelsBy (measure : TextMeasure K) (d : Diagram K) : Prop :=
  d.All fun n => ∀ text width, .label text width ∈ n.body → width = measure text

omit [Scalar K] in
theorem width_of_mem_segments {text : String} {width : K} (items : List Expr) :
    ∀ k, Segment.label text width ∈ segments measure k items → width = measure text := by
  induction items with
  | nil => intro k h; simp [segments] at h
  | cons item rest ih =>
      intro k h
      cases item with
      | atom a =>
          rcases List.mem_cons.mp h with heq | h
          · cases heq
            rfl
          · exact ih k h
      | list items =>
          rcases List.mem_cons.mp h with heq | h
          · cases heq
          · exact ih (k + 1) h

theorem labelsBy_build (e : Expr) (next : ObjectId) :
    (build measure layout e next).1.LabelsBy measure :=
  all_build (fun items _ _ _ _ h => width_of_mem_segments items 0 h) e next

theorem LabelsBy.of_shape {d d' : Diagram K} (h : d'.LabelsBy measure)
    (hshape : d.shape = d'.shape) : d.LabelsBy measure := by
  have hbody : ∀ d : Diagram K, d.map Node.body = d.shape.map Node.body := by
    intro d
    rw [shape, Tree.map_map]
    exact Tree.map_congr (fun _ => rfl) d
  refine Tree.All.of_map_eq (P := fun body : List (Segment K) => ∀ text width,
    Segment.label text width ∈ body → width = measure text) h ?_
  rw [hbody d, hbody d', hshape]

end Diagram

end SExprViewer
