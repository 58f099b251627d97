import SExprViewer.Proofs.Diagram.Extent

/-! # Rows

Segments stand side by side in a body and subtrees below a node, with a gap between neighbours.
Both widths are a `rowWidth` (`bodyWidth_eq`, `childrenWidth_eq`), which grows with every width and
with the gap (`rowWidth_mono`), and with what is put into the row (`rowWidth_sublist`). -/
set_option autoImplicit false

namespace SExprViewer.Diagram

variable {K : Type} [ExactScalar K]

/-- The width of things side by side with a gap between neighbours. -/
def rowWidth (gap : K) (ws : List K) : K := ws.sum + gap * (ws.length - 1 : Nat)

theorem rowWidth_nil (gap : K) : rowWidth gap [] = 0 := by simp [rowWidth]

theorem rowWidth_singleton (gap w : K) : rowWidth gap [w] = w := by simp [rowWidth]

theorem rowWidth_cons_cons (gap w v : K) (ws : List K) :
    rowWidth gap (w :: v :: ws) = w + gap + rowWidth gap (v :: ws) := by
  simp only [rowWidth, List.sum_cons, List.length_cons, Nat.add_sub_cancel]
  push_cast
  ring

theorem rowWidth_mono {gap gap' : K} (hgap : gap ≤ gap') {ws ws' : List K}
    (h : List.Forall₂ (· ≤ ·) ws ws') : rowWidth gap ws ≤ rowWidth gap' ws' := by
  rw [rowWidth, rowWidth, h.length_eq]
  exact add_le_add h.sum_le_sum (mul_le_mul_of_nonneg_right hgap (Nat.cast_nonneg _))

theorem rowWidth_sublist {gap : K} (hgap : 0 ≤ gap) {ws ws' : List K} (h : ws.Sublist ws')
    (hws : ∀ w ∈ ws', 0 ≤ w) : rowWidth gap ws ≤ rowWidth gap ws' := by
  have hlength : ((ws.length - 1 : Nat) : K) ≤ (ws'.length - 1 : Nat) :=
    Nat.cast_le.mpr (Nat.sub_le_sub_right h.length_le 1)
  exact add_le_add (h.sum_le_sum hws) (mul_le_mul_of_nonneg_left hlength hgap)

theorem bodyWidth_eq (connectorSize gap : K) (body : List (Segment K)) : ∀ start : K,
    bodyWidth connectorSize gap start body =
      start + rowWidth gap (body.map (segmentWidth connectorSize)) := by
  induction body with
  | nil => intro start; rw [bodyWidth, List.map_nil, rowWidth_nil, add_zero]
  | cons s rest ih =>
      intro start
      cases rest with
      | nil => rw [bodyWidth, List.map_singleton, rowWidth_singleton]
      | cons t rest =>
          rw [bodyWidth, ih, List.map_cons, List.map_cons, List.map_cons, rowWidth_cons_cons]
          · ring
          · nofun

theorem childrenWidth_eq (layout : LayoutSettings K) (cs : List (Diagram K)) :
    childrenWidth layout cs = rowWidth layout.neighborSpacing (cs.map (·.value.treeWidth)) := by
  induction cs with
  | nil => rw [List.map_nil, rowWidth_nil]; rfl
  | cons c rest ih =>
      cases rest with
      | nil => rw [childrenWidth_singleton, List.map_singleton, rowWidth_singleton]
      | cons d rest =>
          rw [childrenWidth_cons_cons, ih, List.map_cons, List.map_cons, List.map_cons,
            rowWidth_cons_cons]

end SExprViewer.Diagram
