import SExprViewer.Proofs.Diagram.Rows
import SExprViewer.Proofs.Viewport.Built

/-! # A diagram in its place

The root of a diagram is put a third of the diagram's height above the origin, and everything else
below it.  What is drawn lies in `placedArea` (`placed_within`), which is as wide and as high as
the diagram, and reaches its upper and its lower edge (`exists_placed_top`,
`exists_placed_bottom`). -/
set_option autoImplicit false

namespace SExprViewer

variable {K : Type} [ExactScalar K]

theorem Rect.contains_top {r : Rect K} (hx : r.x0 ≤ r.x1) (hy : r.y0 ≤ r.y1) :
    r.Contains ⟨r.x0, r.y0⟩ := ⟨le_rfl, hx, le_rfl, hy⟩

theorem Rect.contains_bottom {r : Rect K} (hx : r.x0 ≤ r.x1) (hy : r.y0 ≤ r.y1) :
    r.Contains ⟨r.x0, r.y1⟩ := ⟨le_rfl, hx, hy, le_rfl⟩

namespace Viewport

open Diagram (Shows Measured Stacked boxAt?)

variable {layout : LayoutSettings K} {d : Diagram K}

theorem value_placed (d : Diagram K) : (placed layout d).value =
    { d.value with placement := d.value.placement.moveTo (rootPlace d.value) } := by
  rw [placed, Diagram.value_arrange, Tree.value_modifyRoot]

theorem boxAt?_placed (hstill : layout.glideVelocity = 0) {b : Diagram K}
    (hshape : d.shape = b.shape) (path : Path) :
    boxAt? (placed layout d) path = boxAt? (Diagram.arrange layout b) path := by
  have hroot : (d.modifyRoot fun n => { n with
      placement := n.placement.moveTo (rootPlace n) }).map Node.shape = d.shape := by
    obtain ⟨n, cs⟩ := d
    rw [Tree.modifyRoot, Diagram.shape, Tree.map_node, Tree.map_node]
    rfl
  rw [placed, ← Diagram.boxAt?_arrange_shape hstill, Diagram.shape, hroot, hshape,
    Diagram.boxAt?_arrange_shape hstill]

theorem shows_placed (hd : d.BuiltBy layout) {m : Affine K} {path : Path} {p : Point K} :
    Shows m (placed layout d) path p ↔ ∃ r, boxAt? (placed layout d) path = some r ∧
      ∃ q, (r.moveBy (rootPlace d.value).toVec).Contains q ∧ m.apply q = p := by
  have hupright : (placed layout d).Upright := (hd.of_map_eq (form_placed layout d)).upright
  rw [Diagram.shows_iff_boxAt? path m _ p hupright, value_placed]
  rfl

/-- What a diagram takes up in its place: as wide and as high as it is, and hung by a third. -/
def placedArea (root : Node K) : Rect K where
  x0 := -root.treeWidth / 2
  y0 := -(root.treeHeight / 3 + root.height / 2)
  x1 := root.treeWidth / 2
  y1 := 2 * root.treeHeight / 3 - root.height / 2

/-- Where that is on the canvas of a camera that is centered and not panned. -/
def fittedArea (c : Camera K) (root : Node K) : Rect K where
  x0 := c.canvas.width / 2 + c.scale * (placedArea root).x0
  y0 := c.canvas.height / 2 + c.scale * (placedArea root).y0
  x1 := c.canvas.width / 2 + c.scale * (placedArea root).x1
  y1 := c.canvas.height / 2 + c.scale * (placedArea root).y1

theorem fittedArea_placed (c : Camera K) (d : Diagram K) :
    fittedArea c (placed layout d).value = fittedArea c d.value := by
  rw [value_placed]
  rfl

/-! ## Sizes -/

/-- The diagram has the sizes of one that is measured and stacked. -/
structure SizedAs (layout : LayoutSettings K) (b d : Diagram K) : Prop where
  shape : d.shape = b.shape
  measured : Measured layout b
  stacked : Stacked layout b
  width : d.value.width = b.value.width
  minNodeWidth : layout.minNodeWidth ≤ d.value.width
  height : d.value.height = layout.minNodeHeight
  treeWidth : d.value.treeWidth = b.value.treeWidth
  treeHeight : d.value.treeHeight = b.value.treeHeight

section Built
variable (hd : d.BuiltBy layout) (hmetrics : layout.Nonnegative)
include hd hmetrics

theorem exists_sizedAs : ∃ b, SizedAs layout b d := by
  obtain ⟨measure, e, next, hshape⟩ := hd.exists_shape
  have hmeasured := Diagram.measured_build hmetrics measure e next
  have hroot : d.value.shape = (Diagram.build measure layout e next).1.value.shape := by
    rw [← Diagram.value_shape, hshape, Diagram.value_shape]
  have hsize {α : Type} (f : Node K → α) (hf : ∀ n, f n.shape = f n) :
      f d.value = f (Diagram.build measure layout e next).1.value := by
    rw [← hf, hroot, hf]
  have hwidth := hsize Node.width fun _ => rfl
  have hmin : (Diagram.build measure layout e next).1.All fun n => layout.minNodeWidth ≤ n.width :=
    Diagram.all_build (fun _ _ _ => le_max_left ..) e next
  exact ⟨_, hshape, hmeasured, Diagram.stacked_build measure layout e next, hwidth,
    hwidth ▸ hmin.root, (hsize Node.height fun _ => rfl).trans hmeasured.height_eq,
    hsize Node.treeWidth fun _ => rfl, hsize Node.treeHeight fun _ => rfl⟩

theorem treeWidth_pos (hwidth : 0 < layout.minNodeWidth) : 0 < d.value.treeWidth := by
  obtain ⟨b, hb⟩ := exists_sizedAs hd hmetrics
  calc 0 < layout.minNodeWidth := hwidth
    _ ≤ d.value.width := hb.minNodeWidth
    _ = b.value.width := hb.width
    _ ≤ b.value.treeWidth := hb.measured.width_le
    _ = d.value.treeWidth := hb.treeWidth.symm

theorem treeHeight_pos (hheight : 0 < layout.minNodeHeight) : 0 < d.value.treeHeight := by
  obtain ⟨b, hb⟩ := exists_sizedAs hd hmetrics
  rw [hb.treeHeight, hb.stacked.treeHeight_eq]
  exact hheight.trans_le (Diagram.le_treeHeightOver layout _ _)

/-! ## Boxes -/

variable (hstill : layout.glideVelocity = 0)
include hstill

theorem placed_within {path : Path} {r : Rect K} (hr : boxAt? (placed layout d) path = some r) :
    (r.moveBy (rootPlace d.value).toVec).Within (placedArea d.value) := by
  obtain ⟨b, hb⟩ := exists_sizedAs hd hmetrics
  rw [boxAt?_placed hstill hb.shape] at hr
  obtain ⟨hleft, hright⟩ :=
    Diagram.boxAt?_within hmetrics.neighborSpacing hstill path b r hb.measured hr
  have htop := (Diagram.boxAt?_rows hstill path b r hb.measured hr).1
  have hbottom := Diagram.boxAt?_le_treeHeight hstill path b r hb.measured hb.stacked hr
  have hrow : 0 ≤ (path.length : K) * layout.childSpacing :=
    mul_nonneg (Nat.cast_nonneg _) hmetrics.childSpacing
  simp only [Diagram.reachRight, Diagram.reachLeft, ExactScalar.ofNat_eq_cast, Nat.cast_ofNat]
    at hleft hright
  simp only [Rect.Within, Rect.moveBy, placedArea, rootPlace, Point.toVec,
    ExactScalar.ofNat_eq_cast, Nat.cast_ofNat, hb.width, hb.height, hb.treeWidth, hb.treeHeight]
  refine ⟨?_, ?_, ?_, ?_⟩ <;> linarith

theorem placed_nonempty {path : Path} {r : Rect K} (hr : boxAt? (placed layout d) path = some r)
    (v : Vec K) : (r.moveBy v).x0 ≤ (r.moveBy v).x1 ∧ (r.moveBy v).y0 ≤ (r.moveBy v).y1 := by
  obtain ⟨b, hb⟩ := exists_sizedAs hd hmetrics
  rw [boxAt?_placed hstill hb.shape] at hr
  obtain ⟨hx, hy⟩ :=
    Diagram.boxAt?_nonempty hstill hmetrics.minNodeHeight path b r hb.measured hr
  exact ⟨add_le_add_left hx _, add_le_add_left hy _⟩

theorem exists_placed_top : ∃ path r q, boxAt? (placed layout d) path = some r ∧
    (r.moveBy (rootPlace d.value).toVec).Contains q ∧ q.y = (placedArea d.value).y0 := by
  obtain ⟨b, hb⟩ := exists_sizedAs hd hmetrics
  have hbox : boxAt? (Diagram.arrange layout b) [] = some (Diagram.arrange layout b).value.box :=
    Diagram.boxAt?_nil _
  have htop := (Diagram.boxAt?_rows hstill [] b _ hb.measured hbox).1
  rw [← boxAt?_placed hstill hb.shape] at hbox
  obtain ⟨hx, hy⟩ := placed_nonempty hd hmetrics hstill hbox (rootPlace d.value).toVec
  refine ⟨[], _, _, hbox, Rect.contains_top hx hy, ?_⟩
  simp only [Rect.moveBy, placedArea, rootPlace, Point.toVec, htop, hb.height,
    ExactScalar.ofNat_eq_cast, Nat.cast_ofNat, List.length_nil, Nat.cast_zero]
  ring

theorem exists_placed_bottom : ∃ path r q, boxAt? (placed layout d) path = some r ∧
    (r.moveBy (rootPlace d.value).toVec).Contains q ∧ q.y = (placedArea d.value).y1 := by
  obtain ⟨b, hb⟩ := exists_sizedAs hd hmetrics
  obtain ⟨path, r, hr, hbottom⟩ := Diagram.exists_boxAt?_treeHeight hstill hb.measured hb.stacked
  rw [← boxAt?_placed hstill hb.shape] at hr
  obtain ⟨hx, hy⟩ := placed_nonempty hd hmetrics hstill hr (rootPlace d.value).toVec
  refine ⟨path, r, _, hr, Rect.contains_bottom hx hy, ?_⟩
  simp only [Rect.moveBy, placedArea, rootPlace, Point.toVec, hbottom, hb.height, hb.treeHeight,
    ExactScalar.ofNat_eq_cast, Nat.cast_ofNat]
  ring

end Built

end Viewport

end SExprViewer
