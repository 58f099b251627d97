import SExprViewer.Proofs.Diagram.Extent
import SExprViewer.Proofs.Diagram.Hit

/-! # Upright diagrams

Where no node is turned or scaled, boxes are only moved: a box covers a point exactly when it
contains the point in the space of the root (`contains_of_coversAt`).  Boxes that keep their
distance then cover a point at most once (`coversAt_unique`). -/
set_option autoImplicit false

namespace SExprViewer.Diagram

open Scalar (ofNat)

section Definitions
variable {K : Type} [Scalar K]

/-- Neither turned nor scaled. -/
def Upright (d : Diagram K) : Prop :=
  d.All fun n => n.placement.rotation = 0 ∧ n.placement.scale = 1

theorem Upright.of_map_eq {d d' : Diagram K} (h : d'.Upright)
    (hmap : d.map (fun n => (n.placement.rotation, n.placement.scale)) =
      d'.map fun n => (n.placement.rotation, n.placement.scale)) : d.Upright :=
  Tree.All.of_map_eq (P := fun turn : K × K => turn.1 = 0 ∧ turn.2 = 1)
    (f := fun n : Node K => (n.placement.rotation, n.placement.scale)) h hmap

theorem glideTo_rotation (p : Placement K) (q : Point K) (velocity : K) :
    (p.glideTo q velocity).rotation = p.rotation := by
  unfold Placement.glideTo
  split <;> rfl

theorem glideTo_scale (p : Placement K) (q : Point K) (velocity : K) :
    (p.glideTo q velocity).scale = p.scale := by
  unfold Placement.glideTo
  split <;> rfl

theorem upright_arrange_build (measure : TextMeasure K) (layout : LayoutSettings K) (e : Expr)
    (next : ObjectId) : Upright (arrange layout (build measure layout e next).1) := by
  have hbuild : Upright (build measure layout e next).1 :=
    all_build (fun _ _ _ => ⟨rfl, rfl⟩) e next
  refine hbuild.of_map_eq (map_arrange (fun n place velocity => ?_) _)
  rw [glideTo_rotation, glideTo_scale]

end Definitions

variable {K : Type} [ExactScalar K]

theorem transform_upright {n : Node K} (h : n.placement.rotation = 0 ∧ n.placement.scale = 1) :
    n.transform = Affine.shift n.placement.position.toVec := by
  rw [Node.transform, Placement.transform, h.1, h.2]
  simp [Affine.rotate, Affine.scale, Affine.mul, Affine.shift, ExactScalar.cos_zero,
    ExactScalar.sin_zero]

theorem Upright.invertible {d : Diagram K} (h : d.Upright) : d.Invertible := by
  intro path n hn
  rw [transform_upright (h path n hn), Affine.determinant_shift]
  exact one_ne_zero

theorem contains_moveBy_of_toLocal {n : Node K} {r : Rect K} {p : Point K}
    (hn : n.placement.rotation = 0 ∧ n.placement.scale = 1) (h : r.Contains (toLocal n p)) :
    (r.moveBy n.placement.position.toVec).Contains p := by
  have hdet : n.transform.determinant ≠ 0 := by
    rw [transform_upright hn, Affine.determinant_shift]
    exact one_ne_zero
  have hp := apply_toLocal hdet p
  rw [transform_upright hn] at hp
  generalize toLocal n p = q at h hp
  obtain ⟨h₁, h₂, h₃, h₄⟩ := h
  rw [← hp]
  simp only [Rect.Contains, Rect.moveBy, Affine.apply, Affine.shift, Point.toVec]
  refine ⟨?_, ?_, ?_, ?_⟩ <;> linarith

theorem contains_of_coversAt (path : Path) : ∀ (p : Point K) (d : Diagram K), d.Upright →
    CoversAt p d path → ∃ r, boxAt? d path = some r ∧ r.Contains (toLocal d.value p) := by
  induction path with
  | nil =>
      intro p d _ h
      exact ⟨d.value.box, boxAt?_nil d, (covers_iff _ _).mp h⟩
  | cons i path ih =>
      intro p d hd h
      obtain ⟨c, hc, h⟩ := h
      obtain ⟨r, hr, hcontains⟩ := ih _ c (hd.child hc) h
      refine ⟨_, ?_, contains_moveBy_of_toLocal (hd.child hc).root hcontains⟩
      rw [boxAt?_cons, hc, Option.bind_some, hr, Option.map_some]

variable {layout : LayoutSettings K}

theorem boxAt?_unique (hspacing : 0 < layout.neighborSpacing)
    (hheight : 0 ≤ layout.minNodeHeight) (hrows : layout.minNodeHeight < layout.childSpacing)
    (hstill : layout.glideVelocity = 0) {d : Diagram K} (hd : Measured layout d) {p q : Path}
    {r s : Rect K} {a : Point K} (hr : boxAt? (arrange layout d) p = some r)
    (hs : boxAt? (arrange layout d) q = some s) (hra : r.Contains a) (hsa : s.Contains a) :
    p = q := by
  have hchild : 0 ≤ layout.childSpacing := hheight.trans hrows.le
  obtain ⟨hr₁, hr₂, hr₃, hr₄⟩ := hra
  obtain ⟨hs₁, hs₂, hs₃, hs₄⟩ := hsa
  by_contra hne
  rcases lt_trichotomy p.length q.length with hlt | heq | hgt
  · have h := boxAt?_above hchild hstill hd hlt hr hs
    rw [Rect.Above] at h
    linarith
  · rcases lt_or_gt_of_ne hne with hlt | hgt
    · have h := boxAt?_ordered hspacing.le hstill p q d r s hd heq hlt hr hs
      rw [Rect.LeftOf] at h
      linarith
    · have h := boxAt?_ordered hspacing.le hstill q p d s r hd heq.symm hgt hs hr
      rw [Rect.LeftOf] at h
      linarith
  · have h := boxAt?_above hchild hstill hd hgt hs hr
    rw [Rect.Above] at h
    linarith

/-- At most one box of an arranged diagram covers a point, wherever its root is placed. -/
theorem coversAt_unique (hmetrics : layout.Nonnegative) (hspacing : 0 < layout.neighborSpacing)
    (hrows : layout.minNodeHeight < layout.childSpacing) (hstill : layout.glideVelocity = 0)
    {d d' : Diagram K} (hupright : d.Upright) (hd' : Measured layout d')
    (hboxes : ∀ path, boxAt? d path = boxAt? (arrange layout d') path) {a : Point K}
    {p q : Path} (hp : CoversAt a d p) (hq : CoversAt a d q) : p = q := by
  obtain ⟨r, hr, hra⟩ := contains_of_coversAt p a d hupright hp
  obtain ⟨s, hs, hsa⟩ := contains_of_coversAt q a d hupright hq
  rw [hboxes] at hr hs
  exact boxAt?_unique hspacing hmetrics.minNodeHeight hrows hstill hd' hr hs hra hsa

end SExprViewer.Diagram
