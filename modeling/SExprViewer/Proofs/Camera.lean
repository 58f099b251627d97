import SExprViewer.Proofs.Geometry.Affine
import SExprViewer.Camera

/-! # The camera over exact scalars

A camera with a positive scale can be undone (`toWorld_toCanvas`, `toCanvas_toWorld`), and what it
takes to be visible is what it takes to the canvas, neither more nor less (`image_visible`).
Panning by so many pixels moves the whole picture by as much, or by as much divided by the scale
if the camera is not centered (`toCanvas_panScaled`). -/
set_option autoImplicit false

namespace SExprViewer.Camera

variable {K : Type} [ExactScalar K] {c : Camera K}

/-! ## There and back -/

theorem toCanvas_eq (c : Camera K) (q : Point K) :
    c.toCanvas q = ⟨c.scale * q.x + c.offset.x, c.scale * q.y + c.offset.y⟩ := by
  rw [toCanvas, affine, Affine.mul_apply]
  simp [Affine.apply, Affine.shift, Affine.scale]

theorem determinant_affine (h : 0 < c.scale) : c.affine.determinant ≠ 0 := by
  rw [affine, Affine.determinant_mul, Affine.determinant_shift, Affine.determinant_scale, one_mul]
  exact (mul_pos h h).ne'

theorem toCanvas_toWorld (h : 0 < c.scale) (p : Point K) : c.toCanvas (c.toWorld p) = p :=
  (Affine.inverse_apply_eq_iff (determinant_affine h)).mp rfl

theorem toWorld_toCanvas (h : 0 < c.scale) (q : Point K) : c.toWorld (c.toCanvas q) = q :=
  (Affine.inverse_apply_eq_iff (determinant_affine h)).mpr rfl

theorem toWorld_eq_iff (h : 0 < c.scale) {p q : Point K} : c.toWorld p = q ↔ c.toCanvas q = p :=
  Affine.inverse_apply_eq_iff (determinant_affine h)

theorem toWorld_eq (h : 0 < c.scale) (p : Point K) :
    c.toWorld p = ⟨(p.x - c.offset.x) / c.scale, (p.y - c.offset.y) / c.scale⟩ := by
  rw [toWorld_eq_iff h, toCanvas_eq, Point.mk.injEq]
  constructor <;> field_simp <;> ring

/-! ## What is visible -/

def canvasRect (c : Camera K) : Rect K := ⟨0, 0, c.canvas.width, c.canvas.height⟩

theorem visible_eq (h : 0 < c.scale) (hwidth : 0 ≤ c.canvas.width) (hheight : 0 ≤ c.canvas.height) :
    c.visible = ⟨(c.toWorld .origin).x, (c.toWorld .origin).y,
      (c.toWorld .origin).x + c.canvas.width / c.scale,
      (c.toWorld .origin).y + c.canvas.height / c.scale⟩ := by
  have hright : (c.toWorld .origin).x ≤ (c.toWorld .origin).x + c.canvas.width / c.scale :=
    le_add_of_nonneg_right (div_nonneg hwidth h.le)
  have hbottom : (c.toWorld .origin).y ≤ (c.toWorld .origin).y + c.canvas.height / c.scale :=
    le_add_of_nonneg_right (div_nonneg hheight h.le)
  rw [visible, Rect.ofOriginSize, Rect.ofPoints, Rect.mk.injEq]
  exact ⟨min_eq_left hright, min_eq_left hbottom, max_eq_right hright, max_eq_right hbottom⟩

theorem contains_visible_iff (h : 0 < c.scale) (hwidth : 0 ≤ c.canvas.width)
    (hheight : 0 ≤ c.canvas.height) (q : Point K) :
    c.visible.Contains q ↔ c.canvasRect.Contains (c.toCanvas q) := by
  -- one axis: from the world coordinate that is drawn at zero, as far as the canvas reaches
  have haxis : ∀ shift x size : K, ((0 - shift) / c.scale ≤ x ↔ 0 ≤ c.scale * x + shift) ∧
      (x ≤ (0 - shift) / c.scale + size / c.scale ↔ c.scale * x + shift ≤ size) := by
    intro shift x size
    rw [div_le_iff₀ h, ← add_div, le_div_iff₀ h]
    constructor <;> constructor <;> intro hx <;> linarith
  rw [visible_eq h hwidth hheight, toWorld_eq h, toCanvas_eq]
  unfold Rect.Contains canvasRect Point.origin
  obtain ⟨hleft, hright⟩ := haxis c.offset.x q.x c.canvas.width
  obtain ⟨htop, hbottom⟩ := haxis c.offset.y q.y c.canvas.height
  exact and_congr hleft (and_congr hright (and_congr htop hbottom))

theorem image_visible (h : 0 < c.scale) (hwidth : 0 ≤ c.canvas.width)
    (hheight : 0 ≤ c.canvas.height) :
    c.toCanvas '' {q | c.visible.Contains q} = {p | c.canvasRect.Contains p} := by
  ext p
  constructor
  · rintro ⟨q, hq, rfl⟩
    exact (contains_visible_iff h hwidth hheight q).mp hq
  · intro hp
    refine ⟨c.toWorld p, ?_, toCanvas_toWorld h p⟩
    refine (contains_visible_iff h hwidth hheight _).mpr ?_
    rwa [toCanvas_toWorld h]

/-! ## Panning -/

/-- How far the picture moves when the camera is panned by so many pixels. -/
def panShift (c : Camera K) (delta : Vec K) : Vec K :=
  if c.centered then delta else delta.divBy c.scale

theorem toCanvas_panScaled (h : 0 < c.scale) (delta : Vec K) (q : Point K) :
    (c.panScaled delta).toCanvas q = (c.toCanvas q).add (c.panShift delta) := by
  have hscale := h.ne'
  rw [toCanvas_eq, toCanvas_eq, panShift]
  cases hcentered : c.centered
  all_goals
    simp only [panScaled, panBy, offset, hcentered, Point.add, Vec.add, Vec.divBy, Vec.scale,
      Bool.false_eq_true, if_true, if_false]
    rw [Point.mk.injEq]
    constructor <;> field_simp <;> ring

end SExprViewer.Camera
