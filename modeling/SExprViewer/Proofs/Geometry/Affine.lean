import SExprViewer.Proofs.Scalar
import SExprViewer.Geometry.Rect

/-! # Affine maps over exact scalars

Composition is one map after the other (`mul_apply`), and a map whose determinant is not zero
is undone by its inverse (`inverse_apply_eq_iff`). -/
set_option autoImplicit false

namespace SExprViewer

/-- Whether a point is in a rectangle; edges count. -/
def Rect.Contains {K : Type} [LE K] (r : Rect K) (p : Point K) : Prop :=
  r.x0 ≤ p.x ∧ p.x ≤ r.x1 ∧ r.y0 ≤ p.y ∧ p.y ≤ r.y1

/-- A rectangle moved as a whole. -/
def Rect.moveBy {K : Type} [Add K] (r : Rect K) (v : Vec K) : Rect K :=
  ⟨r.x0 + v.x, r.y0 + v.y, r.x1 + v.x, r.y1 + v.y⟩

namespace Affine

variable {K : Type} [ExactScalar K]

theorem mul_apply (m n : Affine K) (p : Point K) : (m.mul n).apply p = m.apply (n.apply p) := by
  simp only [mul, apply, Point.mk.injEq]
  constructor <;> ring

theorem mul_assoc (l m n : Affine K) : (l.mul m).mul n = l.mul (m.mul n) := by
  simp only [mul, Affine.mk.injEq]
  refine ⟨?_, ?_, ?_, ?_, ?_, ?_⟩ <;> ring

theorem determinant_mul (m n : Affine K) :
    (m.mul n).determinant = m.determinant * n.determinant := by
  simp only [mul, determinant]
  ring

theorem determinant_shift (v : Vec K) : (shift v).determinant = 1 := by
  simp [shift, determinant]

theorem determinant_scale (s : K) : (scale s).determinant = s * s := by
  simp [scale, determinant]

theorem determinant_rotate (angle : K) : (rotate angle).determinant = 1 := by
  simp only [rotate, determinant]
  rw [mul_neg, sub_neg_eq_add, ExactScalar.cos_mul_self_add_sin_mul_self]

theorem inverse_apply_eq_iff {m : Affine K} (h : m.determinant ≠ 0) {p q : Point K} :
    m.inverse.apply p = q ↔ m.apply q = p := by
  obtain ⟨a, b, c, d, e, f⟩ := m
  obtain ⟨x, y⟩ := p
  simp only [determinant] at h
  simp only [inverse, apply, determinant]
  constructor
  · rintro rfl
    simp only [Point.mk.injEq]
    constructor <;> field_simp <;> ring
  · intro hq
    simp only [Point.mk.injEq] at hq
    obtain ⟨rfl, rfl⟩ := hq
    obtain ⟨x, y⟩ := q
    simp only [Point.mk.injEq]
    constructor <;> field_simp <;> ring

theorem apply_injective {m : Affine K} (h : m.determinant ≠ 0) {p q : Point K}
    (hpq : m.apply p = m.apply q) : p = q := by
  rw [← (inverse_apply_eq_iff h).mpr hpq, (inverse_apply_eq_iff h).mpr rfl]

end Affine

end SExprViewer
