import SExprViewer.Proofs.Scalar
import SExprViewer.Placement

/-! # Glides

A glide covers the straight way to its target at its speed, however the time is cut into steps:
two steps in a row do what one step of both times does (`step_step`), and so does any number of
them (`foldl_step`).  After the time that the way takes a glide has ended at its target, and
before that it is on the way, as far along as its speed has brought it (`foldl_step_glideTo`). -/
set_option autoImplicit false

namespace SExprViewer

/-- Exact scalars with lengths of vectors: not negative, zero for the zero vector only, and
scaled as the vector is scaled. -/
class MetricScalar (K : Type) extends ExactScalar K where
  hypot_nonneg (x y : K) : 0 ≤ Scalar.hypot x y
  eq_zero_of_hypot (x y : K) : Scalar.hypot x y = 0 → x = 0 ∧ y = 0
  hypot_mul (k x y : K) : 0 ≤ k → Scalar.hypot (k * x) (k * y) = k * Scalar.hypot x y

noncomputable instance : MetricScalar ℝ where
  hypot_nonneg _ _ := Real.sqrt_nonneg _
  eq_zero_of_hypot x y h := by
    have hsum : x * x + y * y = 0 :=
      (Real.sqrt_eq_zero (add_nonneg (mul_self_nonneg x) (mul_self_nonneg y))).mp h
    exact mul_self_add_mul_self_eq_zero.mp hsum
  hypot_mul k x y hk := by
    change √(k * x * (k * x) + k * y * (k * y)) = k * √(x * x + y * y)
    rw [show k * x * (k * x) + k * y * (k * y) = k ^ 2 * (x * x + y * y) by ring,
      Real.sqrt_mul (sq_nonneg k), Real.sqrt_sq hk]

/-! ## Ways -/

instance {K : Type} [BEq K] [LawfulBEq K] : LawfulBEq (Point K) where
  eq_of_beq {p q} h := by
    obtain ⟨x, y⟩ := p
    obtain ⟨x', y'⟩ := q
    change (x == x' && y == y') = true at h
    simpa using h
  rfl {p} := by
    obtain ⟨x, y⟩ := p
    change (x == x && y == y) = true
    simp

/-- The point of the straight way from `p` to `q` up to which a part `k` of it is done. -/
def Point.between {K : Type} [Scalar K] (p q : Point K) (k : K) : Point K :=
  p.add ((q.sub p).scale k)

section Ways
variable {K : Type} [ExactScalar K]

theorem Point.sub_between (p q : Point K) (k : K) :
    q.sub (p.between q k) = (q.sub p).scale (1 - k) := by
  simp only [between, sub, add, Vec.scale, Vec.mk.injEq]
  constructor <;> ring

theorem Point.between_between (p q : Point K) (k l : K) :
    (p.between q k).between q l = p.between q (k + (1 - k) * l) := by
  simp only [between, sub, add, Vec.scale, Point.mk.injEq]
  constructor <;> ring

theorem Point.between_zero (p q : Point K) : p.between q 0 = p := by
  simp [between, add, Vec.scale]

end Ways

variable {K : Type} [MetricScalar K]

theorem Vec.length_scale (v : Vec K) {k : K} (hk : 0 ≤ k) : (v.scale k).length = k * v.length := by
  simp only [length, scale, mul_comm _ k]
  exact MetricScalar.hypot_mul k v.x v.y hk

theorem Vec.length_nonneg (v : Vec K) : 0 ≤ v.length := MetricScalar.hypot_nonneg v.x v.y

theorem Point.length_sub_eq_zero {p q : Point K} : (q.sub p).length = 0 ↔ q = p := by
  constructor
  · intro h
    obtain ⟨hx, hy⟩ := MetricScalar.eq_zero_of_hypot _ _ h
    obtain ⟨x, y⟩ := p
    obtain ⟨x', y'⟩ := q
    rw [Point.mk.injEq]
    exact ⟨sub_eq_zero.mp hx, sub_eq_zero.mp hy⟩
  · rintro rfl
    have hzero : q.sub q = (q.sub q).scale 0 := by simp [sub, Vec.scale]
    rw [hzero, Vec.length_scale _ le_rfl, zero_mul]

theorem Point.length_sub_between (p q : Point K) {k : K} (hk : k ≤ 1) :
    (q.sub (p.between q k)).length = (1 - k) * (q.sub p).length := by
  rw [sub_between, Vec.length_scale _ (sub_nonneg.mpr hk)]

namespace Placement

variable {p : Placement K} {q : Point K}

/-! ## Steps -/

/-- A glide does not move away from its target. -/
def Forward (p : Placement K) : Prop := p.target.isSome = true → 0 ≤ p.velocity

theorem step_idle (h : p.target = none) (elapsed : K) : p.step elapsed = p := by
  rw [step, h]

theorem step_gliding (h : p.target = some q) {elapsed : K} (helapsed : 0 ≤ elapsed) :
    p.step elapsed =
      if (q.sub p.position).length ≤ p.velocity * elapsed then p.moveTo q
      else { p with position :=
        p.position.between q (p.velocity * elapsed / (q.sub p.position).length) } := by
  rw [step, h]
  dsimp only
  rw [max_eq_left helapsed]
  rfl

theorem step_step (hp : p.Forward) {a b : K} (ha : 0 ≤ a) (hb : 0 ≤ b) :
    (p.step a).step b = p.step (a + b) := by
  cases hq : p.target with
  | none => rw [step_idle hq, step_idle hq, step_idle hq]
  | some q =>
      have hv : 0 ≤ p.velocity := hp (by rw [hq]; rfl)
      have hva : 0 ≤ p.velocity * a := mul_nonneg hv ha
      have hvb : 0 ≤ p.velocity * b := mul_nonneg hv hb
      rw [step_gliding hq ha, step_gliding hq (add_nonneg ha hb), mul_add]
      generalize hr : (q.sub p.position).length = r
      by_cases hreach : r ≤ p.velocity * a
      · rw [if_pos hreach, if_pos (by linarith)]
        exact step_idle rfl b
      · -- the first step leaves `r - velocity * a` of the way
        have hpos : 0 < r := by linarith
        have hpart : p.velocity * a / r ≤ 1 := (div_le_one hpos).mpr (by linarith)
        have hrest : (q.sub (p.position.between q (p.velocity * a / r))).length =
            r - p.velocity * a := by
          rw [Point.length_sub_between _ _ hpart, hr]
          field_simp
        have hleft : r - p.velocity * a ≠ 0 := by linarith
        have hnext := step_gliding
          (p := { p with position := p.position.between q (p.velocity * a / r) }) hq hb
        rw [if_neg hreach, hnext]
        dsimp only
        rw [hrest]
        by_cases hend : r ≤ p.velocity * a + p.velocity * b
        · rw [if_pos (by linarith), if_pos hend]
          rfl
        · rw [if_neg (by linarith), if_neg hend, Point.between_between]
          have hsum : p.velocity * a / r + (1 - p.velocity * a / r) *
              (p.velocity * b / (r - p.velocity * a)) =
                (p.velocity * a + p.velocity * b) / r := by
            field_simp
          rw [hsum]

theorem foldl_step (hp : p.Forward) (es : List K) : ∀ {a : K}, 0 ≤ a → (∀ e ∈ es, 0 ≤ e) →
    es.foldl step (p.step a) = p.step (a + es.sum) := by
  induction es with
  | nil => intro a _ _; rw [List.sum_nil, add_zero, List.foldl_nil]
  | cons e es ih =>
      intro a ha hes
      have he := hes e List.mem_cons_self
      rw [List.foldl_cons, step_step hp ha he, ih (add_nonneg ha he)
        fun e' he' => hes e' (List.mem_cons_of_mem _ he'), List.sum_cons, add_assoc]

/-! ## A glide from its start -/

theorem glideTo_cases (p : Placement K) (q : Point K) {v : K} (hv : 0 < v) :
    (q = p.position ∧ p.glideTo q v = p.moveTo q) ∨
      (q ≠ p.position ∧ p.glideTo q v = { p with target := some q, velocity := v }) := by
  unfold glideTo
  by_cases hq : q = p.position
  · exact .inl ⟨hq, if_neg fun h => by simp [hq] at h⟩
  · exact .inr ⟨hq, if_pos ⟨hv, by simpa using hq⟩⟩

/-- A glide that was started ends at its target when the time has come, and not before. -/
theorem foldl_step_glideTo (p : Placement K) (q : Point K) {v : K} (hv : 0 < v) {es : List K}
    (hes : ∀ e ∈ es, 0 ≤ e) :
    ((q.sub p.position).length ≤ v * es.sum →
      (es.foldl step (p.glideTo q v)).position = q ∧
        (es.foldl step (p.glideTo q v)).target = none) ∧
    (v * es.sum < (q.sub p.position).length →
      (es.foldl step (p.glideTo q v)).position =
          p.position.between q (v * es.sum / (q.sub p.position).length) ∧
        (es.foldl step (p.glideTo q v)).target = some q) := by
  have hsum : 0 ≤ v * es.sum := mul_nonneg hv.le (List.sum_nonneg hes)
  rcases glideTo_cases p q hv with ⟨hq, heq⟩ | ⟨hq, heq⟩
  · have hzero : (q.sub p.position).length = 0 := Point.length_sub_eq_zero.mpr hq
    have hstay : es.foldl step (p.moveTo q) = p.moveTo q := by
      clear hes hsum
      induction es with
      | nil => rfl
      | cons e es ih => rw [List.foldl_cons, step_idle rfl, ih]
    rw [heq, hstay, hzero]
    exact ⟨fun _ => ⟨rfl, rfl⟩, fun h => absurd hsum h.not_ge⟩
  · have hpos : 0 < (q.sub p.position).length :=
      (Vec.length_nonneg _).lt_of_ne fun h => hq (Point.length_sub_eq_zero.mp h.symm)
    rw [heq]
    cases es with
    | nil =>
        simp only [List.sum_nil, mul_zero, zero_div, Point.between_zero, List.foldl_nil, and_self,
          implies_true, and_true]
        exact fun h => absurd hpos h.not_gt
    | cons e es =>
        have hforward : Forward { p with target := some q, velocity := v } := fun _ => hv.le
        rw [List.foldl_cons, foldl_step hforward es (hes e List.mem_cons_self)
          fun e' he' => hes e' (List.mem_cons_of_mem _ he'), ← List.sum_cons,
          step_gliding (q := q) rfl (List.sum_nonneg hes)]
        refine ⟨fun h => ?_, fun h => ?_⟩
        · rw [if_pos h]
          exact ⟨rfl, rfl⟩
        · rw [if_neg h.not_ge]
          exact ⟨rfl, rfl⟩

end Placement

end SExprViewer
