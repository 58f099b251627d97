import SExprViewer.Proofs.Diagram.Extent
import SExprViewer.Proofs.Diagram.Shape
import SExprViewer.Proofs.Placement

/-! # Diagrams that glide into place

Arranging a diagram sends every node below the root to its slot (`valueAt?_arrange`), which comes
from the sizes and the spacing alone, wherever the nodes stand or glide to (`slotAt?_shape`).  With
a positive speed the nodes glide there: each is in its slot once the time for the way has passed,
and on the way before (`glide_to_slot`). -/
set_option autoImplicit false

namespace SExprViewer.Diagram

section Slots
variable {K : Type} [ExactScalar K]

/-- The place that arranging sends a node to; the root is left where it is. -/
def slotAt? (layout : LayoutSettings K) : Diagram K → Path → Option (Point K)
  | _, [] => none
  | d, [i] => d.children[i]?.map fun c =>
      slot layout (slotLeft layout (reachLeft d.value) d.children i) c.value
  | d, i :: j :: path => d.children[i]?.bind fun c => slotAt? layout c (j :: path)

variable {layout : LayoutSettings K}

theorem slotAt?_cons_cons {d c : Diagram K} {i : Nat} (hc : d.children[i]? = some c) (j : Nat)
    (path : Path) : slotAt? layout d (i :: j :: path) = slotAt? layout c (j :: path) := by
  rw [slotAt?, hc, Option.bind_some]

theorem slotLeft_shape (cs : List (Diagram K)) : ∀ (left : K) (i : Nat),
    slotLeft layout left (cs.map shape) i = slotLeft layout left cs i := by
  induction cs with
  | nil => intro left i; rfl
  | cons c rest ih =>
      intro left i
      cases i with
      | zero => rfl
      | succ i =>
          have hwidth : c.shape.value.treeWidth = c.value.treeWidth := by
            rw [value_shape]
            rfl
          rw [List.map_cons, slotLeft, slotLeft, hwidth, ih]

theorem slotAt?_shape (path : Path) : ∀ d : Diagram K,
    slotAt? layout d.shape path = slotAt? layout d path := by
  induction path with
  | nil => intro d; rfl
  | cons i path ih =>
      intro d
      have hchild : d.shape.children[i]? = d.children[i]?.map shape := by
        rw [children_shape, List.getElem?_map]
      cases path with
      | nil =>
          rw [slotAt?, slotAt?, hchild, Option.map_map]
          refine congrArg (Option.map · d.children[i]?) (funext fun c => ?_)
          rw [Function.comp_apply, children_shape, slotLeft_shape, value_shape, value_shape]
          rfl
      | cons j path =>
          cases hc : d.children[i]? with
          | none => rw [slotAt?, slotAt?, hchild, hc]; rfl
          | some c =>
              rw [hc] at hchild
              rw [slotAt?_cons_cons hc, slotAt?_cons_cons hchild, ih]

theorem slotLeft_glideVelocity (v : K) (cs : List (Diagram K)) : ∀ (left : K) (i : Nat),
    slotLeft { layout with glideVelocity := v } left cs i = slotLeft layout left cs i := by
  induction cs with
  | nil => intro left i; rfl
  | cons c rest ih =>
      intro left i
      cases i with
      | zero => rfl
      | succ i => exact ih _ i

/-- The speed decides when a node is in its slot, but not where that is. -/
theorem slotAt?_glideVelocity (v : K) (path : Path) : ∀ d : Diagram K,
    slotAt? { layout with glideVelocity := v } d path = slotAt? layout d path := by
  induction path with
  | nil => intro d; rfl
  | cons i path ih =>
      intro d
      cases path with
      | nil =>
          rw [slotAt?, slotAt?, slotLeft_glideVelocity]
          rfl
      | cons j path =>
          rw [slotAt?, slotAt?]
          exact congrArg (Option.bind d.children[i]?) (funext ih)

theorem exists_slotAt? (layout : LayoutSettings K) (path : Path) : ∀ {d : Diagram K} {n : Node K},
    path ≠ [] → d.valueAt? path = some n → ∃ place, slotAt? layout d path = some place := by
  induction path with
  | nil => intro d n hpath _; exact absurd rfl hpath
  | cons i path ih =>
      intro d n _ hn
      rw [Tree.valueAt?_cons] at hn
      obtain ⟨c, hc, hn⟩ := Option.bind_eq_some_iff.mp hn
      cases path with
      | nil => exact ⟨_, by rw [slotAt?, hc, Option.map_some]⟩
      | cons j path =>
          obtain ⟨place, hplace⟩ := ih (List.cons_ne_nil j path) hn
          exact ⟨place, by rw [slotAt?_cons_cons hc, hplace]⟩

/-- The node, sent to a place if there is one. -/
def sentTo (v : K) (place : Option (Point K)) (n : Node K) : Node K :=
  place.elim n fun q => { n with placement := n.placement.glideTo q v }

theorem valueAt?_arrange (path : Path) : ∀ d : Diagram K, (arrange layout d).valueAt? path =
    (d.valueAt? path).map (sentTo layout.glideVelocity (slotAt? layout d path)) := by
  induction path with
  | nil =>
      intro d
      change some (arrange layout d).value = some d.value
      rw [value_arrange]
  | cons i path ih =>
      intro d
      rw [Tree.valueAt?_cons, Tree.valueAt?_cons, children_arrange, getElem?_arrangeAll]
      cases hc : d.children[i]? with
      | none => rfl
      | some c =>
          rw [Option.map_some, Option.bind_some, Option.bind_some, sendToSlot]
          cases path with
          | nil =>
              have hslot : slotAt? layout d [i] = some
                  (slot layout (slotLeft layout (reachLeft d.value) d.children i) c.value) := by
                rw [slotAt?, hc, Option.map_some]
              rw [Tree.valueAt?_modifyRoot_nil, ih c, hslot, value_arrange]
              rfl
          | cons j path => rw [Tree.valueAt?_modifyRoot_cons, ih c, slotAt?_cons_cons hc]

theorem valueAt?_foldl_step (es : List K) (path : Path) : ∀ d : Diagram K,
    (es.foldl step d).valueAt? path = (d.valueAt? path).map fun n =>
      { n with placement := es.foldl Placement.step n.placement } := by
  induction es with
  | nil => intro d; simp
  | cons e es ih =>
      intro d
      rw [List.foldl_cons, ih, step, mapPlacement, Tree.valueAt?_map, Option.map_map]
      rfl

end Slots

variable {K : Type} [MetricScalar K] {layout : LayoutSettings K}

/-- Every node below the root of an arranged diagram is in its slot, without a glide, as soon as
the time for its way has passed, however that is cut into steps.  Before, it glides on the straight
way there.  The slot is where arranging without a speed puts the node, and is the same for all
diagrams of this shape. -/
theorem glide_to_slot (hspeed : 0 < layout.glideVelocity) (d : Diagram K) {es : List K}
    (hes : ∀ e ∈ es, 0 ≤ e) {path : Path} (hpath : path ≠ []) {n : Node K}
    (hn : d.valueAt? path = some n) :
    ∃ place m, slotAt? layout d path = some place ∧
      (∀ d' : Diagram K, d'.shape = d.shape → ∃ n',
        (arrange { layout with glideVelocity := 0 } d').valueAt? path = some n' ∧
          n'.placement.position = place ∧ n'.placement.motion = .idle) ∧
      (es.foldl step (arrange layout d)).valueAt? path = some m ∧
      ((place.sub n.placement.position).length ≤ layout.glideVelocity * es.sum →
        m.placement.position = place ∧ m.placement.motion = .idle) ∧
      (layout.glideVelocity * es.sum < (place.sub n.placement.position).length →
        m.placement.motion = .gliding ∧ m.placement.target = some place ∧
        (∃ k, 0 ≤ k ∧ k < 1 ∧ m.placement.position = n.placement.position.between place k) ∧
        (place.sub m.placement.position).length =
          (place.sub n.placement.position).length - layout.glideVelocity * es.sum) := by
  obtain ⟨place, hplace⟩ := exists_slotAt? layout path hpath hn
  obtain ⟨harrived, hunderway⟩ :=
    Placement.foldl_step_glideTo n.placement place hspeed hes
  have hvalue : (es.foldl step (arrange layout d)).valueAt? path = some { n with
      placement := es.foldl Placement.step
        (n.placement.glideTo place layout.glideVelocity) } := by
    rw [valueAt?_foldl_step, valueAt?_arrange, hplace, hn]
    rfl
  refine ⟨place, _, hplace, ?_, hvalue, ?_, ?_⟩
  · intro d' hshape
    have hnode := congrArg (fun d => d.valueAt? path) hshape
    dsimp only [shape] at hnode
    rw [Tree.valueAt?_map, Tree.valueAt?_map, hn] at hnode
    obtain ⟨n', hn', -⟩ := Option.map_eq_some_iff.mp hnode
    have hslot : slotAt? layout d' path = some place := by
      rw [← slotAt?_shape, hshape, slotAt?_shape, hplace]
    refine ⟨{ n' with placement := n'.placement.glideTo place 0 }, ?_, ?_⟩
    · rw [valueAt?_arrange, slotAt?_glideVelocity, hslot, hn']
      rfl
    · rw [Placement.glideTo, if_neg (by simp)]
      exact ⟨rfl, rfl⟩
  · intro h
    obtain ⟨hposition, htarget⟩ := harrived h
    exact ⟨hposition, by rw [Placement.motion, htarget]; rfl⟩
  · intro h
    obtain ⟨hposition, htarget⟩ := hunderway h
    have hway : 0 ≤ layout.glideVelocity * es.sum := mul_nonneg hspeed.le (List.sum_nonneg hes)
    have hpos := hway.trans_lt h
    have hpart := (div_lt_one hpos).mpr h
    refine ⟨by rw [Placement.motion, htarget]; rfl, htarget,
      ⟨_, div_nonneg hway hpos.le, hpart, hposition⟩, ?_⟩
    rw [hposition, Point.length_sub_between _ _ hpart.le]
    field_simp

/-- At one unit a millisecond the way of 37.5 units is done within 40 milliseconds. -/
theorem glide_to_slot_child :
    let layout : LayoutSettings ℝ := { LayoutSettings.standard with glideVelocity := 1 }
    let d := (build (fun _ => 6) layout (.list [.list []]) .first).1
    0 < layout.glideVelocity ∧ (∀ e ∈ [10, 20, (10 : ℝ)], 0 ≤ e) ∧ ([0] : Path) ≠ [] ∧
      (∃ n, d.valueAt? [0] = some n ∧ n.placement.position = ⟨0, 0⟩) ∧
      ∃ m, ([10, 20, 10].foldl step (arrange layout d)).valueAt? [0] = some m ∧
        m.placement.position = ⟨0, 75 / 2⟩ ∧ m.placement.motion = .idle := by
  intro layout d
  have hspeed : 0 < layout.glideVelocity := one_pos
  have hes : ∀ e ∈ [10, 20, (10 : ℝ)], 0 ≤ e := by simp
  have hpath : ([0] : Path) ≠ [] := List.cons_ne_nil 0 []
  obtain ⟨n, hn⟩ := Option.isSome_iff_exists.mp (rfl : (d.valueAt? [0]).isSome = true)
  have hn₀ : n.placement.position = ⟨0, 0⟩ := by
    cases hn
    rfl
  obtain ⟨place, m, hslot, -, hm, harrived, -⟩ := glide_to_slot hspeed d hes hpath hn
  have hplace : place = ⟨0, 75 / 2⟩ := by
    rw [← Option.some.inj hslot]
    change (⟨-max (max ((25 : ℕ) : ℝ) (0 + (5 : ℕ) + (10 : ℕ)))
        (0 + max (max ((25 : ℕ) : ℝ) (0 + (10 : ℕ))) 0 + (7 : ℕ) * (0 : ℕ)) / (2 : ℕ) +
      max ((25 : ℕ) : ℝ) (0 + (5 : ℕ) + (10 : ℕ)) / (2 : ℕ) +
      max (max ((25 : ℕ) : ℝ) (0 + (10 : ℕ))) 0 / (2 : ℕ) -
      max ((25 : ℕ) : ℝ) (0 + (10 : ℕ)) / (2 : ℕ), (375 : ℕ) / 10 ^ 1⟩ : Point ℝ) = ⟨0, 75 / 2⟩
    norm_num
  have hway : (place.sub n.placement.position).length = 75 / 2 := by
    rw [hplace, hn₀]
    change √((0 - 0) * (0 - 0) + (75 / 2 - 0) * (75 / 2 - 0)) = (75 / 2 : ℝ)
    rw [show ((0 - 0) * (0 - 0) + (75 / 2 - 0) * (75 / 2 - 0) : ℝ) = (75 / 2) ^ 2 by norm_num,
      Real.sqrt_sq (by norm_num)]
  have hreach : (place.sub n.placement.position).length ≤
      layout.glideVelocity * [10, 20, (10 : ℝ)].sum := by
    rw [hway]
    change (75 / 2 : ℝ) ≤ 1 * (10 + (20 + (10 + 0)))
    norm_num
  obtain ⟨hposition, hmotion⟩ := harrived hreach
  exact ⟨hspeed, hes, hpath, ⟨n, hn, hn₀⟩, m, hm, hposition.trans hplace, hmotion⟩

end SExprViewer.Diagram
