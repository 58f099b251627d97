import SExprViewer.Proofs.Camera
import SExprViewer.Proofs.Diagram.Upright
import SExprViewer.Proofs.Viewport.Display

/-! # Picking what is drawn

After a click the selected node, and after a movement of the pointer the active one, is the one
whose box is drawn over the point (`picked_iff_shows`): the camera and the maps along the path
bring some point of the box there.  In an arranged diagram there is one such node at most. -/
set_option autoImplicit false

namespace SExprViewer

namespace Diagram

variable {K : Type} [Scalar K]

/-- A diagram without marks. -/
def unmarked (d : Diagram K) : Diagram K :=
  d.map fun n => { n with active := false, selected := false }

theorem boxAt?_map {f : Node K → Node K} (hbox : ∀ n, (f n).box = n.box)
    (hplacement : ∀ n, (f n).placement = n.placement) (path : Path) : ∀ d : Diagram K,
    boxAt? (d.map f) path = boxAt? d path := by
  induction path with
  | nil => intro d; rw [boxAt?, boxAt?, Tree.value_map, hbox]
  | cons i path ih =>
      intro d
      rw [boxAt?, boxAt?, Tree.children_map, List.getElem?_map]
      cases d.children[i]? with
      | none => rfl
      | some c => simp [ih c, hplacement]

theorem boxAt?_unmarked (d : Diagram K) (path : Path) : boxAt? d.unmarked path = boxAt? d path :=
  @boxAt?_map _ _ (fun n => { n with active := false, selected := false })
    (fun _ => rfl) (fun _ => rfl) path d

theorem upright_of_unmarked {d : Diagram K} (h : d.unmarked.Upright) : d.Upright := by
  refine h.of_map_eq ?_
  rw [unmarked, Tree.map_map]
  rfl

theorem Upright.moveRoot {d : Diagram K} (h : d.Upright) (place : Point K) :
    (d.modifyPlacement (·.moveTo place) []).Upright := by
  refine h.of_map_eq ?_
  obtain ⟨n, cs⟩ := d
  rfl

end Diagram

namespace Viewport

open Diagram (Shows CoversAt coversAt_iff_shows)

variable {K : Type} [ExactScalar K] {layout : LayoutSettings K}

/-- Where nothing covers a point twice, the search answers with what is drawn over it. -/
theorem hit?_iff_shows {v : Viewport K} {d : Diagram K} (hscale : 0 < v.camera.scale)
    (hshown : v.diagram? = some d) (hupright : d.Upright) {p : Point K}
    (hunique : ∀ path path', CoversAt (v.camera.toWorld p) d path →
      CoversAt (v.camera.toWorld p) d path' → path = path') :
    (∀ path, v.hit? p = some path ↔ Shows v.camera.affine d path p) ∧
      (v.hit? p = none ↔ ∀ path, ¬ Shows v.camera.affine d path p) := by
  have hshows : ∀ path, CoversAt (v.camera.toWorld p) d path ↔ Shows v.camera.affine d path p :=
    fun path => coversAt_iff_shows path _ p _ d hupright.invertible
      (Camera.determinant_affine hscale) (Camera.toCanvas_toWorld hscale p)
  rw [hit?_eq hshown]
  refine ⟨fun path => ?_, ?_⟩
  · rw [Diagram.hit?_eq_some_iff hunique, hshows]
  · rw [Diagram.hit?_eq_none_iff]
    exact forall_congr' fun path => not_congr (hshows path)

/-- What a click selects, and what a movement of the pointer makes active, is what is drawn
over the point: in a diagram that is built and arranged, whatever its marks, with its root at
any place, seen through any camera. -/
theorem picked_iff_shows (hmetrics : layout.Nonnegative) (hspacing : 0 < layout.neighborSpacing)
    (hrows : layout.minNodeHeight < layout.childSpacing) (hstill : layout.glideVelocity = 0)
    (measure : TextMeasure K) (e : Expr) (next : ObjectId) (place : Point K) {v : Viewport K}
    {d : Diagram K} (hscale : 0 < v.camera.scale) (hshown : v.diagram? = some d)
    (hd : d.unmarked = (Diagram.arrange layout
      (Diagram.build measure layout e next).1).modifyPlacement (·.moveTo place) [])
    (p : Point K) :
    (∀ path, ((v.click p).2.selected = some path ↔ Shows v.camera.affine d path p) ∧
      ((v.hover p).2.active = some path ↔ Shows v.camera.affine d path p)) ∧
    ((v.click p).2.selected = none ↔ ∀ path, ¬ Shows v.camera.affine d path p) ∧
    ((v.hover p).2.active = none ↔ ∀ path, ¬ Shows v.camera.affine d path p) := by
  have hmeasured := Diagram.measured_build hmetrics measure e next
  have hupright : d.Upright := by
    refine Diagram.upright_of_unmarked ?_
    rw [hd]
    exact (Diagram.upright_arrange_build measure layout e next).moveRoot place
  have hboxes : ∀ path, d.boxAt? path =
      (Diagram.arrange layout (Diagram.build measure layout e next).1).boxAt? path := by
    intro path
    rw [← Diagram.boxAt?_unmarked, hd]
    exact Diagram.boxAt?_modifyRoot _ rfl path
  obtain ⟨hsome, hnone⟩ := hit?_iff_shows hscale hshown hupright (p := p) fun _ _ =>
    Diagram.coversAt_unique hmetrics hspacing hrows hstill hupright hmeasured hboxes
  rw [selected_click hshown, active_hover hshown]
  exact ⟨fun path => ⟨hsome path, hsome path⟩, hnone, hnone⟩

theorem picked_iff_shows_child :
    let layout : LayoutSettings ℝ := .standard
    let built := (Diagram.build (fun _ => 6) layout (.list [.list []]) .first).1
    let v := (new ⟨800, 600⟩ { Settings.standard with resetViewOnParse := false }).display
      (fun _ => (6 : ℝ)) (.list [.list []])
    let d := placed layout built
    layout.Nonnegative ∧ 0 < layout.neighborSpacing ∧ layout.minNodeHeight < layout.childSpacing ∧
      layout.glideVelocity = 0 ∧ 0 < v.camera.scale ∧ v.diagram? = some d ∧
      d.unmarked =
        (Diagram.arrange layout built).modifyPlacement (·.moveTo (rootPlace built.value)) [] ∧
      ∃ a, Diagram.transformAt? d [0] = some a ∧
        (v.click ((v.camera.affine.mul a).apply ⟨1, 0⟩)).2.selected = some [0] := by
  intro layout built v d
  have hmetrics : layout.Nonnegative := LayoutSettings.standard_nonnegative
  have hspacing : 0 < layout.neighborSpacing := Nat.cast_pos.mpr (by decide)
  have hrows : layout.minNodeHeight < layout.childSpacing := by
    change ((25 : ℕ) : ℝ) < (375 : ℕ) / 10 ^ 1
    norm_num
  have hstill : layout.glideVelocity = 0 := Nat.cast_zero
  have hscale : 0 < v.camera.scale := one_pos
  have hshown : v.diagram? = some d :=
    (displays_display (showing_new _ _) (fun _ => 6) (.list [.list []])).showing.diagram?
  have hd : d.unmarked =
      (Diagram.arrange layout built).modifyPlacement (·.moveTo (rootPlace built.value)) [] := rfl
  obtain ⟨n, hn⟩ := Option.isSome_iff_exists.mp (rfl : (d.valueAt? [0]).isSome = true)
  obtain ⟨a, ha⟩ := Option.isSome_iff_exists.mp (rfl : (Diagram.transformAt? d [0]).isSome = true)
  refine ⟨hmetrics, hspacing, hrows, hstill, hscale, hshown, hd, a, ha, ?_⟩
  refine ((picked_iff_shows hmetrics hspacing hrows hstill (fun _ => 6) (.list [.list []]) .first _
    hscale hshown hd _).1 [0]).1.mpr ⟨n, a, ⟨1, 0⟩, hn, ha, ?_, rfl⟩
  cases hn
  refine ⟨zero_le_one, ?_, ?_, ?_⟩
  · have hone : (1 : ℝ) ≤ (25 : ℕ) := by norm_num
    exact hone.trans (le_max_left ..)
  · change -((25 : ℕ) : ℝ) / (2 : ℕ) ≤ 0
    norm_num
  · change (0 : ℝ) ≤ (25 : ℕ) / (2 : ℕ)
    norm_num

end Viewport

end SExprViewer
