import SExprViewer.Proofs.Viewport.Picking
import SExprViewer.Proofs.Viewport.Reading

/-! # The node under the pointer

Marks play no part in the search for the node at a point (`hit?_unmarked`).  After a movement of
the pointer the active node is the one that the search finds with the camera as it was when the
event came (`active_pointerMove`).  A drag then pans the camera, and the node stays active that
was under the pointer before (`active_pointerMove_drag`). -/
set_option autoImplicit false

namespace SExprViewer

namespace Diagram

variable {K : Type} [Scalar K]

theorem hit?_unmarked (d : Diagram K) (p : Point K) : hit? p d.unmarked = hit? p d :=
  hit?_map (f := fun n => { n with active := false, selected := false }) (fun _ _ => rfl)
    (fun _ => rfl) d p

end Diagram

namespace Viewport

section Scalar
variable {K : Type} [Scalar K]

/-- The pointer changes marks and nothing else of the diagram. -/
theorem diagram?_hover {v : Viewport K} {d : Diagram K} (h : v.diagram? = some d) (p : Point K) :
    ∃ d', (v.hover p).2.diagram? = some d' ∧ d'.unmarked = d.unmarked := by
  rcases hover_cases v p with ⟨_, heq⟩ | ⟨_, heq⟩
  · rw [heq]
    exact ⟨d, h, rfl⟩
  · rw [heq]
    have hmark : ∀ {β : Type} {f : Node K → β}, (∀ n b, f { n with active := b } = f n) → ∀ d,
        (remark Diagram.setActive v.active (v.hit? p) d).map f = d.map f :=
      fun hf d => map_remark (Diagram.map_setActive hf) _ _ d
    have hv : diagram? { v with active := v.hit? p } = some d := h
    refine ⟨_, diagram?_modifyDiagram hv fun d => ?_, hmark (fun _ _ => rfl) d⟩
    rw [← Tree.value_map Node.id, hmark fun _ _ => rfl, Tree.value_map]

end Scalar

theorem toLocal_upright {K : Type} [ExactScalar K] {n : Node K}
    (hn : n.placement.rotation = 0 ∧ n.placement.scale = 1) (p : Point K) :
    Diagram.toLocal n p = ⟨p.x - n.placement.position.x, p.y - n.placement.position.y⟩ := by
  rw [Diagram.toLocal, Diagram.transform_upright hn]
  refine (Affine.inverse_apply_eq_iff ?_).mpr ?_
  · rw [Affine.determinant_shift]
    exact one_ne_zero
  · simp [Affine.apply, Affine.shift, Point.toVec]

theorem applyAll_pressed :
    let settings : Settings ℝ := { Settings.standard with resetViewOnParse := false }
    let v := (new ⟨800, 600⟩ settings).applyAll
      [.setText (fun _ => 6) "()", .handle (.pointerDown ⟨400, 300⟩)]
    v.camera = ⟨1, .zero, true, ⟨800, 600⟩⟩ ∧ v.dragging = true ∧ v.diagram? =
      some (placed .standard (Diagram.build (fun _ => 6) .standard (.list []) .first).1) := by
  intro settings v
  have hset : (new ⟨800, 600⟩ settings).setText (fun _ => 6) "()" =
      (.ok true, { new ⟨800, 600⟩ settings with document := ⟨some "()", none⟩ }.display
        (fun _ => 6) (.list [])) :=
          setText_of_parse (Option.some_ne_none _).symm parse_empty _
  have hv : v = { { new ⟨800, 600⟩ settings with document := ⟨some "()", none⟩ }.display
      (fun _ => 6) (.list []) with dragging := true } := by
    change { ((new ⟨800, 600⟩ settings).setText _ "()").2 with dragging := true } = _
    rw [hset]
  rw [hv]
  exact ⟨rfl, rfl, rfl⟩

theorem hit?_empty :
    let d := placed LayoutSettings.standard
      (Diagram.build (fun _ => (6 : ℝ)) .standard (.list []) .first).1
    Diagram.hit? ⟨0, 0⟩ d = some [] ∧ Diagram.hit? ⟨100, 0⟩ d = none := by
  intro d
  have hwidth : d.value.width = 25 := by
    change max ((25 : ℕ) : ℝ) (0 + (10 : ℕ)) = 25
    norm_num
  have hplace : d.value.placement.position = ⟨-d.value.width / (2 : ℕ), -(25 : ℕ) / (3 : ℕ)⟩ := rfl
  have hcovers : ∀ q : Point ℝ, d.value.covers q = true ↔
      ((0 ≤ q.x ∧ q.x ≤ d.value.width) ∧ -((25 : ℕ) / (2 : ℕ)) ≤ q.y) ∧
        q.y ≤ (25 : ℕ) / (2 : ℕ) := by
    intro q
    simp only [Node.covers, Bool.and_eq_true, decide_eq_true_eq]
    rfl
  have hlocal : ∀ p : Point ℝ, Diagram.toLocal d.value p = ⟨p.x + 25 / 2, p.y + 25 / 3⟩ := by
    intro p
    rw [toLocal_upright (n := d.value) ⟨rfl, rfl⟩, hplace, hwidth]
    norm_num
  have hit : ∀ p : Point ℝ, Diagram.hit? p d =
      if d.value.covers (Diagram.toLocal d.value p) then some [] else none := fun _ => rfl
  rw [hit, hit, hlocal, hlocal]
  exact ⟨if_pos ((hcovers _).mpr (by norm_num [hwidth])),
    if_neg (mt (hcovers _).mp (by norm_num [hwidth]))⟩

/-- After a movement of the pointer the active node is the one at the pointer, in the diagram as
it then is and seen through the camera as it was before.  Only a drag moves the camera. -/
theorem active_pointerMove {K : Type} [Scalar K] {v : Viewport K} {d : Diagram K}
    (h : v.diagram? = some d) (place : Point K) (movement : Vec K) :
    let v' := (v.handle (.pointerMove place movement)).2
    ∃ d', v'.diagram? = some d' ∧ v'.active = Diagram.hit? (v.camera.toWorld place) d' ∧
      v'.camera = (if v.dragging then v.camera.panScaled movement else v.camera) ∧
      (v.dragging = false → v'.active = v'.hit? place) := by
  intro v'
  obtain ⟨d', hd', hmarks⟩ := diagram?_hover h place
  have hactive : (v.hover place).2.active = Diagram.hit? (v.camera.toWorld place) d' := by
    rw [active_hover h, hit?_eq h, ← Diagram.hit?_unmarked d', hmarks, Diagram.hit?_unmarked]
  have hv' : v' = if v.dragging then (v.hover place).2.panScaled movement else (v.hover place).2 :=
    handle_pointerMove v place movement
  cases hdragging : v.dragging with
  | false =>
      rw [hdragging] at hv'
      replace hv' : v' = (v.hover place).2 := hv'
      rw [hv']
      refine ⟨d', hd', hactive, camera_hover v place, fun _ => ?_⟩
      rw [hit?_eq hd', camera_hover]
      exact hactive
  | true =>
      rw [hdragging] at hv'
      replace hv' : v' = (v.hover place).2.panScaled movement := hv'
      rw [hv']
      refine ⟨d', hd', hactive, ?_, fun hfalse => nomatch hfalse⟩
      change (v.hover place).2.camera.panScaled movement = _
      rw [camera_hover]
      rfl

theorem active_pointerMove_pressed :
    let settings : Settings ℝ := { Settings.standard with resetViewOnParse := false }
    let v := (new ⟨800, 600⟩ settings).applyAll
      [.setText (fun _ => 6) "()", .handle (.pointerDown ⟨400, 300⟩)]
    let v' := (v.handle (.pointerMove ⟨410, 300⟩ ⟨10, 0⟩)).2
    (∃ d, v.diagram? = some d) ∧ ∃ d', v'.diagram? = some d' ∧
      v'.active = Diagram.hit? (v.camera.toWorld ⟨410, 300⟩) d' ∧
      v'.camera = v.camera.panScaled ⟨10, 0⟩ := by
  intro settings v v'
  obtain ⟨_, hdragging, hshown⟩ := applyAll_pressed
  obtain ⟨d', hd', hactive, hcamera, _⟩ := active_pointerMove hshown ⟨410, 300⟩ ⟨10, 0⟩
  rw [if_pos hdragging] at hcamera
  exact ⟨⟨_, hshown⟩, d', hd', hactive, hcamera⟩

/-- The node that is dragged stays under the pointer and is not active any more. -/
theorem active_pointerMove_drag :
    let settings : Settings ℝ := { Settings.standard with resetViewOnParse := false }
    let v := (new ⟨800, 600⟩ settings).applyAll
      [.setText (fun _ => 6) "()", .handle (.pointerDown ⟨400, 300⟩)]
    let v' := (v.handle (.pointerMove ⟨500, 300⟩ ⟨100, 0⟩)).2
    v'.active = none ∧ v'.hit? ⟨500, 300⟩ = some [] := by
  intro settings v v'
  obtain ⟨hcamera, hdragging, hshown⟩ := applyAll_pressed
  have hv' : v' = (v.hover ⟨500, 300⟩).2.panScaled ⟨100, 0⟩ := by
    rw [show v' = _ from handle_pointerMove v _ _, if_pos hdragging]
  obtain ⟨d', hd', hmarks⟩ := diagram?_hover hshown ⟨500, 300⟩
  have hbefore : v.camera.toWorld ⟨500, 300⟩ = ⟨100, 0⟩ := by
    rw [show v.camera = _ from hcamera, Camera.toWorld_eq one_pos]
    norm_num [Camera.offset, Size.toVec, Vec.divBy, Vec.scale, Vec.add, Vec.zero,
      ExactScalar.ofNat_eq_cast]
  have hafter : v'.camera.toWorld ⟨500, 300⟩ = ⟨0, 0⟩ := by
    have hcamera' : v'.camera = (⟨1, .zero, true, ⟨800, 600⟩⟩ : Camera ℝ).panScaled ⟨100, 0⟩ := by
      rw [hv', ← hcamera, ← camera_hover v ⟨500, 300⟩]
      rfl
    rw [hcamera', Camera.toWorld_eq one_pos]
    norm_num [Camera.offset, Camera.panScaled, Camera.panBy, Size.toVec, Vec.divBy, Vec.scale,
      Vec.add, Vec.zero, ExactScalar.ofNat_eq_cast]
  constructor
  · have hactive : v'.active = v.hit? ⟨500, 300⟩ := by
      rw [hv']
      exact active_hover hshown _
    rw [hactive, hit?_eq hshown, hbefore]
    exact hit?_empty.2
  · have hshown' : v'.diagram? = some d' := by
      rw [hv']
      exact hd'
    rw [hit?_eq hshown', hafter, ← Diagram.hit?_unmarked d', hmarks, Diagram.hit?_unmarked]
    exact hit?_empty.1

end Viewport

end SExprViewer
