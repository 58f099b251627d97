import SExprViewer.Proofs.Viewport.Hover

/-! # What an answer tells

A viewport answers to every event whether anything visible may have changed.  A no can be relied
on: apart from the hold on the canvas everything is as it was (`handle_eq_of_false`).  A yes to a
click, and to a movement of the pointer that does not drag, means that another node is selected,
or active, than before (`click_iff`, `hover_iff`). -/
set_option autoImplicit false

namespace SExprViewer.Viewport

section Scalar
variable {K : Type} [Scalar K]

/-! ## The pointer -/

section Pointer
variable {v : Viewport K} {p : Point K}

theorem hover_eq_of_false (h : (v.hover p).1 = false) : (v.hover p).2 = v := by
  rcases hover_cases v p with ⟨_, heq⟩ | ⟨_, heq⟩
  · rw [heq]
  · rw [heq] at h
    cases h

theorem click_eq_of_false (h : (v.click p).1 = false) : (v.click p).2 = v := by
  rcases click_cases v p with ⟨_, heq⟩ | ⟨_, heq⟩
  · rw [heq]
  · rw [heq] at h
    cases h

theorem hover_iff : (v.hover p).1 = true ↔ (v.hover p).2.active ≠ v.active := by
  rcases hover_cases v p with ⟨_, heq⟩ | ⟨hne, heq⟩
  · simp [heq]
  · rw [heq, modifyDiagram_active]
    exact iff_of_true rfl hne.symm

theorem click_iff : (v.click p).1 = true ↔ (v.click p).2.selected ≠ v.selected := by
  rcases click_cases v p with ⟨_, heq⟩ | ⟨hne, heq⟩
  · simp [heq]
  · rw [heq, modifyDiagram_selected]
    exact iff_of_true rfl hne.symm

theorem handle_pointerMove_of_not_dragging (h : v.dragging = false) (movement : Vec K) :
    v.handle (.pointerMove p movement) = v.hover p := by
  have hdragging := (dragging_hover v p).trans h
  unfold handle
  dsimp only
  rw [hdragging]
  rfl

end Pointer

/-! ## Every event -/

theorem handle_eq_of_false {v : Viewport K} {event : Input K} (h : (v.handle event).1 = false) :
    ∃ dragging, (v.handle event).2 = { v with dragging := dragging } := by
  cases event with
  | pointerDown place => exact ⟨true, rfl⟩
  | pointerMove place movement =>
      cases hdragging : v.dragging with
      | true =>
          -- a drag answers yes, however small the movement
          have hheld := (dragging_hover v place).trans hdragging
          simp [handle, hheld] at h
      | false =>
          rw [handle_pointerMove_of_not_dragging hdragging] at h ⊢
          exact ⟨v.dragging, hover_eq_of_false h⟩
  | pointerUp place => exact ⟨false, click_eq_of_false (v := { v with dragging := false }) h⟩
  | wheel amount =>
      unfold handle at h ⊢
      dsimp only at h ⊢
      split at h
      · cases h
      · split at h
        · cases h
        · rename_i hup hdown
          rw [if_neg hup, if_neg hdown]
          exact ⟨v.dragging, rfl⟩
  | key name =>
      unfold handle at h ⊢
      dsimp only at h ⊢
      split at h
      · rename_i hhotkeys
        rw [if_pos hhotkeys]
        cases hshortcut : Shortcut.ofKey? name v.editing with
        | some shortcut =>
            rw [hshortcut] at h
            cases h
        | none => exact ⟨v.dragging, rfl⟩
      · rename_i hhotkeys
        rw [if_neg hhotkeys]
        exact ⟨v.dragging, rfl⟩

/-- If the answer to an event is no, the viewport is what it was, its camera, its diagram with all
places and marks and its two paths included; only the hold on the canvas may have changed.  A
movement of the pointer that does not drag is answered with yes exactly if another path is active
afterwards, a release exactly if another path is selected. -/
theorem handle_answer (v : Viewport K) (event : Input K) :
    let answer := (v.handle event).1
    let v' := (v.handle event).2
    (answer = false → ∃ dragging, v' = { v with dragging := dragging }) ∧
    (∀ place movement, event = .pointerMove place movement → v.dragging = false →
      (answer = true ↔ v'.active ≠ v.active)) ∧
    (∀ place, event = .pointerUp place → (answer = true ↔ v'.selected ≠ v.selected)) := by
  intro answer v'
  refine ⟨handle_eq_of_false, ?_, ?_⟩
  · rintro place movement rfl hdragging
    change (v.handle _).1 = true ↔ (v.handle _).2.active ≠ _
    rw [handle_pointerMove_of_not_dragging hdragging]
    exact hover_iff
  · rintro place rfl
    exact click_iff (v := { v with dragging := false })

end Scalar

/-- Moved over the only node, then pressed. -/
theorem handle_answer_node :
    let settings : Settings ℝ := { Settings.standard with resetViewOnParse := false }
    let v := (new ⟨800, 600⟩ settings).display (fun _ => 6) (.list [])
    let move : Input ℝ := .pointerMove ⟨400, 300⟩ ⟨400, 300⟩
    let w := (v.handle move).2
    v.dragging = false ∧ v.active = none ∧ w.active = some [] ∧ (v.handle move).1 = true ∧
      (w.handle (.pointerDown ⟨400, 300⟩)).1 = false ∧
      ∃ dragging, (w.handle (.pointerDown ⟨400, 300⟩)).2 = { w with dragging := dragging } := by
  intro settings v move w
  have hdisplays := displays_display (showing_new ⟨800, 600⟩ settings) (fun _ => 6) (.list [])
  have hdragging : v.dragging = false := rfl
  have hactive : v.active = none := hdisplays.active
  have hcenter : v.camera.toWorld ⟨400, 300⟩ = ⟨0, 0⟩ := by
    have hcamera : v.camera = ⟨1, .zero, true, ⟨800, 600⟩⟩ := rfl
    rw [hcamera, Camera.toWorld_eq one_pos]
    norm_num [Camera.offset, Size.toVec, Vec.divBy, Vec.scale, Vec.add, Vec.zero,
      ExactScalar.ofNat_eq_cast]
  have hw : w.active = some [] := by
    change (v.handle _).2.active = _
    rw [handle_pointerMove_of_not_dragging hdragging, active_hover hdisplays.showing.diagram?,
      hit?_eq hdisplays.showing.diagram?, hcenter]
    exact hit?_empty.1
  have hmoved : (v.handle move).1 = true := by
    refine ((handle_answer v move).2.1 _ _ rfl hdragging).mpr ?_
    rw [hactive]
    exact ne_of_eq_of_ne hw (Option.some_ne_none _)
  exact ⟨hdragging, hactive, hw, hmoved, rfl, (handle_answer w _).1 rfl⟩

end SExprViewer.Viewport
