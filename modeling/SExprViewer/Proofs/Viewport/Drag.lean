import SExprViewer.Proofs.Camera
import SExprViewer.Proofs.Viewport.History

/-! # Dragging

The canvas is held if the last press, release or end of a drag in the history was a press
(`dragging_meetAll`), and a movement of the pointer pans only then.  The movements of a drag add
up to the way of the pointer (`Drags.moved`), so that what was grabbed stays under it. -/
set_option autoImplicit false

namespace SExprViewer

/-! ## Cameras that are moved -/

namespace Camera

variable {K : Type} [ExactScalar K]

/-- The second camera shows the picture of the first, moved as a pan by `delta` pixels does. -/
structure Moved (c : Camera K) (delta : Vec K) (c' : Camera K) : Prop where
  scale : c'.scale = c.scale
  centered : c'.centered = c.centered
  toCanvas : ∀ q, c'.toCanvas q = (c.toCanvas q).add (c.panShift delta)

variable {c c' c'' : Camera K} {delta delta' : Vec K}

theorem panShift_congr (hscale : c'.scale = c.scale) (hcentered : c'.centered = c.centered)
    (delta : Vec K) : c'.panShift delta = c.panShift delta := by
  rw [panShift, panShift, hscale, hcentered]

theorem panShift_add (c : Camera K) (delta delta' : Vec K) :
    c.panShift (delta.add delta') = (c.panShift delta).add (c.panShift delta') := by
  unfold panShift
  split
  · rfl
  · simp only [Vec.divBy, Vec.scale, Vec.add, Vec.mk.injEq]
    constructor <;> ring

theorem moved_self (c : Camera K) : c.Moved .zero c where
  scale := rfl
  centered := rfl
  toCanvas q := by
    have hzero : c.panShift .zero = .zero := by
      unfold panShift
      split <;> simp [Vec.divBy, Vec.scale, Vec.zero]
    rw [hzero]
    simp [Point.add, Vec.zero]

theorem moved_panScaled (h : 0 < c.scale) (delta : Vec K) : c.Moved delta (c.panScaled delta) where
  scale := rfl
  centered := rfl
  toCanvas q := toCanvas_panScaled h delta q

theorem Moved.trans (h : c.Moved delta c') (h' : c'.Moved delta' c'') :
    c.Moved (delta.add delta') c'' where
  scale := h'.scale.trans h.scale
  centered := h'.centered.trans h.centered
  toCanvas q := by
    rw [h'.toCanvas, h.toCanvas, panShift_congr h.scale h.centered, panShift_add]
    simp only [Point.add, Vec.add, add_assoc]

end Camera

namespace Viewport

section Scalar
variable {K : Type} [Scalar K]

/-! ## Who holds the canvas -/

/-- Whether the event takes hold of the canvas or lets it go. -/
def Event.grip? : Event K → Option Bool
  | .operation (.handle (.pointerDown _)) => some true
  | .operation (.handle (.pointerUp _)) => some false
  | .operation .cancelDrag => some false
  | _ => none

section Dragging
variable (v : Viewport K)

theorem dragging_zoom (factor : K) : (v.zoom factor).dragging = v.dragging := by
  unfold zoom
  split <;> rfl

theorem dragging_fit : v.fit.dragging = v.dragging := by
  rcases fit_eq v with hfit | ⟨scale, _, hfit⟩
  · rw [hfit]
  · rw [hfit]
    rfl

theorem dragging_arrange : v.arrange.dragging = v.dragging := modifyDiagram_dragging ..

theorem dragging_refit : v.refit.dragging = v.dragging := by
  rw [refit, dragging_arrange, dragging_fit]
  rfl

theorem dragging_display (measure : TextMeasure K) (e : Expr) :
    (v.display measure e).dragging = v.dragging := by
  unfold display
  dsimp only
  rw [dragging_arrange]
  split
  · rw [dragging_fit]
    rfl
  · rfl

theorem dragging_setText (measure : TextMeasure K) (text : String) :
    (v.setText measure text).2.dragging = v.dragging := by
  rcases setText_cases v measure text with ⟨_, heq⟩ | ⟨_, err, _, heq⟩ | ⟨_, e, _, heq⟩
  · rw [heq]
  · rw [heq]
  · rw [heq, dragging_display]

theorem dragging_click (p : Point K) : (v.click p).2.dragging = v.dragging := by
  rcases click_cases v p with ⟨_, heq⟩ | ⟨_, heq⟩
  · rw [heq]
  · rw [heq, modifyDiagram_dragging]

theorem dragging_runShortcut (s : Shortcut) : (v.runShortcut s).dragging = v.dragging := by
  cases s with
  | zoomIn => exact dragging_zoom v _
  | zoomOut => exact dragging_zoom v _
  | refit => exact dragging_refit v
  | _ => rfl

theorem dragging_frame (handle : Nat) (now : K) : (v.frame handle now).dragging = v.dragging := by
  unfold frame
  split <;> rfl

theorem dragging_handle (event : Input K) : (v.handle event).2.dragging =
    (Event.operation (.handle event)).grip?.getD v.dragging := by
  cases event with
  | pointerDown place => rfl
  | pointerMove place movement =>
      rw [handle_pointerMove]
      split
      · exact dragging_hover v place
      · exact dragging_hover v place
  | pointerUp place => exact dragging_click _ place
  | wheel amount =>
      unfold handle
      dsimp only
      split
      · exact dragging_zoom v _
      · split
        · exact dragging_zoom v _
        · rfl
  | key name =>
      unfold handle
      dsimp only
      split
      · split
        · exact dragging_runShortcut v _
        · rfl
      · rfl

theorem dragging_meet (event : Event K) :
    (v.meet event).dragging = event.grip?.getD v.dragging := by
  cases event with
  | outside change => rfl
  | operation op =>
      cases op with
      | setText measure text => exact dragging_setText v measure text
      | zoom factor => exact dragging_zoom v factor
      | zoomAndArrange factor => exact (dragging_arrange _).trans (dragging_zoom v factor)
      | fit => exact dragging_fit v
      | arrange => exact dragging_arrange v
      | refit => exact dragging_refit v
      | hover p => exact dragging_hover v p
      | click p => exact dragging_click v p
      | handle event => exact dragging_handle v event
      | frame handle now => exact dragging_frame v handle now
      | _ => rfl

end Dragging

/-- The canvas is held if the last event that took hold of it or let it go took hold of it. -/
theorem dragging_meetAll (canvas : Size K) (settings : Settings K) (history : List (Event K)) :
    ((new canvas settings).meetAll history).dragging =
      (history.filterMap Event.grip?).getLast?.getD false := by
  induction history using List.reverseRecOn with
  | nil => rfl
  | append_singleton history event ih =>
      rw [meetAll_concat, dragging_meet, ih, List.filterMap_append]
      cases hgrip : event.grip? with
      | none => simp [hgrip]
      | some held => simp [hgrip]

/-! ## Drags -/

/-- Touches neither the camera nor the hold on the canvas. -/
def Event.Aside (event : Event K) : Prop :=
  ∀ v : Viewport K, (v.meet event).camera = v.camera ∧ (v.meet event).dragging = v.dragging

theorem aside_frame (handle : Nat) (now : K) : (Event.operation (.frame handle now)).Aside :=
  fun v => ⟨camera_frame v handle now, dragging_frame v handle now⟩

/-- The pointer is moved from one point to another, by its way since the movement before each
time; what else happens stands aside. -/
inductive Drags : Point K → List (Event K) → Point K → Prop
  | still (p : Point K) : Drags p [] p
  | move {p q r : Point K} {events : List (Event K)} (h : Drags q events r) :
      Drags p (.operation (.handle (.pointerMove q (q.sub p))) :: events) r
  | aside {p q : Point K} {event : Event K} {events : List (Event K)} (hevent : event.Aside)
      (h : Drags p events q) : Drags p (event :: events) q

end Scalar

section ExactScalar
variable {K : Type} [ExactScalar K]

theorem Drags.moved {p q : Point K} {events : List (Event K)} (h : Drags p events q) :
    ∀ v : Viewport K, 0 < v.camera.scale → v.dragging = true →
      v.camera.Moved (q.sub p) (v.meetAll events).camera := by
  induction h with
  | still p =>
      intro v _ _
      have hzero : p.sub p = .zero := by simp [Point.sub, Vec.zero]
      rw [hzero]
      exact v.camera.moved_self
  | @move p q r events h ih =>
      intro v hscale hdragging
      let v' := v.meet (.operation (.handle (.pointerMove q (q.sub p))))
      have hcamera : v'.camera = v.camera.panScaled (q.sub p) :=
        (camera_pointerMove v q _).trans (if_pos hdragging)
      have hmoved : v.camera.Moved (q.sub p) v'.camera :=
        hcamera ▸ Camera.moved_panScaled hscale (q.sub p)
      have hheld : v'.dragging = true := (dragging_meet v _).trans hdragging
      have hway : (q.sub p).add (r.sub q) = r.sub p := by simp [Point.sub, Vec.add]
      rw [← hway]
      exact hmoved.trans (ih v' (hmoved.scale ▸ hscale) hheld)
  | @aside p q event events hevent h ih =>
      intro v hscale hdragging
      obtain ⟨hcamera, hheld⟩ := hevent v
      rw [← hcamera] at hscale ⊢
      exact ih _ hscale (hheld.trans hdragging)

/-- If the canvas is pressed at one point and the pointer then dragged to another, a centered
camera shows there what was under the pointer when it was pressed, and one that is not centered
shows everything moved by the way of the pointer divided by the scale.  In any history a movement
of the pointer pans only if the last event that took hold of the canvas or let it go took hold. -/
theorem grabbed_follows :
    (∀ (v : Viewport K) (p q : Point K) (events : List (Event K)), 0 < v.camera.scale →
      Drags p events q →
      let v' := v.meetAll (.operation (.handle (.pointerDown p)) :: events)
      (v.camera.centered = true → v'.camera.toWorld q = v.camera.toWorld p) ∧
      (v.camera.centered = false → ∀ w,
        v'.camera.toCanvas w = (v.camera.toCanvas w).add ((q.sub p).divBy v.camera.scale))) ∧
    ∀ {L : Type} [Scalar L] (canvas : Size L) (settings : Settings L) (history : List (Event L))
      (place : Point L) (movement : Vec L),
      let v := (new canvas settings).meetAll history
      (v.handle (.pointerMove place movement)).2.camera.pan ≠ v.camera.pan →
        (history.filterMap Event.grip?).getLast? = some true := by
  constructor
  · intro v p q events hscale hdrags v'
    have hmoved : v.camera.Moved (q.sub p) v'.camera :=
      hdrags.moved { v with dragging := true } hscale rfl
    have hscale' : 0 < v'.camera.scale := hmoved.scale ▸ hscale
    constructor
    · intro hcentered
      rw [Camera.toWorld_eq_iff hscale', hmoved.toCanvas, Camera.toCanvas_toWorld hscale,
        Camera.panShift, if_pos hcentered]
      simp [Point.add, Point.sub]
    · intro hcentered w
      rw [hmoved.toCanvas, Camera.panShift, hcentered]
      rfl
  · intro L _ canvas settings history place movement v hpan
    by_contra hlast
    have hfree : v.dragging = false := by
      rw [dragging_meetAll]
      cases hgrip : (history.filterMap Event.grip?).getLast? with
      | none => rfl
      | some held =>
          cases held with
          | false => rfl
          | true => exact absurd hgrip hlast
    rw [camera_pointerMove, hfree] at hpan
    exact hpan rfl

end ExactScalar

/-- A drag with a frame between its two movements; and a movement that pans, after a press. -/
theorem grabbed_follows_frame :
    let v : Viewport ℝ := new ⟨800, 600⟩ .standard
    let events : List (Event ℝ) := [.operation (.handle (.pointerMove ⟨40, 20⟩ ⟨30, 10⟩)),
      .operation (.frame 1 16), .operation (.handle (.pointerMove ⟨100, 50⟩ ⟨60, 30⟩))]
    let v' := v.meetAll (.operation (.handle (.pointerDown ⟨10, 10⟩)) :: events)
    let pressed : List (Event Float) := [.operation (.handle (.pointerUp ⟨10, 10⟩)),
      .operation (.handle (.pointerDown ⟨10, 10⟩))]
    let w := (new ⟨800, 600⟩ .standard).meetAll pressed
    0 < v.camera.scale ∧ Drags ⟨10, 10⟩ events ⟨100, 50⟩ ∧ v.camera.centered = true ∧
      v'.camera.toWorld ⟨100, 50⟩ = v.camera.toWorld ⟨10, 10⟩ ∧
      (w.handle (.pointerMove ⟨40, 20⟩ ⟨30, 10⟩)).2.camera.pan ≠ w.camera.pan ∧
      (pressed.filterMap Event.grip?).getLast? = some true := by
  intro v events v' pressed w
  have hscale : 0 < v.camera.scale := one_pos
  have hdrags : Drags ⟨10, 10⟩ events ⟨100, 50⟩ := by
    have hfirst : (⟨30, 10⟩ : Vec ℝ) = (⟨40, 20⟩ : Point ℝ).sub ⟨10, 10⟩ := by norm_num [Point.sub]
    have hsecond : (⟨60, 30⟩ : Vec ℝ) = (⟨100, 50⟩ : Point ℝ).sub ⟨40, 20⟩ := by
      norm_num [Point.sub]
    change Drags _ [.operation (.handle (.pointerMove _ ⟨30, 10⟩)), _,
      .operation (.handle (.pointerMove _ ⟨60, 30⟩))] _
    rw [hfirst, hsecond]
    exact .move (.aside (aside_frame 1 16) (.move (.still _)))
  have hpan : (w.handle (.pointerMove ⟨40, 20⟩ ⟨30, 10⟩)).2.camera.pan ≠ w.camera.pan := by
    decide
  obtain ⟨hgrabbed, hheld⟩ := grabbed_follows (K := ℝ)
  exact ⟨hscale, hdrags, rfl, (hgrabbed v _ _ events hscale hdrags).1 rfl, hpan,
    hheld ⟨800, 600⟩ .standard pressed ⟨40, 20⟩ ⟨30, 10⟩ hpan⟩

end Viewport

end SExprViewer
