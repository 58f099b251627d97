import SExprViewer.Proofs.Stage.Clearing
import SExprViewer.Proofs.Viewport.History

/-! # The scale of the camera

A viewport multiplies the scale by the factors it accepts, or sets it to one or to what a fit
allows (`zoomsOrResets_meet`).  What holds of all such scales holds in every history that does not
touch the camera from outside (`ScaleClosed.meetAll`).  Over exact scalars the scale is positive,
so that the camera can be undone, shows just what is on the canvas, and frames clear the canvas
(`camera_onto_canvas`). -/
set_option autoImplicit false

namespace SExprViewer.Viewport

section Scalar
variable {K : Type}

/-- Does not change the camera from outside. -/
def Event.LeavesCamera : Event K → Prop
  | .operation _ => True
  | .outside change => ∀ s, (change s).camera = s.camera

variable [Scalar K]

/-! ## What happens to the scale -/

/-- The factor by which an event asks to zoom. -/
def zoomFactor? (v : Viewport K) : Event K → Option K
  | .operation (.zoom factor) => some factor
  | .operation (.zoomAndArrange factor) => some factor
  | .operation (.handle (.wheel amount)) =>
      if 0 < amount then some v.settings.zoomOut
      else if amount < 0 then some v.settings.zoomIn
      else none
  | .operation (.handle (.key name)) =>
      if v.hotkeys then
        match Shortcut.ofKey? name v.editing with
        | some .zoomIn => some v.settings.zoomIn
        | some .zoomOut => some v.settings.zoomOut
        | _ => none
      else none
  | _ => none

/-- The scale is left as it is, or set anew. -/
def Resets (scale scale' : K) : Prop := scale' = scale ∨ scale' = 1 ∨ isScale scale' = true

theorem resets_fit (v : Viewport K) : Resets v.camera.scale v.fit.camera.scale := by
  rcases fit_eq v with hfit | ⟨scale, hscale, hfit⟩
  · exact .inl (by rw [hfit])
  · rw [hfit]
    exact .inr (.inr hscale)

theorem resets_refit (v : Viewport K) (scale : K) : Resets scale v.refit.camera.scale := by
  rw [refit, camera_arrange]
  rcases resets_fit (v.modifyCamera Camera.clear) with hsame | hreset
  · exact .inr (.inl hsame)
  · exact .inr hreset

theorem resets_setText (v : Viewport K) (measure : TextMeasure K) (text : String) :
    Resets v.camera.scale (v.setText measure text).2.camera.scale := by
  rcases setText_cases v measure text with ⟨_, heq⟩ | ⟨_, err, _, heq⟩ | ⟨_, e, _, heq⟩
  · exact .inl (by rw [heq])
  · exact .inl (by rw [heq]; rfl)
  · rw [heq]
    rcases camera_display { v with document := ⟨some text, none⟩ } measure e with
      hcamera | hcamera | ⟨scale, hscale, hcamera⟩
    · exact .inl (congrArg Camera.scale hcamera)
    · exact .inr (.inl (congrArg Camera.scale hcamera))
    · refine .inr (.inr ?_)
      rw [hcamera]
      exact hscale

/-- The event zooms by the factor that it asks for, or it asks for none and does not zoom. -/
def ZoomsOrResets (v : Viewport K) (event : Event K) (v' : Viewport K) : Prop :=
  match v.zoomFactor? event with
  | some factor => v'.camera = (v.zoom factor).camera
  | none => Resets v.camera.scale v'.camera.scale

theorem zoomsOrResets_wheel (v : Viewport K) (amount : K) :
    v.ZoomsOrResets (.operation (.handle (.wheel amount))) (v.handle (.wheel amount)).2 := by
  unfold ZoomsOrResets zoomFactor? handle
  dsimp only
  by_cases hdown : 0 < amount
  · simp only [if_pos hdown]
  · by_cases hup : amount < 0
    · simp only [if_neg hdown, if_pos hup]
    · simp only [if_neg hdown, if_neg hup]
      exact .inl rfl

theorem zoomsOrResets_key (v : Viewport K) (name : String) :
    v.ZoomsOrResets (.operation (.handle (.key name))) (v.handle (.key name)).2 := by
  unfold ZoomsOrResets zoomFactor? handle
  dsimp only
  by_cases hhotkeys : v.hotkeys = true
  · simp only [if_pos hhotkeys]
    cases Shortcut.ofKey? name v.editing with
    | none => exact .inl rfl
    | some shortcut =>
        cases shortcut with
        | zoomIn => rfl
        | zoomOut => rfl
        | refit => exact resets_refit v _
        | _ => exact .inl rfl
  · simp only [if_neg hhotkeys]
    exact .inl rfl

theorem zoomsOrResets_handle (v : Viewport K) (input : Input K) :
    v.ZoomsOrResets (.operation (.handle input)) (v.handle input).2 := by
  cases input with
  | pointerDown place => exact .inl rfl
  | pointerMove place movement =>
      refine .inl ?_
      rw [camera_pointerMove]
      split <;> rfl
  | pointerUp place => exact .inl (congrArg Camera.scale (camera_click _ place))
  | wheel amount => exact zoomsOrResets_wheel v amount
  | key name => exact zoomsOrResets_key v name

theorem zoomsOrResets_meet (v : Viewport K) {event : Event K} (hevent : event.LeavesCamera) :
    v.ZoomsOrResets event (v.meet event) := by
  cases event with
  | outside change => exact .inl (congrArg Camera.scale (hevent v.stage))
  | operation op =>
      cases op with
      | setText measure text => exact resets_setText v measure text
      | zoom factor => rfl
      | zoomAndArrange factor => exact camera_arrange _
      | fit => exact resets_fit v
      | arrange => exact .inl (congrArg Camera.scale (camera_arrange v))
      | refit => exact resets_refit v _
      | reset => exact .inr (.inl rfl)
      | hover p => exact .inl (congrArg Camera.scale (camera_hover v p))
      | click p => exact .inl (congrArg Camera.scale (camera_click v p))
      | handle input => exact zoomsOrResets_handle v input
      | startLoop handle now => exact .inl (congrArg Camera.scale (camera_startLoop v handle now))
      | stopLoop => exact .inl (congrArg Camera.scale (camera_stopLoop v))
      | frame handle now => exact .inl (congrArg Camera.scale (camera_frame v handle now))
      | _ => exact .inl rfl

theorem scale_zoom (v : Viewport K) (factor : K) : (v.zoom factor).camera.scale =
    if isScale factor then v.camera.scale * factor else v.camera.scale := by
  unfold zoom
  split <;> rfl

/-! ## Histories -/

/-- A property of the scales that a viewport chooses which is kept by the factors it accepts. -/
structure ScaleClosed (P : K → Prop) : Prop where
  one : P 1
  fit : ∀ scale, isScale scale = true → P scale
  zoom : ∀ scale factor, isScale factor = true → P scale → P (scale * factor)

namespace ScaleClosed

variable {P : K → Prop}

theorem meet (h : ScaleClosed P) {v : Viewport K} {event : Event K} (hevent : event.LeavesCamera)
    (hv : P v.camera.scale) : P (v.meet event).camera.scale := by
  have hmeet := zoomsOrResets_meet v hevent
  unfold ZoomsOrResets at hmeet
  split at hmeet
  · rename_i factor _
    rw [hmeet, scale_zoom]
    split
    · rename_i hfactor
      exact h.zoom _ factor hfactor hv
    · exact hv
  · rcases hmeet with hsame | hone | hset
    · rwa [hsame]
    · rw [hone]
      exact h.one
    · exact h.fit _ hset

theorem meetAll (h : ScaleClosed P) (canvas : Size K) (settings : Settings K)
    (history : List (Event K)) : (∀ event ∈ history, event.LeavesCamera) →
      P ((new canvas settings).meetAll history).camera.scale := by
  induction history using List.reverseRecOn with
  | nil => exact fun _ => h.one
  | append_singleton history event ih =>
      intro hhistory
      rw [List.forall_mem_append] at hhistory
      rw [meetAll_concat]
      exact h.meet (hhistory.2 event (List.mem_singleton_self event)) (ih hhistory.1)

end ScaleClosed

end Scalar

/-! ## Exact scalars -/

section ExactScalar
variable {K : Type} [ExactScalar K]

theorem isScale_iff {x : K} : isScale x = true ↔ 0 < x := by
  rw [isScale, ExactScalar.isFinite_eq_true, Bool.true_and, decide_eq_true_eq]

theorem zoom_of_pos (v : Viewport K) {factor : K} (h : 0 < factor) :
    v.zoom factor = v.modifyCamera (·.scaleBy factor) := if_pos (isScale_iff.mpr h)

theorem zoom_of_nonpos (v : Viewport K) {factor : K} (h : factor ≤ 0) : v.zoom factor = v :=
  if_neg (mt isScale_iff.mp h.not_gt)

theorem scaleClosed_positive : ScaleClosed (K := K) (0 < ·) where
  one := one_pos
  fit _ hscale := isScale_iff.mp hscale
  zoom _ _ hfactor hscale := mul_pos hscale (isScale_iff.mp hfactor)

/-- In every history that leaves the camera to the viewport, whatever its settings and the factors
it was asked to zoom by, the scale is positive.  So points are taken from the world to the canvas
and back without loss, in either direction; and unless the canvas has a negative size, the visible
part of the world is taken onto the canvas exactly, and a frame clears just the canvas. -/
theorem camera_onto_canvas (canvas : Size K) (settings : Settings K) {history : List (Event K)}
    (h : ∀ event ∈ history, event.LeavesCamera) :
    let v := (new canvas settings).meetAll history
    let c := v.camera
    0 < c.scale ∧ (∀ p, c.toWorld (c.toCanvas p) = p) ∧ (∀ q, c.toCanvas (c.toWorld q) = q) ∧
    (0 ≤ c.canvas.width → 0 ≤ c.canvas.height →
      c.affine.apply '' {q | c.visible.Contains q} = {p | c.canvasRect.Contains p} ∧
      (v.stage.running = true → ∀ {σ : Type} (host : FrameHost σ) (now : K) (w : σ)
        (list : DisplayList K), ∃ stage w' program,
          v.stage.frame? host now w = some (stage, w', program) ∧
          (list.run program).cleared = list.cleared ++ [{p | c.canvasRect.Contains p}])) := by
  intro v c
  have hscale : 0 < c.scale := scaleClosed_positive.meetAll canvas settings history h
  refine ⟨hscale, Camera.toWorld_toCanvas hscale, Camera.toCanvas_toWorld hscale,
    fun hwidth hheight => ⟨Camera.image_visible hscale hwidth hheight, ?_⟩⟩
  intro hrunning σ host now w list
  exact Stage.cleared_frame hscale hwidth hheight hrunning host now w list

end ExactScalar

/-- Between a factor of zero and a negative one the host adds a marker. -/
theorem camera_onto_canvas_factors :
    let settings : Settings ℝ := { Settings.standard with centered := false }
    let history : List (Event ℝ) := [.operation (.zoom 0),
      .outside fun s => s.add (.marker ⟨0⟩ .atOrigin), .operation (.zoom (-2)),
      .operation (.zoom 2), .operation (.startLoop 1 0)]
    let v := (new ⟨800, 600⟩ settings).meetAll history
    (∀ event ∈ history, event.LeavesCamera) ∧ v.camera.scale = 2 ∧ v.stage.running = true ∧
      0 ≤ v.camera.canvas.width ∧ 0 ≤ v.camera.canvas.height ∧
      ∃ stage w program, v.stage.frame? FrameQueue.host 20 .empty = some (stage, w, program) ∧
        (DisplayList.empty.run program).cleared = [{p | v.camera.canvasRect.Contains p}] := by
  intro settings history v
  have hleaves : ∀ event ∈ history, event.LeavesCamera := by
    simp [history, Event.LeavesCamera, Stage.add]
  let marked := (new ⟨800, 600⟩ settings).meet (.outside fun s => s.add (.marker ⟨0⟩ .atOrigin))
  have hv : v = (marked.modifyCamera (·.scaleBy 2)).startLoop 1 0 := by
    change startLoop (zoom (zoom (meet (zoom _ 0) _) (-2)) 2) 1 0 = _
    rw [zoom_of_pos _ two_pos, zoom_of_nonpos _ (by norm_num), zoom_of_nonpos _ le_rfl]
  have hscale : v.camera.scale = 2 := by
    rw [hv]
    exact one_mul 2
  have hcanvas : v.camera.canvas = ⟨800, 600⟩ := by rw [hv]; rfl
  have hwidth : 0 ≤ v.camera.canvas.width := by rw [hcanvas]; norm_num
  have hheight : 0 ≤ v.camera.canvas.height := by rw [hcanvas]; norm_num
  have hrunning : v.stage.running = true := by rw [hv]; rfl
  obtain ⟨-, -, -, hclears⟩ := camera_onto_canvas ⟨800, 600⟩ settings hleaves
  exact ⟨hleaves, hscale, hrunning, hwidth, hheight,
    (hclears hwidth hheight).2 hrunning FrameQueue.host 20 .empty .empty⟩

end SExprViewer.Viewport
