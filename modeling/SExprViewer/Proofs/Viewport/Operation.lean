import SExprViewer.Proofs.Viewport.Display

/-! # Runs of a viewport

A run is a sequence of operations, frames of the stage among them.  Most operations are put
together from a few moves; a property that every move keeps is kept by every run
(`Invariant.run`). -/
set_option autoImplicit false

namespace SExprViewer.Viewport

variable {K : Type}

inductive Operation (K : Type) where
  | setText (measure : TextMeasure K) (text : String)
  | setSettings (settings : Settings K)
  | setHotkeys (enabled : Bool)
  | setEditing (editing : Bool)
  | resize (canvas : Size K)
  | pan (delta : Vec K)
  | panScaled (delta : Vec K)
  | zoom (factor : K)
  | zoomAndArrange (factor : K)
  | fit
  | arrange
  | refit
  | reset
  | hover (p : Point K)
  | click (p : Point K)
  | handle (event : Input K)
  | cancelDrag
  /-- The host answers a request for a frame with `handle`. -/
  | startLoop (handle : Nat) (now : K)
  | stopLoop
  | frame (handle : Nat) (now : K)

/-- A host that answers every request with the same handle. -/
def answering (handle : Nat) : FrameHost Unit := ⟨fun w => (handle, w), fun _ w => w⟩

variable [Scalar K]

def startLoop (v : Viewport K) (handle : Nat) (now : K) : Viewport K :=
  { v with stage := (v.stage.run (answering handle) now ()).1 }

def stopLoop (v : Viewport K) : Viewport K :=
  { v with stage := (v.stage.stop (answering 0) ()).1 }

def frame (v : Viewport K) (handle : Nat) (now : K) : Viewport K :=
  match v.stage.frame? (answering handle) now () with
  | some (stage, _) => { v with stage := stage }
  | none => v

def apply (v : Viewport K) : Operation K → Viewport K
  | .setText measure text => (v.setText measure text).2
  | .setSettings settings => v.setSettings settings
  | .setHotkeys enabled => v.setHotkeys enabled
  | .setEditing editing => v.setEditing editing
  | .resize canvas => v.resize canvas
  | .pan delta => v.pan delta
  | .panScaled delta => v.panScaled delta
  | .zoom factor => v.zoom factor
  | .zoomAndArrange factor => v.zoomAndArrange factor
  | .fit => v.fit
  | .arrange => v.arrange
  | .refit => v.refit
  | .reset => v.reset
  | .hover p => (v.hover p).2
  | .click p => (v.click p).2
  | .handle event => (v.handle event).2
  | .cancelDrag => v.cancelDrag
  | .startLoop handle now => v.startLoop handle now
  | .stopLoop => v.stopLoop
  | .frame handle now => v.frame handle now

def applyAll (v : Viewport K) (ops : List (Operation K)) : Viewport K := ops.foldl apply v

omit [Scalar K] in
theorem camera_startLoop (v : Viewport K) (handle : Nat) (now : K) :
    (v.startLoop handle now).camera = v.camera := by
  unfold startLoop Stage.run Stage.cancelPending
  cases v.stage.pending <;> rfl

omit [Scalar K] in
theorem camera_stopLoop (v : Viewport K) : v.stopLoop.camera = v.camera := by
  unfold stopLoop Stage.stop Stage.cancelPending
  cases v.stage.pending <;> rfl

theorem camera_frame (v : Viewport K) (handle : Nat) (now : K) :
    (v.frame handle now).camera = v.camera := by
  unfold frame Stage.frame?
  cases v.stage.running <;> rfl

/-- The ways in which a camera is moved. -/
inductive CameraMove (c : Camera K) : Camera K → Prop
  | canvas (size : Size K) : CameraMove c (c.setCanvas size)
  | pan (delta : Vec K) : CameraMove c (c.panBy delta)
  | panScaled (delta : Vec K) : CameraMove c (c.panScaled delta)
  | zoom (factor : K) (h : isScale factor = true) : CameraMove c (c.scaleBy factor)
  | fit (scale : K) (h : isScale scale = true) : CameraMove c (c.setScale scale)
  | clear : CameraMove c c.clear

/-- What every move keeps; some operations may be left out of the runs. -/
structure Invariant (allowed : Operation K → Prop) (P : Viewport K → Prop) : Prop where
  camera : ∀ v f, CameraMove v.camera (f v.camera) → P v → P (v.modifyCamera f)
  status : ∀ v dragging hotkeys editing, P v →
    P { v with dragging := dragging, hotkeys := hotkeys, editing := editing }
  loop : ∀ v time running pending, P v →
    P { v with stage := { v.stage with time := time, running := running, pending := pending } }
  step : ∀ v elapsed, P v → P { v with stage := v.stage.step elapsed }
  arrange : ∀ v, P v → P v.arrange
  hover : ∀ v p, P v → P (v.hover p).2
  click : ∀ v p, P v → P (v.click p).2
  reset : ∀ v, allowed .reset → P v → P v.reset
  setText : ∀ v measure text, allowed (.setText measure text) → P v → P (v.setText measure text).2
  setSettings : ∀ v settings, allowed (.setSettings settings) → P v → P (v.setSettings settings)

namespace Invariant

variable {allowed : Operation K → Prop} {P : Viewport K → Prop}

theorem zoom (h : Invariant allowed P) {v : Viewport K} (factor : K) (hv : P v) :
    P (v.zoom factor) := by
  unfold Viewport.zoom
  split
  · rename_i hfactor
    exact h.camera v _ (.zoom factor hfactor) hv
  · exact hv

theorem panScaled (h : Invariant allowed P) {v : Viewport K} (delta : Vec K) (hv : P v) :
    P (v.panScaled delta) := h.camera v _ (.panScaled delta) hv

theorem fit (h : Invariant allowed P) {v : Viewport K} (hv : P v) : P v.fit := by
  rcases fit_eq v with hfit | ⟨scale, hscale, hfit⟩
  · rwa [hfit]
  · rw [hfit]
    exact h.camera v _ (.fit scale hscale) hv

theorem refit (h : Invariant allowed P) {v : Viewport K} (hv : P v) : P v.refit :=
  h.arrange _ (h.fit (h.camera v _ .clear hv))

theorem setDragging (h : Invariant allowed P) {v : Viewport K} (dragging : Bool) (hv : P v) :
    P { v with dragging := dragging } := h.status v dragging v.hotkeys v.editing hv

theorem runShortcut (h : Invariant allowed P) {v : Viewport K} (s : Shortcut) (hv : P v) :
    P (v.runShortcut s) := by
  cases s with
  | panLeft => exact h.panScaled _ hv
  | panUp => exact h.panScaled _ hv
  | panRight => exact h.panScaled _ hv
  | panDown => exact h.panScaled _ hv
  | zoomIn => exact h.zoom _ hv
  | zoomOut => exact h.zoom _ hv
  | refit => exact h.refit hv

theorem handle (h : Invariant allowed P) {v : Viewport K} (event : Input K) (hv : P v) :
    P (v.handle event).2 := by
  cases event with
  | pointerDown place => exact h.setDragging true hv
  | pointerMove place movement =>
      have hhover := h.hover v place hv
      unfold Viewport.handle
      dsimp only
      split
      · exact h.panScaled movement hhover
      · exact hhover
  | pointerUp place => exact h.click _ place (h.setDragging false hv)
  | wheel amount =>
      unfold Viewport.handle
      dsimp only
      split
      · exact h.zoom _ hv
      · split
        · exact h.zoom _ hv
        · exact hv
  | key name =>
      unfold Viewport.handle
      dsimp only
      split
      · split
        · exact h.runShortcut _ hv
        · exact hv
      · exact hv

theorem frame (h : Invariant allowed P) {v : Viewport K} (handle : Nat) (now : K) (hv : P v) :
    P (v.frame handle now) := by
  unfold Viewport.frame Stage.frame?
  by_cases hrunning : v.stage.running = true
  · rw [if_pos hrunning]
    exact h.step _ (now - v.stage.time) (h.loop v now v.stage.running (some handle) hv)
  · rw [if_neg hrunning]
    exact hv

theorem startLoop (h : Invariant allowed P) {v : Viewport K} (handle : Nat) (now : K)
    (hv : P v) : P (v.startLoop handle now) := by
  unfold Viewport.startLoop Stage.run Stage.cancelPending
  dsimp only
  split <;> exact h.loop v now true (some handle) hv

theorem stopLoop (h : Invariant allowed P) {v : Viewport K} (hv : P v) : P v.stopLoop := by
  unfold Viewport.stopLoop Stage.stop Stage.cancelPending
  dsimp only
  split
  · exact h.loop v _ false _ hv
  · exact h.loop v _ false none hv

theorem apply (h : Invariant allowed P) {v : Viewport K} {op : Operation K} (hop : allowed op)
    (hv : P v) : P (v.apply op) := by
  cases op with
  | setText measure text => exact h.setText v measure text hop hv
  | setSettings settings => exact h.setSettings v settings hop hv
  | setHotkeys enabled => exact h.status v v.dragging enabled v.editing hv
  | setEditing editing => exact h.status v v.dragging v.hotkeys editing hv
  | resize canvas => exact h.camera v _ (.canvas canvas) hv
  | pan delta => exact h.camera v _ (.pan delta) hv
  | panScaled delta => exact h.panScaled delta hv
  | zoom factor => exact h.zoom factor hv
  | zoomAndArrange factor => exact h.arrange _ (h.zoom factor hv)
  | fit => exact h.fit hv
  | arrange => exact h.arrange v hv
  | refit => exact h.refit hv
  | reset => exact h.reset v hop hv
  | hover p => exact h.hover v p hv
  | click p => exact h.click v p hv
  | handle event => exact h.handle event hv
  | cancelDrag => exact h.setDragging false hv
  | startLoop handle now => exact h.startLoop handle now hv
  | stopLoop => exact h.stopLoop hv
  | frame handle now => exact h.frame handle now hv

theorem run (h : Invariant allowed P) (ops : List (Operation K)) : ∀ v, (∀ op ∈ ops, allowed op) →
    P v → P (v.applyAll ops) := by
  induction ops with
  | nil => intro v _ hv; exact hv
  | cons op ops ih =>
      intro v hops hv
      exact ih _ (fun op hop => hops op (List.mem_cons_of_mem _ hop))
        (h.apply (hops op List.mem_cons_self) hv)

end Invariant

theorem settings_invariant (settings : Settings K) :
    Invariant (fun op => ∀ settings', op ≠ .setSettings settings')
      (fun v : Viewport K => v.settings = settings) where
  camera _ _ _ h := h
  status _ _ _ _ h := h
  loop _ _ _ _ h := h
  step _ _ h := h
  arrange _ h := (modifyDiagram_settings ..).trans h
  hover v p h := (settings_hover v p).trans h
  click v p h := (settings_click v p).trans h
  reset _ _ h := h
  setText v measure text _ h := (settings_setText v measure text).trans h
  setSettings _ settings' hallowed _ := absurd rfl (hallowed settings')

/-- Settings are changed by setting them, and in no other way. -/
theorem settings_apply (v : Viewport K) {op : Operation K}
    (hop : ∀ settings, op ≠ .setSettings settings) : (v.apply op).settings = v.settings :=
  (settings_invariant v.settings).apply hop rfl

end SExprViewer.Viewport
