import SExprViewer.Page.Viewer
import SExprViewer.Proofs.Viewport.Operation

/-! # Runs of a viewer

A run is a sequence of what the host calls and what the page does.  Each comes down to a few
moves of the viewport (`exists_moves`), so that what every run of a viewport keeps is kept by
every run of a viewer (`invariant_applyAll`).  The page goes on measuring in the font of the
theme (`lettering_applyAll`). -/
set_option autoImplicit false

namespace SExprViewer

/-! ## Frames of another host -/

namespace Stage

variable {K σ : Type}

/-- A host shows in the stage by the handle it answers with, and by nothing else. -/
theorem run_fst (host : FrameHost σ) (now : K) (s : Stage K) (w : σ) :
    ∃ handle, (s.run host now w).1 = (s.run (Viewport.answering handle) now ()).1 := by
  unfold run cancelPending
  cases s.pending with
  | none => exact ⟨_, rfl⟩
  | some handle => exact ⟨_, rfl⟩

theorem stop_fst (host : FrameHost σ) (s : Stage K) (w : σ) :
    (s.stop host w).1 = (s.stop (Viewport.answering 0) ()).1 := by
  unfold stop cancelPending
  cases s.pending <;> rfl

end Stage

/-! ## The letters of a page -/

namespace Page

variable {K : Type}

/-- All that the width of a text depends on while measuring does not fail. -/
def lettering (p : Page K) : (String → TextMeasure K) × String := (p.measure, p.font)

theorem noteAll_eq (calls : List (PageCall K)) : ∀ p : Page K,
    p.noteAll calls = { p with calls := calls.foldl Array.push p.calls } := by
  induction calls with
  | nil => intro p; rfl
  | cons call calls ih => intro p; exact ih (p.note call)

theorem lettering_noteAll (calls : List (PageCall K)) (p : Page K) :
    (p.noteAll calls).lettering = p.lettering := by
  rw [noteAll_eq]
  rfl

theorem lettering_requestFrame (p : Page K) :
    p.requestFrame.2.lettering = p.lettering := by
  unfold requestFrame
  split
  · rfl
  · dsimp only
    split <;> rfl

theorem lettering_cancelFrame (handle : Nat) (p : Page K) :
    (p.cancelFrame handle).lettering = p.lettering := by
  unfold cancelFrame
  split
  · rfl
  · dsimp only
    split <;> rfl

theorem lettering_cancelPending (s : Stage K) (p : Page K) :
    (s.cancelPending frameHost p).2.lettering = p.lettering := by
  unfold Stage.cancelPending
  split
  · rfl
  · exact lettering_cancelFrame ..

theorem lettering_run (s : Stage K) (now : K) (p : Page K) :
    (s.run frameHost now p).2.lettering = p.lettering :=
  (lettering_requestFrame _).trans (lettering_cancelPending s p)

end Page

theorem Canvas.lettering_run {K : Type} [Scalar K] (program : List (Instruction K)) :
    ∀ c : Canvas K, (c.run program).page.lettering = c.page.lettering := by
  induction program with
  | nil => intro c; rfl
  | cons i program ih =>
      intro c
      exact (ih (c.apply i)).trans (Page.lettering_noteAll _ c.page)

/-- Changes neither the text nor the settings, and leaves the diagram where it is. -/
def Viewport.Operation.Plain : Viewport.Operation Float → Prop
  | .setText _ _ | .setSettings _ | .reset => False
  | _ => True

namespace Viewer

/-! ## Calls -/

inductive Operation where
  | setText (text : String)
  | setSettings (json : String)
  | handle (event : Input Float)
  | cancelDrag
  | resize (canvas : Size Float)
  | panScaled (delta : Vec Float)
  | zoom (factor : Float)
  | refit
  | setHotkeys (enabled : Bool)
  | setEditing (editing : Bool)
  | run (now : Float)
  | stop
  | runPending (t : Float)
  | runStray (t : Float)
  /-- From now on these calls fail on the page, and no others. -/
  | fail (calls : List FallibleCall)

def apply (v : Viewer) : Operation → Viewer
  | .setText text => (v.setText text).2
  | .setSettings json => (v.setSettingsText? json).getD v
  | .handle event => (v.handle event).2
  | .cancelDrag => v.modifyViewport (·.cancelDrag)
  | .resize canvas => v.modifyViewport (·.resize canvas)
  | .panScaled delta => v.modifyViewport (·.panScaled delta)
  | .zoom factor => v.modifyViewport (·.zoom factor)
  | .refit => v.modifyViewport (·.refit)
  | .setHotkeys enabled => v.modifyViewport (·.setHotkeys enabled)
  | .setEditing editing => v.modifyViewport (·.setEditing editing)
  | .run now => v.run now
  | .stop => v.stop
  | .runPending t => v.runPending t
  | .runStray t => v.runStray t
  | .fail calls => v.modifyPage fun p => { p with failing := calls }

def applyAll (v : Viewer) (ops : List Operation) : Viewer := ops.foldl apply v

/-! ## Moves of the viewport -/

/-- Comes about by plain moves of the viewport, and the page writes as before. -/
structure PlainStep (v v' : Viewer) : Prop where
  moves : ∃ moves, v'.viewport = v.viewport.applyAll moves ∧ ∀ move ∈ moves, move.Plain
  lettering : v'.page.lettering = v.page.lettering

namespace PlainStep

variable {v v' v'' : Viewer}

theorem refl (v : Viewer) : PlainStep v v := ⟨⟨[], rfl, by simp⟩, rfl⟩

theorem of_move (move : Viewport.Operation Float) (hmove : move.Plain)
    (hviewport : v'.viewport = v.viewport.apply move)
    (hlettering : v'.page.lettering = v.page.lettering) : PlainStep v v' :=
  ⟨⟨[move], hviewport, by simp [hmove]⟩, hlettering⟩

theorem trans (h : PlainStep v v') (h' : PlainStep v' v'') : PlainStep v v'' := by
  obtain ⟨⟨moves, heq, hplain⟩, hlettering⟩ := h
  obtain ⟨⟨moves', heq', hplain'⟩, hlettering'⟩ := h'
  refine ⟨⟨moves ++ moves', ?_, ?_⟩, hlettering'.trans hlettering⟩
  · rw [heq', heq, Viewport.applyAll, Viewport.applyAll, Viewport.applyAll, List.foldl_append]
  · intro move hmove
    exact (List.mem_append.mp hmove).elim (hplain move) (hplain' move)

end PlainStep

theorem plainStep_frame (v : Viewer) (t : Float) : PlainStep v (v.frame t) := by
  unfold frame
  split
  · unfold Stage.frame?
    by_cases hrunning : v.viewport.stage.running = true
    · rw [if_pos hrunning]
      refine .of_move (.frame v.page.requestFrame.1 t) trivial ?_
        ((Canvas.lettering_run _ _).trans (Page.lettering_requestFrame v.page))
      change _ = v.viewport.frame v.page.requestFrame.1 t
      unfold Viewport.frame Stage.frame?
      rw [if_pos hrunning]
      rfl
    · rw [if_neg hrunning]
      exact .refl v
  · exact .refl v

theorem plainStep_runPending (v : Viewer) (t : Float) : PlainStep v (v.runPending t) := by
  have hframes : ∀ (handles : List Nat) (v' : Viewer), PlainStep v v' →
      PlainStep v (handles.foldl (fun v _ => v.frame t) v') := by
    intro handles
    induction handles with
    | nil => intro v' h; exact h
    | cons _ handles ih => intro v' h; exact ih _ (h.trans (plainStep_frame v' t))
  exact hframes _ _ ⟨⟨[], rfl, by simp⟩, rfl⟩

theorem apply_setSettings (v : Viewer) {json : String} {settings : Settings Float}
    (hread : Settings.read? json = some settings) : v.apply (.setSettings json) =
      { v with
        canvas := v.canvas.setFont settings.theme.font
        viewport := v.viewport.setSettings settings } := by
  rw [apply, setSettingsText?, hread]
  rfl

/-- What a call does: it gives a text, or settings that can be read, or moves the viewport. -/
theorem apply_cases (v : Viewer) (op : Operation) :
    (∃ text, op = .setText text ∧
      (v.apply op).viewport = (v.viewport.setText v.page.widthOf text).2 ∧
      (v.apply op).page.lettering = v.page.lettering) ∨
    (∃ settings, (v.apply op).viewport = v.viewport.setSettings settings ∧
      (v.apply op).page.lettering = (v.page.measure, settings.theme.font)) ∨
    PlainStep v (v.apply op) := by
  cases op with
  | setText text => exact .inl ⟨text, rfl, rfl, Page.lettering_noteAll _ v.page⟩
  | setSettings json =>
      right
      cases hread : Settings.read? json with
      | none =>
          right
          rw [apply, setSettingsText?, hread]
          exact .refl v
      | some settings =>
          rw [apply_setSettings v hread]
          exact .inl ⟨settings, rfl, rfl⟩
  | handle event => exact .inr (.inr (.of_move (.handle event) trivial rfl rfl))
  | cancelDrag => exact .inr (.inr (.of_move .cancelDrag trivial rfl rfl))
  | resize canvas => exact .inr (.inr (.of_move (.resize canvas) trivial rfl rfl))
  | panScaled delta => exact .inr (.inr (.of_move (.panScaled delta) trivial rfl rfl))
  | zoom factor => exact .inr (.inr (.of_move (.zoom factor) trivial rfl rfl))
  | refit => exact .inr (.inr (.of_move .refit trivial rfl rfl))
  | setHotkeys enabled => exact .inr (.inr (.of_move (.setHotkeys enabled) trivial rfl rfl))
  | setEditing editing => exact .inr (.inr (.of_move (.setEditing editing) trivial rfl rfl))
  | run now =>
      obtain ⟨handle, hstage⟩ := Stage.run_fst Page.frameHost now v.viewport.stage v.page
      refine .inr (.inr (.of_move (.startLoop handle now) trivial ?_
        (Page.lettering_run _ now _)))
      exact congrArg (fun stage => { v.viewport with stage := stage }) hstage
  | stop =>
      have hstage := Stage.stop_fst Page.frameHost v.viewport.stage v.page
      refine .inr (.inr (.of_move .stopLoop trivial ?_
        (Page.lettering_cancelPending ..)))
      exact congrArg (fun stage => { v.viewport with stage := stage }) hstage
  | runPending t => exact .inr (.inr (plainStep_runPending v t))
  | runStray t =>
      right; right
      unfold apply runStray
      dsimp only
      split
      · exact .refl v
      · exact plainStep_frame v t
  | fail calls => exact .inr (.inr ⟨⟨[], rfl, by simp⟩, rfl⟩)

/-! ## What every run keeps -/

theorem PlainStep.invariant {v v' : Viewer} (h : PlainStep v v')
    {allowed : Viewport.Operation Float → Prop} {P : Viewport Float → Prop}
    (hallowed : ∀ move : Viewport.Operation Float, move.Plain → allowed move)
    (hP : Viewport.Invariant allowed P) (hv : P v.viewport) : P v'.viewport := by
  obtain ⟨⟨moves, heq, hplain⟩, _⟩ := h
  rw [heq]
  exact hP.run moves _ (fun move hmove => hallowed move (hplain move hmove)) hv

/-- A viewer never resets its viewport. -/
theorem invariant_applyAll {P : Viewport Float → Prop} (hP : Viewport.Invariant (· ≠ .reset) P)
    (ops : List Operation) : ∀ v : Viewer, P v.viewport → P (v.applyAll ops).viewport := by
  induction ops with
  | nil => intro v hv; exact hv
  | cons op ops ih =>
      intro v hv
      refine ih (v.apply op) ?_
      rcases apply_cases v op with ⟨text, _, heq, _⟩ | ⟨settings, heq, _⟩ | hplain
      · rw [heq]
        exact hP.setText _ _ text nofun hv
      · rw [heq]
        exact hP.setSettings _ settings nofun hv
      · exact hplain.invariant (fun move hmove hreset => by rw [hreset] at hmove; exact hmove) hP hv

/-- The page measures by one function, in the font of the theme. -/
def WritesBy (measure : String → TextMeasure Float) (v : Viewer) : Prop :=
  v.page.lettering = (measure, v.viewport.settings.theme.font)

theorem WritesBy.apply {measure : String → TextMeasure Float} {v : Viewer}
    (h : v.WritesBy measure) (op : Operation) : (v.apply op).WritesBy measure := by
  unfold WritesBy at h ⊢
  rcases apply_cases v op with ⟨text, _, heq, hlettering⟩ | ⟨settings, heq, hlettering⟩ | hplain
  · rw [hlettering, heq, h, Viewport.settings_setText]
  · have hmeasure : v.page.measure = measure := congrArg Prod.fst h
    rw [hlettering, heq, hmeasure]
    rfl
  · have hsettings : (v.apply op).viewport.settings = v.viewport.settings :=
      hplain.invariant (fun move hmove settings heq => by rw [heq] at hmove; exact hmove)
        (Viewport.settings_invariant _) rfl
    rw [hplain.lettering, hsettings, h]

theorem WritesBy.applyAll {measure : String → TextMeasure Float} (ops : List Operation) :
    ∀ v : Viewer, v.WritesBy measure → (v.applyAll ops).WritesBy measure := by
  induction ops with
  | nil => intro v h; exact h
  | cons op ops ih => intro v h; exact ih _ (h.apply op)

theorem of_create {page : Page Float} {answer : ContextAnswer} {size : Size Float} {v : Viewer}
    (h : (create page answer size).2 = .ok v) :
    v.viewport = .new size .standard ∧ v.WritesBy page.measure := by
  cases answer with
  | drawing =>
      cases h
      exact ⟨rfl, rfl⟩
  | none => cases h
  | other => cases h
  | failed => cases h

end Viewer

end SExprViewer
