import SExprViewer.Proofs.Viewport.Origin
import SExprViewer.Proofs.Viewport.Relayout

/-! # Fitting anew

Fitting anew computes the camera from the canvas, the settings and the sizes of the root
(`ShowsAs.refit_eq`), and the places of the nodes from the shape of the diagram
(`whereabouts_placed`), whatever they have been before.  So it makes alike what comes from the same
origin, and nothing is left to be done when it is done again or right after a reading
(`refit_forgets`). -/
set_option autoImplicit false

namespace SExprViewer.Viewport

variable {K : Type} [Scalar K] {layout : LayoutSettings K}

/-! ## Places -/

theorem placed_eq (d : Diagram K) : placed layout d = (Diagram.arrange layout d).modifyRoot fun n =>
    { n with placement := n.placement.moveTo (rootPlace n) } := by
  refine Diagram.arrange_modifyRoot (fun n => ?_) d
  rfl

theorem placed_placed (h : ¬ 0 < layout.glideVelocity) (d : Diagram K) :
    placed layout (placed layout d) = placed layout d := by
  rw [placed_eq, placed_eq, Diagram.arrange_modifyRoot (fun _ => ?_), Diagram.arrange_arrange h,
    Tree.modifyRoot_modifyRoot]
  · rfl
  · rfl

theorem whereabouts_placed (h : ¬ 0 < layout.glideVelocity) (d : Diagram K) :
    (placed layout d).whereabouts = .node (rootPlace d.shape.value, .idle)
      (Diagram.arrange layout d.shape).whereabouts.children := by
  have hbelow : (placed layout d).whereabouts.children =
      (Diagram.arrange layout d).whereabouts.children := by
    rw [placed_eq, Diagram.whereabouts, Tree.children_map, Tree.children_modifyRoot,
      ← Tree.children_map]
    rfl
  rw [Diagram.whereabouts_eq, hbelow, ← Diagram.whereabouts_arrange_shape h, Diagram.value_shape,
    placed_eq, Tree.value_modifyRoot, Diagram.value_arrange]
  rfl

/-! ## The camera -/

/-- The scale after fitting anew: the one at which the diagram fits, or one if there is no diagram
or no scale for it. -/
def refitScale (canvas : Size K) (most : K) (root : Option (Node K)) : K :=
  match root with
  | none => 1
  | some n => if isScale (fitScale canvas most n) then fitScale canvas most n else 1

/-- The camera after fitting anew. -/
def refitCamera (settings : Settings K) (root : Option (Node K)) (c : Camera K) : Camera K :=
  { c with scale := refitScale c.canvas settings.maxInitialScale root, pan := .zero }

theorem refitScale_shape (canvas : Size K) (most : K) (shown : Option (Diagram K)) :
    refitScale canvas most ((shown.map Diagram.shape).map Tree.value) =
      refitScale canvas most (shown.map Tree.value) := by
  cases shown with
  | none => rfl
  | some d =>
      rw [Option.map_some, Option.map_some, Diagram.value_shape]
      rfl

omit [Scalar K] in
theorem modifyCamera_congr {v : Viewport K} {f g : Camera K → Camera K}
    (h : f v.camera = g v.camera) : v.modifyCamera f = v.modifyCamera g :=
  congrArg (fun c => { v with stage := { v.stage with camera := c } }) h

theorem fit_clear (v : Viewport K) : (v.modifyCamera Camera.clear).fit =
    v.modifyCamera (refitCamera v.settings (v.diagram?.map Tree.value)) := by
  have hdiagram : (v.modifyCamera Camera.clear).diagram? = v.diagram? := rfl
  have hcanvas : (v.modifyCamera Camera.clear).camera.canvas = v.camera.canvas := rfl
  have hsettings : (v.modifyCamera Camera.clear).settings = v.settings := rfl
  unfold fit
  rw [hdiagram, hcanvas, hsettings]
  cases v.diagram? with
  | none => rfl
  | some d =>
      dsimp only
      split
      · rename_i hscale
        refine modifyCamera_congr (v := v) (f := fun c : Camera K => c.clear.setScale _) ?_
        simp only [refitCamera, refitScale, Option.map_some, if_pos hscale]
        rfl
      · -- the scale is kept, and that is one
        rename_i hscale
        refine modifyCamera_congr (v := v) (f := Camera.clear) ?_
        simp only [refitCamera, refitScale, Option.map_some, if_neg hscale]
        rfl

theorem arrange_modifyCamera (v : Viewport K) (f : Camera K → Camera K) :
    (v.modifyCamera f).arrange = v.arrange.modifyCamera f := by
  have hroot : (v.modifyCamera f).root = v.root := rfl
  unfold arrange modifyDiagram
  rw [hroot]
  cases v.root <;> rfl

theorem ShowsAs.refit_eq {v : Viewport K} {shape : Option (Diagram K)}
    (h : v.ShowsAs Node.shape shape) :
    v.refit = v.arrange.modifyCamera (refitCamera v.settings (shape.map Tree.value)) := by
  have hcamera : refitCamera v.settings (v.diagram?.map Tree.value) =
      refitCamera v.settings (shape.map Tree.value) := by
    funext c
    rw [refitCamera, refitCamera, ← h.diagram?]
    exact congrArg (fun scale => { c with scale := scale, pan := .zero })
      (refitScale_shape _ _ v.diagram?).symm
  rw [refit, fit_clear, arrange_modifyCamera, hcamera]

/-! ## Once more -/

theorem modifyFirst_modifyFirst {α : Type} {p : α → Bool} {f : α → α} (hf : ∀ a, p (f a) = p a)
    (g : α → α) (as : List α) : Stage.modifyFirst p g (Stage.modifyFirst p f as) =
      Stage.modifyFirst p (g ∘ f) as := by
  induction as with
  | nil => rfl
  | cons a as ih =>
      by_cases ha : p a = true
      · simp [Stage.modifyFirst, ha, hf]
      · simp [Stage.modifyFirst, ha, ih]

omit [Scalar K] in
theorem modifyDiagram_modifyDiagram {f : Diagram K → Diagram K}
    (hid : ∀ d, (f d).value.id = d.value.id) (g : Diagram K → Diagram K) (v : Viewport K) :
    (v.modifyDiagram f).modifyDiagram g = v.modifyDiagram (g ∘ f) := by
  have hcomp : Actor.modifyDiagram g ∘ Actor.modifyDiagram f = Actor.modifyDiagram (g ∘ f) := by
    funext a
    cases a <;> rfl
  have hactor : ∀ a, (Actor.modifyDiagram f a).id = a.id := by
    intro a
    cases a with
    | diagram d => exact hid d
    | marker => rfl
  unfold modifyDiagram
  cases hroot : v.root with
  | none => simp [hroot]
  | some id =>
      simp only [Stage.modifyDiagram]
      rw [modifyFirst_modifyFirst fun a => by rw [hactor], hcomp]

theorem arrange_arrange {v : Viewport K} (h : ¬ 0 < v.settings.layout.glideVelocity) :
    v.arrange.arrange = v.arrange := by
  have hid : ∀ d : Diagram K, (placed v.settings.layout d).value.id = d.value.id := by
    intro d
    rw [placed_eq, Tree.value_modifyRoot, Diagram.value_arrange]
  have hsettings : v.arrange.settings = v.settings := modifyDiagram_settings ..
  have harrange : ∀ w : Viewport K, w.arrange = w.modifyDiagram (placed w.settings.layout) :=
    fun _ => rfl
  rw [harrange v.arrange, hsettings, harrange, modifyDiagram_modifyDiagram hid]
  exact congrArg v.modifyDiagram (funext (placed_placed h))

theorem ShowsAs.refit_refit {v : Viewport K} {shape : Option (Diagram K)}
    (hv : v.ShowsAs Node.shape shape) (h : ¬ 0 < v.settings.layout.glideVelocity) :
    v.refit.refit = v.refit := by
  have hv' : v.refit.ShowsAs Node.shape shape :=
    (showsAs_invariant Node.lasting_shape shape).refit hv
  have hsettings : v.refit.settings = v.settings := by
    rw [hv.refit_eq]
    exact modifyDiagram_settings ..
  have harrange : v.refit.arrange = v.refit := by
    rw [hv.refit_eq, arrange_modifyCamera, arrange_arrange h]
  calc v.refit.refit
    _ = v.refit.modifyCamera (refitCamera v.settings (shape.map Tree.value)) := by
        rw [hv'.refit_eq, harrange, hsettings]
    _ = v.refit := by
        rw [hv.refit_eq]
        rfl

/-- A reading that resets the view ends with fitting anew. -/
theorem display_eq_refit {v : Viewport K} {shown : Option (Diagram K)} (hv : v.Showing shown)
    (hreset : v.settings.resetViewOnParse = true) (measure : TextMeasure K) (e : Expr) :
    ∃ (w : Viewport K) (d : Diagram K), w.Showing (some d) ∧ w.settings = v.settings ∧
      v.display measure e = w.refit := by
  let built := Diagram.build measure v.settings.layout e v.nextId
  let w : Viewport K :=
    { v.reset with
      stage := v.reset.stage.add (.diagram built.1)
      root := some built.1.value.id
      nextId := built.2 }
  have hshowing : w.Showing (some built.1) := ⟨rfl, congrArg (· ++ [_]) hv.dropDiagram.actors⟩
  refine ⟨w, built.1, hshowing, rfl, ?_⟩
  unfold display
  dsimp only
  rw [if_pos hreset]
  -- the reset has cleared the camera already
  rfl

theorem refit_setText {v : Viewport K} {shown : Option (Diagram K)} (hv : v.Showing shown)
    (h : ¬ 0 < v.settings.layout.glideVelocity) (hreset : v.settings.resetViewOnParse = true)
    {measure : TextMeasure K} {text : String} (hread : (v.setText measure text).1 = .ok true) :
    (v.setText measure text).2.refit = (v.setText measure text).2 := by
  rcases setText_cases v measure text with ⟨_, heq⟩ | ⟨_, err, _, heq⟩ | ⟨_, e, _, heq⟩
  · rw [heq] at hread
    cases hread
  · rw [heq] at hread
    cases hread
  · obtain ⟨w, d, hw, hsettings, hdisplay⟩ := display_eq_refit
      (v := { v with document := ⟨some text, none⟩ }) (hv.of_eq rfl rfl) hreset measure e
    have hshows : w.ShowsAs Node.shape (some d.shape) := ⟨some d, hw, rfl⟩
    rw [heq, hdisplay]
    exact hshows.refit_refit (hsettings ▸ h)

theorem ShowsAs.camera_refit {v : Viewport K} {shape : Option (Diagram K)}
    (h : v.ShowsAs Node.shape shape) :
    v.refit.camera = refitCamera v.settings (shape.map Tree.value) v.camera := by
  rw [h.refit_eq]
  exact congrArg (refitCamera _ _) (modifyDiagram_camera ..)

/-- Viewports whose diagrams come from the same origin, however they have been panned, zoomed,
dragged, let glide and moved since, are alike after they have been fitted anew with the same
settings on canvases of the same size: in their cameras, and in where the nodes stand and whether
they are on their way.  Fitting anew once more changes nothing, nor does it after a reading that
resets the view. -/
theorem refit_forgets {v v' : Viewport K} {origin : Origin K} (h : Reached v (some origin))
    (h' : Reached v' (some origin)) (hsettings : v.settings = v'.settings)
    (hcanvas : v.camera.canvas = v'.camera.canvas)
    (hstill : ¬ 0 < v.settings.layout.glideVelocity) :
    v.refit.camera.scale = v'.refit.camera.scale ∧ v.refit.camera.pan = v'.refit.camera.pan ∧
    (∃ d d', v.refit.diagram? = some d ∧ v'.refit.diagram? = some d' ∧
      d.whereabouts = d'.whereabouts) ∧
    ∀ (u : Viewport K) (origin' : Option (Origin K)), Reached u origin' →
      ¬ 0 < u.settings.layout.glideVelocity → u.refit.refit = u.refit ∧
      ∀ measure text, u.settings.resetViewOnParse = true → (u.setText measure text).1 = .ok true →
        (u.setText measure text).2.refit = (u.setText measure text).2 := by
  have hcamera := h.showsAs.camera_refit
  have hcamera' := h'.showsAs.camera_refit
  rw [← hsettings] at hcamera'
  refine ⟨?_, ?_, ?_, ?_⟩
  · rw [hcamera, hcamera', refitCamera, refitCamera, hcanvas]
  · rw [hcamera, hcamera']
    rfl
  · obtain ⟨d, hshowing, hshape⟩ := h.exists_diagram
    obtain ⟨d', hshowing', hshape'⟩ := h'.exists_diagram
    refine ⟨_, _, diagram?_refit hshowing.diagram?, diagram?_refit hshowing'.diagram?, ?_⟩
    rw [← hsettings, whereabouts_placed hstill, whereabouts_placed hstill, hshape, hshape']
  · intro u origin' hu hstill
    have ⟨shown, hshowing, _⟩ := hu.showsAs
    exact ⟨hu.showsAs.refit_refit hstill, fun _ _ hreset => refit_setText hshowing hstill hreset⟩

/-- One viewport has just read the text; the other had read another one before, and was panned,
zoomed, run and meddled with. -/
theorem refit_forgets_moved :
    let measure : TextMeasure Float := fun _ => 6
    let canvas : Size Float := ⟨800, 600⟩
    let origin : Origin Float := ⟨measure, .standard, .list [.list []]⟩
    let new : Viewport Float := new ⟨400, 300⟩ .standard
    let v := (new.setText measure "(())").2.resize canvas
    let other := (new.setText measure "()").2
    let w := (other.setText measure "(())").2.applyAll
      [.pan ⟨5, 0⟩, .zoom 2, .startLoop 1 0, .frame 1 16]
    let v' := (w.modifyDiagram (Diagram.modifyPlacement (·.moveTo ⟨9, 9⟩) [0])).resize canvas
    Reached v (some origin) ∧ Reached v' (some origin) ∧ v.settings = v'.settings ∧
      v.camera.canvas = v'.camera.canvas ∧ (¬ 0 < v.settings.layout.glideVelocity) ∧
      v.refit.camera.scale = v'.refit.camera.scale ∧ v.refit.refit = v.refit := by
  intro measure canvas origin new v other w v'
  have hnew : Reached new none := .new _ _
  have hread : Reached v (some origin) :=
    (hnew.setText nofun parse_nested measure).apply (.resize canvas)
  have hother : other.settings = .standard := settings_setText ..
  have hw : Reached w (some origin) := by
    have htext : other.document.text ≠ some "(())" := by
      rw [text_setText]
      decide
    have hparse : Expr.parse other.settings.parse "(())" = .ok (.list [.list []]) := by
      rw [hother]
      exact parse_nested
    have hagain := (hnew.setText nofun parse_empty measure).setText htext hparse measure
    rw [hother] at hagain
    exact hagain.applyAll _ (by simp [Operation.LeavesReading])
  have hread' : Reached v' (some origin) := (hw.move [0] (·.moveTo ⟨9, 9⟩)).apply (.resize canvas)
  have hsettings : v.settings = .standard := settings_setText ..
  have hsettings' : v'.settings = .standard := by
    refine (modifyDiagram_settings w _).trans ?_
    exact (settings_invariant .standard).run _ _ (by simp) ((settings_setText ..).trans hother)
  have hresize : ∀ u : Viewport Float, (u.resize canvas).camera.canvas = canvas := fun _ => rfl
  have hcanvas : v.camera.canvas = v'.camera.canvas := (hresize _).trans (hresize _).symm
  have hstill : ¬ 0 < v.settings.layout.glideVelocity := by
    rw [hsettings]
    decide
  obtain ⟨hscale, -, -, htwice⟩ :=
    refit_forgets hread hread' (hsettings.trans hsettings'.symm) hcanvas hstill
  exact ⟨hread, hread', hsettings.trans hsettings'.symm, hcanvas, hstill, hscale,
    (htwice v _ hread hstill).1⟩

end SExprViewer.Viewport
