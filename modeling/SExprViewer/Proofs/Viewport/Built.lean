import SExprViewer.Proofs.Diagram.Upright
import SExprViewer.Proofs.Viewport.Marks
import SExprViewer.Proofs.Viewport.Shown

/-! # What is shown was built

As long as the settings stay the same, what is shown was built by their layout: of its nodes only
the place, the glide and the marks are told from that (`showsBuilt_invariant`).  The camera is
centered when the settings say so (`centered_invariant`). -/
set_option autoImplicit false

namespace SExprViewer

variable {K : Type} [Scalar K]

/-! ## Nodes without their place -/

/-- The placement at the origin, turned and scaled as before. -/
def Placement.rest (p : Placement K) : Placement K :=
  { p with
    position := .origin
    target := none
    velocity := 0 }

theorem Placement.rest_glideTo (p : Placement K) (q : Point K) (velocity : K) :
    (p.glideTo q velocity).rest = p.rest := by
  unfold glideTo
  split <;> rfl

theorem Placement.rest_step (p : Placement K) (elapsed : K) : (p.step elapsed).rest = p.rest := by
  unfold step
  split
  · rfl
  · dsimp only
    split <;> rfl

/-- The node without its identity, its place, its glide and its marks. -/
def Node.form (n : Node K) : Node K := { n.shape with placement := n.placement.rest }

theorem Node.lasting_form : Lasting (K := K) Node.form where
  active _ _ := rfl
  selected _ _ := rfl
  moveTo _ _ := rfl
  glideTo n q velocity := by
    rw [form, Placement.rest_glideTo]
    rfl
  step n elapsed := by
    rw [form, Placement.rest_step]
    rfl

namespace Diagram

variable {layout : LayoutSettings K}

/-- Some expression has been given this form by the layout. -/
def BuiltBy (layout : LayoutSettings K) (d : Diagram K) : Prop :=
  ∃ measure e next, d.map Node.form = (build measure layout e next).1.map Node.form

theorem BuiltBy.of_map_eq {d d' : Diagram K} (h : d'.BuiltBy layout)
    (hform : d.map Node.form = d'.map Node.form) : d.BuiltBy layout := by
  obtain ⟨measure, e, next, heq⟩ := h
  exact ⟨measure, e, next, hform.trans heq⟩

theorem builtBy_build (measure : TextMeasure K) (layout : LayoutSettings K) (e : Expr)
    (next : ObjectId) : (build measure layout e next).1.BuiltBy layout := ⟨measure, e, next, rfl⟩

theorem BuiltBy.exists_shape {d : Diagram K} (h : d.BuiltBy layout) :
    ∃ measure e next, d.shape = (build measure layout e next).1.shape := by
  obtain ⟨measure, e, next, heq⟩ := h
  have hshape : ∀ d : Diagram K, (d.map Node.form).map Node.shape = d.shape :=
    fun d => Tree.map_map ..
  exact ⟨measure, e, next, by rw [← hshape, heq, hshape]⟩

theorem BuiltBy.upright {d : Diagram K} (h : d.BuiltBy layout) : d.Upright := by
  obtain ⟨measure, e, next, heq⟩ := h
  have hbuild : (build measure layout e next).1.Upright :=
    all_build (fun _ _ _ => ⟨rfl, rfl⟩) e next
  have hturn : ∀ d : Diagram K, (d.map Node.form).map
      (fun n => (n.placement.rotation, n.placement.scale)) =
        d.map fun n => (n.placement.rotation, n.placement.scale) := fun d => Tree.map_map ..
  exact hbuild.of_map_eq (by rw [← hturn, heq, hturn])

end Diagram

namespace Viewport

theorem exists_showing (canvas : Size K) (settings : Settings K) (ops : List (Operation K)) :
    ∃ shown, ((new canvas settings).applyAll ops).Showing shown := by
  have hnew : Agreeing (new canvas settings) := ⟨none, showing_new canvas settings, rfl, rfl⟩
  obtain ⟨shown, hshowing, _⟩ := agreeing_invariant.run ops _ (fun _ _ => trivial) hnew
  exact ⟨shown, hshowing⟩

/-! ## Runs with the same settings -/

theorem form_placed (layout : LayoutSettings K) (d : Diagram K) :
    (placed layout d).map Node.form = d.map Node.form :=
  map_placed layout Node.lasting_form.moveTo Node.lasting_form.glideTo d

structure ShowsBuilt (layout : LayoutSettings K) (v : Viewport K) : Prop where
  settings : v.settings.layout = layout
  built : ∃ shown, v.Showing shown ∧ ∀ d ∈ shown, d.BuiltBy layout

variable {layout : LayoutSettings K} {v v' : Viewport K}

theorem ShowsBuilt.diagram? (h : v.ShowsBuilt layout) {d : Diagram K} (hd : v.diagram? = some d) :
    d.BuiltBy layout := by
  obtain ⟨shown, hshowing, hbuilt⟩ := h.built
  exact hbuilt d (hshowing.diagram?.symm.trans hd)

theorem ShowsBuilt.keep (h : v.ShowsBuilt layout)
    (hshown : ∀ form, v.ShowsAs Node.form form → v'.ShowsAs Node.form form)
    (hsettings : v'.settings = v.settings) : v'.ShowsBuilt layout := by
  obtain ⟨shown, hshowing, hbuilt⟩ := h.built
  obtain ⟨shown', hshowing', hform⟩ := hshown _ ⟨shown, hshowing, rfl⟩
  refine ⟨hsettings ▸ h.settings, shown', hshowing', fun d' hd' => ?_⟩
  rw [hd', Option.map_some] at hform
  obtain ⟨d, hd, heq⟩ := Option.map_eq_some_iff.mp hform.symm
  exact (hbuilt d hd).of_map_eq heq.symm

theorem showsBuilt_display {shown : Option (Diagram K)} (h : v.Showing shown)
    (measure : TextMeasure K) (e : Expr) : (v.display measure e).ShowsBuilt v.settings.layout := by
  have hdisplays := displays_display h measure e
  refine ⟨congrArg Settings.layout hdisplays.settings, _, hdisplays.showing, ?_⟩
  rintro _ ⟨⟩
  exact (Diagram.builtBy_build measure _ e v.nextId).of_map_eq (form_placed _ _)

theorem ShowsBuilt.setText (h : v.ShowsBuilt layout) (measure : TextMeasure K) (text : String) :
    (v.setText measure text).2.ShowsBuilt layout := by
  obtain ⟨shown, hshowing, _⟩ := h.built
  rcases setText_cases v measure text with ⟨_, heq⟩ | ⟨_, err, _, heq⟩ | ⟨_, e, _, heq⟩
  · rwa [heq]
  · rw [heq]
    exact h.keep (fun _ h => h.of_eq rfl rfl) rfl
  · rw [heq, ← h.settings]
    exact showsBuilt_display (v := { v with document := ⟨some text, none⟩ })
      (hshowing.of_eq rfl rfl) measure e

theorem showsBuilt_invariant (layout : LayoutSettings K) :
    Invariant (fun op => ∀ settings, op ≠ .setSettings settings) (ShowsBuilt layout) where
  camera _ _ _ h := h.keep (fun _ h => h.of_eq rfl rfl) rfl
  status _ _ _ _ h := h.keep (fun _ h => h.of_eq rfl rfl) rfl
  loop _ _ _ _ h := h.keep (fun _ h => h.of_eq rfl rfl) rfl
  step _ elapsed h := h.keep (fun _ h => h.step Node.lasting_form elapsed) rfl
  arrange _ h := h.keep (fun _ h => h.arrange Node.lasting_form) (modifyDiagram_settings ..)
  hover v p h := h.keep (fun _ h => h.hover Node.lasting_form p) (settings_hover v p)
  click v p h := h.keep (fun _ h => h.click Node.lasting_form p) (settings_click v p)
  reset _ _ h := by
    obtain ⟨shown, hshowing, _⟩ := h.built
    exact ⟨h.settings, none, hshowing.dropDiagram.of_eq rfl rfl, nofun⟩
  setText _ measure text _ h := h.setText measure text
  setSettings _ settings hallowed _ := absurd rfl (hallowed settings)

/-! ## The camera -/

theorem centered_display (v : Viewport K) (measure : TextMeasure K) (e : Expr) :
    (v.display measure e).camera.centered = v.camera.centered := by
  rcases camera_display v measure e with hcamera | hcamera | ⟨scale, _, hcamera⟩
  · rw [hcamera]
  · rw [hcamera]
    rfl
  · rw [hcamera]
    rfl

theorem centered_invariant : Invariant (fun _ => True)
    (fun v : Viewport K => v.camera.centered = v.settings.centered) where
  camera v f hmove h := by
    change (f v.camera).centered = _
    generalize f v.camera = c at hmove
    cases hmove <;> exact h
  status _ _ _ _ h := h
  loop _ _ _ _ h := h
  step _ _ h := h
  arrange v h := by
    rw [camera_arrange, arrange, modifyDiagram_settings]
    exact h
  hover v p h := by rwa [camera_hover, settings_hover]
  click v p h := by rwa [camera_click, settings_click]
  reset v _ h := (congrArg Camera.centered (dropDiagram_camera v)).trans h
  setText v measure text _ h := by
    rw [settings_setText]
    rcases setText_cases v measure text with ⟨_, heq⟩ | ⟨_, err, _, heq⟩ | ⟨_, e, _, heq⟩
    · rwa [heq]
    · rwa [heq]
    · rw [heq, centered_display]
      exact h
  setSettings _ _ _ _ := rfl

end Viewport

end SExprViewer
