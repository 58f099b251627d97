import SExprViewer.Proofs.Diagram.Still
import SExprViewer.Proofs.Viewport.Reading

/-! # Layout settings that change under a diagram

A diagram is built by the layout settings of its time and arranged by those of the moment.  Two
viewports that are told apart by their layout settings alone go on alike as long as no text is
read: always, when the spacing is the same, and else until the diagram is arranged again
(`diagram?_applyAll_setSettings`).  Then the new spacing shows, although nothing was read. -/
set_option autoImplicit false

namespace SExprViewer

variable {K : Type}

/-- Arranging reads no more of a layout than this. -/
structure LayoutSettings.SpacedLike (layout layout' : LayoutSettings K) : Prop where
  neighborSpacing : layout.neighborSpacing = layout'.neighborSpacing
  childSpacing : layout.childSpacing = layout'.childSpacing
  glideVelocity : layout.glideVelocity = layout'.glideVelocity

def Viewport.withLayout (v : Viewport K) (layout : LayoutSettings K) (document : Document) :
    Viewport K :=
  { v with
    settings := { v.settings with layout := layout }
    document := document }

theorem Viewport.modifyDiagram_withLayout (v : Viewport K) (layout : LayoutSettings K)
    (document : Document) (f : Diagram K → Diagram K) :
    (v.withLayout layout document).modifyDiagram f =
      (v.modifyDiagram f).withLayout layout document := by
  cases h : v.root <;> simp [modifyDiagram, withLayout, h]

variable [Scalar K] {layout layout' : LayoutSettings K}

namespace Diagram

theorem sendToSlot_congr (h : layout.SpacedLike layout') (left : K) (d : Diagram K) :
    sendToSlot layout left d = sendToSlot layout' left d := by
  rw [sendToSlot, sendToSlot, h.childSpacing, h.glideVelocity]

theorem arrange_congr (h : layout.SpacedLike layout') (d : Diagram K) :
    arrange layout d = arrange layout' d := by
  have hall : ∀ cs : List (Diagram K), (∀ c ∈ cs, arrange layout c = arrange layout' c) →
      ∀ left, arrangeAll layout left cs = arrangeAll layout' left cs := by
    intro cs
    induction cs with
    | nil => intro _ left; rfl
    | cons c rest ih =>
        intro hcs left
        rw [arrangeAll, arrangeAll, hcs c List.mem_cons_self, sendToSlot_congr h,
          h.neighborSpacing, ih fun b hb => hcs b (List.mem_cons_of_mem _ hb)]
  induction d using Tree.node_induction with
  | node n cs ih => rw [arrange, arrange, hall cs ih]

def places (d : Diagram K) : Tree (Point K) := d.map fun n => n.placement.position

theorem position_y_sendToSlot (h : ¬ 0 < layout.glideVelocity) (left : K) (d : Diagram K) :
    (sendToSlot layout left d).value.placement.position.y = layout.childSpacing := by
  rw [sendToSlot_of_still h, Tree.value_modifyRoot]
  rfl

end Diagram

namespace Viewport

theorem row_placed (h : ¬ 0 < layout.glideVelocity) (d : Diagram K) :
    (placed layout d).places.children[0]?.map (fun c => c.value.y) =
      d.children[0]?.map fun _ => layout.childSpacing := by
  rw [Diagram.places, Tree.children_map, placed, Diagram.children_arrange, List.getElem?_map,
    Diagram.getElem?_arrangeAll, Tree.children_modifyRoot]
  cases d.children[0]? with
  | none => rfl
  | some c => simp [Diagram.position_y_sendToSlot h]

theorem childSpacing_eq_of_places {d d' : Diagram K} (hchildren : d.children ≠ [])
    (h : ¬ 0 < layout.glideVelocity) (h' : ¬ 0 < layout'.glideVelocity)
    (hplaces : (placed layout d).places = (placed layout' d').places) :
    layout.childSpacing = layout'.childSpacing := by
  have hrow := row_placed h d
  rw [hplaces, row_placed h'] at hrow
  obtain ⟨c, cs, hcs⟩ := List.exists_cons_of_ne_nil hchildren
  rw [hcs] at hrow
  obtain ⟨_, _, heq⟩ := Option.map_eq_some_iff.mp hrow
  exact heq.symm

theorem diagram?_refit {v : Viewport K} {d : Diagram K} (h : v.diagram? = some d) :
    v.refit.diagram? = some (placed v.settings.layout d) := by
  have hfit : (v.modifyCamera Camera.clear).fit.diagram? = some d := (fit_diagram? _).trans h
  have hsettings : (v.modifyCamera Camera.clear).fit.settings = v.settings := fit_settings _
  rw [← hsettings]
  exact diagram?_arrange hfit

theorem places_refit_ne {v v' : Viewport K} {d : Diagram K} (hd : v.diagram? = some d)
    (hd' : v'.diagram? = some d) (hchildren : d.children ≠ [])
    (h : ¬ 0 < v.settings.layout.glideVelocity) (h' : ¬ 0 < v'.settings.layout.glideVelocity)
    (hspacing : v.settings.layout.childSpacing ≠ v'.settings.layout.childSpacing) :
    v.refit.diagram?.map Diagram.places ≠ v'.refit.diagram?.map Diagram.places := by
  intro hplaces
  rw [diagram?_refit hd, diagram?_refit hd'] at hplaces
  exact hspacing (childSpacing_eq_of_places hchildren h h' (Option.some.inj hplaces))

/-! ## Other layout settings -/

section Commute
variable (v : Viewport K) (layout : LayoutSettings K) (document : Document)

theorem zoom_withLayout (factor : K) :
    (v.withLayout layout document).zoom factor = (v.zoom factor).withLayout layout document := by
  unfold zoom
  split <;> rfl

theorem fit_withLayout :
    (v.withLayout layout document).fit = v.fit.withLayout layout document := by
  have hdiagram : (v.withLayout layout document).diagram? = v.diagram? := rfl
  have hcamera : (v.withLayout layout document).camera = v.camera := rfl
  have hmost : (v.withLayout layout document).settings.maxInitialScale =
      v.settings.maxInitialScale := rfl
  unfold fit
  rw [hdiagram, hcamera, hmost]
  cases v.diagram? with
  | none => rfl
  | some d =>
      dsimp only
      split <;> rfl

theorem hover_withLayout (p : Point K) :
    ((v.withLayout layout document).hover p).2 = (v.hover p).2.withLayout layout document := by
  have hdiagram : (v.withLayout layout document).diagram? = v.diagram? := rfl
  have hhit : (v.withLayout layout document).hit? p = v.hit? p := rfl
  have hactive : (v.withLayout layout document).active = v.active := rfl
  unfold hover
  rw [hdiagram, hhit, hactive]
  dsimp only
  split
  · rfl
  · exact modifyDiagram_withLayout { v with active := v.hit? p } layout document _

theorem click_withLayout (p : Point K) :
    ((v.withLayout layout document).click p).2 = (v.click p).2.withLayout layout document := by
  have hdiagram : (v.withLayout layout document).diagram? = v.diagram? := rfl
  have hhit : (v.withLayout layout document).hit? p = v.hit? p := rfl
  have hselected : (v.withLayout layout document).selected = v.selected := rfl
  unfold click
  rw [hdiagram, hhit, hselected]
  dsimp only
  split
  · rfl
  · exact modifyDiagram_withLayout { v with selected := v.hit? p } layout document _

theorem frame_withLayout (handle : Nat) (now : K) :
    (v.withLayout layout document).frame handle now =
      (v.frame handle now).withLayout layout document := by
  have hstage : (v.withLayout layout document).stage = v.stage := rfl
  unfold frame
  rw [hstage]
  cases v.stage.frame? (answering handle) now () <;> rfl

theorem arrange_withLayout (h : layout.SpacedLike v.settings.layout) :
    (v.withLayout layout document).arrange = v.arrange.withLayout layout document := by
  rw [arrange, arrange, modifyDiagram_withLayout]
  congr 2
  funext d
  exact Diagram.arrange_congr h _

theorem zoomAndArrange_withLayout (factor : K) (h : layout.SpacedLike v.settings.layout) :
    (v.withLayout layout document).zoomAndArrange factor =
      (v.zoomAndArrange factor).withLayout layout document := by
  have hsettings : (v.zoom factor).settings = v.settings := by
    unfold zoom
    split <;> rfl
  rw [zoomAndArrange, zoom_withLayout, zoomAndArrange]
  refine arrange_withLayout _ layout document ?_
  rw [hsettings]
  exact h

theorem refit_withLayout (h : layout.SpacedLike v.settings.layout) :
    (v.withLayout layout document).refit = v.refit.withLayout layout document := by
  have hclear : (v.withLayout layout document).modifyCamera Camera.clear =
      (v.modifyCamera Camera.clear).withLayout layout document := rfl
  rw [refit, hclear, fit_withLayout]
  refine arrange_withLayout _ layout document ?_
  rw [fit_settings]
  exact h

theorem setText_withLayout {measure : TextMeasure K} {text : String} {err : SyntaxError}
    (h : Expr.parse v.settings.parse text = .error err) :
    ∃ document', ((v.withLayout layout document).setText measure text).2 =
      (v.setText measure text).2.withLayout layout document' := by
  have hfailed : ∀ u : Viewport K, u.settings.parse = v.settings.parse →
      ∃ document', (u.setText measure text).2 = { u with document := document' } := by
    intro u hu
    rcases setText_cases u measure text with ⟨_, heq⟩ | ⟨_, err', _, heq⟩ | ⟨_, e, he, _⟩
    · exact ⟨u.document, by rw [heq]⟩
    · exact ⟨_, by rw [heq]⟩
    · rw [hu, h] at he
      cases he
  obtain ⟨document₁, h₁⟩ := hfailed (v.withLayout layout document) rfl
  obtain ⟨document₂, h₂⟩ := hfailed v rfl
  exact ⟨document₁, by rw [h₁, h₂]; rfl⟩

end Commute

/-! ## Runs -/

/-- What arranges the diagram although no text is read. -/
def Operation.Arranges : Operation K → Prop
  | .zoomAndArrange _ | .arrange | .refit => True
  | .handle (.key name) => ∃ editing, Shortcut.ofKey? name editing = some .refit
  | _ => False

/-- Every text that is given along the way has an error. -/
def ReadsNothing : Viewport K → List (Operation K) → Prop
  | _, [] => True
  | v, op :: ops =>
    (∀ measure text, op = .setText measure text →
      ∃ err, Expr.parse v.settings.parse text = .error err) ∧ ReadsNothing (v.apply op) ops

theorem handle_withLayout (v : Viewport K) {event : Input K} (document : Document)
    (h : (Operation.handle event).Arranges → layout.SpacedLike v.settings.layout) :
    ((v.withLayout layout document).handle event).2 =
      (v.handle event).2.withLayout layout document := by
  cases event with
  | pointerDown place => rfl
  | pointerMove place movement =>
      rw [handle_pointerMove, handle_pointerMove, hover_withLayout]
      change (if v.dragging then _ else _) = _
      split <;> rfl
  | pointerUp place => exact click_withLayout { v with dragging := false } layout document place
  | wheel amount =>
      unfold handle
      dsimp only
      split
      · exact zoom_withLayout v layout document _
      · split
        · exact zoom_withLayout v layout document _
        · rfl
  | key name =>
      have hhotkeys : (v.withLayout layout document).hotkeys = v.hotkeys := rfl
      have hediting : (v.withLayout layout document).editing = v.editing := rfl
      unfold handle
      dsimp only
      rw [hhotkeys, hediting]
      split
      · cases hkey : Shortcut.ofKey? name v.editing with
        | none => rfl
        | some s =>
            cases s with
            | panLeft => rfl
            | panUp => rfl
            | panRight => rfl
            | panDown => rfl
            | zoomIn => exact zoom_withLayout v layout document _
            | zoomOut => exact zoom_withLayout v layout document _
            | refit => exact refit_withLayout v layout document (h ⟨_, hkey⟩)
      · rfl

theorem apply_withLayout (v : Viewport K) {op : Operation K} (document : Document)
    (hset : ∀ settings, op ≠ .setSettings settings)
    (hread : ∀ measure text, op = .setText measure text →
      ∃ err, Expr.parse v.settings.parse text = .error err)
    (h : op.Arranges → layout.SpacedLike v.settings.layout) :
    ∃ document', (v.withLayout layout document).apply op =
      (v.apply op).withLayout layout document' := by
  cases op with
  | setText measure text =>
      obtain ⟨err, herr⟩ := hread measure text rfl
      exact setText_withLayout v layout document herr
  | setSettings settings => exact absurd rfl (hset settings)
  | setHotkeys enabled => exact ⟨document, rfl⟩
  | setEditing editing => exact ⟨document, rfl⟩
  | resize canvas => exact ⟨document, rfl⟩
  | pan delta => exact ⟨document, rfl⟩
  | panScaled delta => exact ⟨document, rfl⟩
  | zoom factor => exact ⟨document, zoom_withLayout v layout document factor⟩
  | zoomAndArrange factor =>
      exact ⟨document, zoomAndArrange_withLayout v layout document factor (h trivial)⟩
  | fit => exact ⟨document, fit_withLayout v layout document⟩
  | arrange => exact ⟨document, arrange_withLayout v layout document (h trivial)⟩
  | refit => exact ⟨document, refit_withLayout v layout document (h trivial)⟩
  | reset => exact ⟨document, rfl⟩
  | hover p => exact ⟨document, hover_withLayout v layout document p⟩
  | click p => exact ⟨document, click_withLayout v layout document p⟩
  | handle event => exact ⟨document, handle_withLayout v document h⟩
  | cancelDrag => exact ⟨document, rfl⟩
  | startLoop handle now => exact ⟨document, rfl⟩
  | stopLoop => exact ⟨document, rfl⟩
  | frame handle now => exact ⟨document, frame_withLayout v layout document handle now⟩

theorem setSettings_withLayout (v : Viewport K) (layout : LayoutSettings K) (document : Document)
    (settings : Settings K) : ∃ document',
      (v.withLayout layout document).setSettings settings =
        (v.setSettings settings).withLayout settings.layout document' := ⟨_, rfl⟩

theorem applyAll_withLayout (ops : List (Operation K)) :
    ∀ (v : Viewport K) (layout : LayoutSettings K) (document : Document), ReadsNothing v ops →
      (layout.SpacedLike v.settings.layout ∨ ∀ op ∈ ops, ¬ op.Arranges) →
      ∃ layout' document', (v.withLayout layout document).applyAll ops =
        (v.applyAll ops).withLayout layout' document' := by
  induction ops with
  | nil => intro v layout document _ _; exact ⟨layout, document, rfl⟩
  | cons op ops ih =>
      intro v layout document ⟨hread, hreads⟩ h
      have hops : layout.SpacedLike v.settings.layout ∨ ∀ op ∈ ops, ¬ op.Arranges :=
        h.imp id fun hops op hop => hops op (List.mem_cons_of_mem _ hop)
      by_cases hset : ∃ settings, op = .setSettings settings
      · -- from here on the two have the same settings
        obtain ⟨settings, rfl⟩ := hset
        obtain ⟨document', heq⟩ := setSettings_withLayout v layout document settings
        obtain ⟨layout'', document'', hrest⟩ :=
          ih (v.setSettings settings) settings.layout document' hreads (.inl ⟨rfl, rfl, rfl⟩)
        exact ⟨layout'', document'', (congrArg (applyAll · ops) heq).trans hrest⟩
      · have hsettings : ∀ settings, op ≠ .setSettings settings :=
          fun settings heq => hset ⟨settings, heq⟩
        obtain ⟨document', heq⟩ := apply_withLayout v document hsettings hread fun harranges =>
          h.resolve_right fun hnone => hnone op List.mem_cons_self harranges
        obtain ⟨layout'', document'', hrest⟩ := ih (v.apply op) layout document' hreads (by
          rwa [settings_apply v hsettings])
        exact ⟨layout'', document'', (congrArg (applyAll · ops) heq).trans hrest⟩

/-- Settings that differ in their layout alone show the same diagram as long as nothing is read,
if they space it alike or it is not arranged.  Arranged anew, it stands by the child spacing of
the moment. -/
theorem diagram?_applyAll_setSettings (v : Viewport K) (settings : Settings K)
    (layout : LayoutSettings K) {ops : List (Operation K)}
    (hread : ReadsNothing (v.setSettings settings) ops) :
    let v₁ := v.setSettings settings
    let v₂ := v.setSettings { settings with layout := layout }
    ((layout.SpacedLike settings.layout ∨ ∀ op ∈ ops, ¬ op.Arranges) →
      (v₂.applyAll ops).diagram? = (v₁.applyAll ops).diagram?) ∧
    (∀ d, v.diagram? = some d → d.children ≠ [] →
      ¬ 0 < settings.layout.glideVelocity → ¬ 0 < layout.glideVelocity →
      layout.childSpacing ≠ settings.layout.childSpacing →
      v₂.refit.diagram?.map Diagram.places ≠ v₁.refit.diagram?.map Diagram.places) := by
  intro v₁ v₂
  constructor
  · intro h
    obtain ⟨layout', document, heq⟩ := applyAll_withLayout ops v₁ layout v₂.document hread h
    have hv₂ : v₂ = v₁.withLayout layout v₂.document := rfl
    rw [hv₂, heq]
    rfl
  · intro d hd hchildren hglide hglide' hspacing
    have hv₁ : v₁.diagram? = some d := (diagram?_setSettings v settings).trans hd
    have hv₂ : v₂.diagram? = some d := (diagram?_setSettings v _).trans hd
    exact places_refit_ne hv₂ hv₁ hchildren hglide' hglide hspacing

theorem parse_nested : Expr.parse .standard "(())" = .ok (.list [.list []]) :=
  Expr.parse_eq_ok_iff.mpr ⟨[], Expr.readSource_eq_ok_iff.mpr
    ⟨[], ['(', '(', ')', ')'], rfl, Expr.blank_nil, ⟨_, _, rfl, rfl,
      .list Expr.blank_nil (.close Expr.blank_nil) (.close Expr.blank_nil)⟩, by decide⟩⟩

theorem diagram?_nested :
    let v := ((new ⟨800, 600⟩ .standard).setText (fun _ => (6 : Float)) "(())").2
    v.settings = .standard ∧ ∃ d, v.diagram? = some d ∧ d.children ≠ [] := by
  intro v
  obtain ⟨d, hd, hshape⟩ := exists_built (showing_new ⟨800, 600⟩ .standard)
    (Option.some_ne_none "(())").symm parse_nested fun _ => (6 : Float)
  refine ⟨settings_setText .., d, hd, fun hnil => ?_⟩
  have hchildren := congrArg (fun t : Diagram Float => t.children.length) hshape
  rw [Diagram.shape, Tree.children_map, hnil] at hchildren
  cases hchildren

theorem diagram?_applyAll_setSettings_padding :
    let measure : TextMeasure Float := fun _ => 6
    let v := ((new ⟨800, 600⟩ .standard).setText measure "(())").2
    let wide : Settings Float :=
      { Settings.standard with layout := { LayoutSettings.standard with padding := 20 } }
    let ops : List (Operation Float) := [.setText measure "(", .refit]
    ReadsNothing (v.setSettings .standard) ops ∧
      ((v.setSettings wide).applyAll ops).diagram? =
        ((v.setSettings .standard).applyAll ops).diagram? := by
  intro measure v wide ops
  have hread : ReadsNothing (v.setSettings .standard) ops := by
    refine ⟨?_, nofun, trivial⟩
    rintro _ _ ⟨⟩
    exact parse_open
  exact ⟨hread,
    (diagram?_applyAll_setSettings v .standard wide.layout hread).1 (.inl ⟨rfl, rfl, rfl⟩)⟩

/-- The diagram was built with the standard layout, and nothing is read after it. -/
theorem diagram?_setSettings_respaced :
    let v := ((new ⟨800, 600⟩ .standard).setText (fun _ => (6 : Float)) "(())").2
    let spaced : Settings Float :=
      { Settings.standard with layout := { LayoutSettings.standard with childSpacing := 50 } }
    v.settings.layout = .standard ∧
      ((v.setSettings spaced).applyAll [.refit]).diagram?.map Diagram.places ≠
        ((v.setSettings .standard).applyAll [.refit]).diagram?.map Diagram.places := by
  intro v spaced
  obtain ⟨hsettings, d, hd, hchildren⟩ := diagram?_nested
  have hspaced : (v.setSettings spaced).diagram? = some d :=
    (diagram?_setSettings v spaced).trans hd
  have hsame : (v.setSettings .standard).diagram? = some d :=
    (diagram?_setSettings v .standard).trans hd
  exact ⟨congrArg Settings.layout hsettings,
    places_refit_ne hspaced hsame hchildren (by decide) (by decide) (by decide)⟩

end Viewport

end SExprViewer
