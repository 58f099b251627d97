import SExprViewer.Proofs.Diagram.Enclosure
import SExprViewer.Proofs.Viewport.Origin
import SExprViewer.Proofs.Viewport.Placed
import SExprViewer.Proofs.Viewport.Reading

/-! # What is on the canvas after a fit

A fit chooses the scale so that the diagram is no wider and no higher than the canvas
(`fitScale_le`).  From left to right the diagram then stands in the middle and is on the canvas
as a whole.  From top to bottom it hangs a third of its height above the center of the canvas,
whatever the scale leaves free, so that its rows can end below the canvas or begin above it.
All of it is on the canvas exactly when the edges of `fittedArea` are (`onCanvas_iff`). -/
set_option autoImplicit false

namespace SExprViewer

/-- Settings by which a diagram can be fitted to a canvas: nodes have a size, and do not glide. -/
structure Settings.Fittable {K : Type} [Scalar K] (settings : Settings K) : Prop where
  centered : settings.centered = true
  metrics : settings.layout.Nonnegative
  minNodeWidth : 0 < settings.layout.minNodeWidth
  minNodeHeight : 0 < settings.layout.minNodeHeight
  still : settings.layout.glideVelocity = 0
  maxInitialScale : 0 < settings.maxInitialScale

variable {K : Type} [ExactScalar K]

theorem Settings.standard_fittable : (standard : Settings K).Fittable where
  centered := rfl
  metrics := LayoutSettings.standard_nonnegative
  minNodeWidth := by simp [standard, LayoutSettings.standard, ExactScalar.ofNat_eq_cast]
  minNodeHeight := by simp [standard, LayoutSettings.standard, ExactScalar.ofNat_eq_cast]
  still := by simp [standard, LayoutSettings.standard, ExactScalar.ofNat_eq_cast]
  maxInitialScale := by
    simp only [standard, ExactScalar.decimal_eq]
    positivity

/-! ## The camera -/

theorem Camera.apply_centered {c : Camera K} (hcentered : c.centered = true) (hpan : c.pan = .zero)
    (q : Point K) : c.affine.apply q =
      ⟨c.canvas.width / 2 + c.scale * q.x, c.canvas.height / 2 + c.scale * q.y⟩ := by
  rw [affine, offset, if_pos hcentered, hpan, Affine.mul_apply]
  simp only [Affine.apply, Affine.shift, Affine.scale, Vec.add, Vec.divBy, Vec.scale, Vec.zero,
    Size.toVec, ExactScalar.ofNat_eq_cast, Nat.cast_ofNat, Point.mk.injEq]
  constructor <;> ring

namespace Viewport

open Diagram (Shows boxAt?)

variable {layout : LayoutSettings K}

theorem fitScale_pos {canvas : Size K} {most : K} {root : Node K} (hcanvas : 0 < canvas.width)
    (hcanvas' : 0 < canvas.height) (hmost : 0 < most) (hwidth : 0 < root.treeWidth)
    (hheight : 0 < root.treeHeight) : 0 < fitScale canvas most root :=
  lt_min (lt_min (div_pos hcanvas hwidth) (div_pos hcanvas' hheight)) hmost

theorem fitScale_le (canvas : Size K) (most : K) {root : Node K} (hwidth : 0 < root.treeWidth)
    (hheight : 0 < root.treeHeight) :
    fitScale canvas most root * root.treeWidth ≤ canvas.width ∧
      fitScale canvas most root * root.treeHeight ≤ canvas.height := by
  have hratios : fitScale canvas most root ≤
      min (canvas.width / root.treeWidth) (canvas.height / root.treeHeight) := min_le_left ..
  exact ⟨(le_div_iff₀ hwidth).mp (hratios.trans (min_le_left ..)),
    (le_div_iff₀ hheight).mp (hratios.trans (min_le_right ..))⟩

/-! ## Seen by a centered camera -/

section Centered
variable {c : Camera K} {d : Diagram K} (hd : d.BuiltBy layout) (hcentered : c.centered = true)
  (hpan : c.pan = .zero)
include hd hcentered hpan

theorem shows_of_contains {path : Path} {r : Rect K} (hr : boxAt? (placed layout d) path = some r)
    {q : Point K} (hq : (r.moveBy (rootPlace d.value).toVec).Contains q) :
    Shows c.affine (placed layout d) path
      ⟨c.canvas.width / 2 + c.scale * q.x, c.canvas.height / 2 + c.scale * q.y⟩ := by
  rw [← Camera.apply_centered hcentered hpan]
  exact (shows_placed hd).mpr ⟨r, hr, q, hq, rfl⟩

variable (hmetrics : layout.Nonnegative) (hstill : layout.glideVelocity = 0)
include hmetrics hstill

theorem shows_within (hscale : 0 ≤ c.scale) {path : Path} {p : Point K}
    (hp : Shows c.affine (placed layout d) path p) : (fittedArea c d.value).Contains p := by
  obtain ⟨r, hr, q, ⟨hx₀, hx₁, hy₀, hy₁⟩, rfl⟩ := (shows_placed hd).mp hp
  obtain ⟨hleft, hright, htop, hbottom⟩ := placed_within hd hmetrics hstill hr
  rw [Camera.apply_centered hcentered hpan]
  refine ⟨?_, ?_, ?_, ?_⟩
  · exact add_le_add_right (mul_le_mul_of_nonneg_left (hleft.trans hx₀) hscale) _
  · exact add_le_add_right (mul_le_mul_of_nonneg_left (hx₁.trans hright) hscale) _
  · exact add_le_add_right (mul_le_mul_of_nonneg_left (htop.trans hy₀) hscale) _
  · exact add_le_add_right (mul_le_mul_of_nonneg_left (hy₁.trans hbottom) hscale) _

theorem exists_shows_top :
    ∃ path p, Shows c.affine (placed layout d) path p ∧ p.y = (fittedArea c d.value).y0 := by
  obtain ⟨path, r, q, hr, hq, htop⟩ := exists_placed_top hd hmetrics hstill
  exact ⟨path, _, shows_of_contains hd hcentered hpan hr hq, by rw [fittedArea, ← htop]⟩

theorem exists_shows_bottom :
    ∃ path p, Shows c.affine (placed layout d) path p ∧ p.y = (fittedArea c d.value).y1 := by
  obtain ⟨path, r, q, hr, hq, hbottom⟩ := exists_placed_bottom hd hmetrics hstill
  exact ⟨path, _, shows_of_contains hd hcentered hpan hr hq, by rw [fittedArea, ← hbottom]⟩

end Centered

/-! ## The fit -/

/-- Everything that is drawn of the diagram is on the canvas. -/
def OnCanvas (v : Viewport K) : Prop :=
  ∀ d path p, v.diagram? = some d → Shows v.camera.affine d path p →
    (⟨0, 0, v.camera.canvas.width, v.camera.canvas.height⟩ : Rect K).Contains p

/-- The diagram is in its place, seen at the scale that was chosen for it. -/
structure Fitted (v : Viewport K) (d : Diagram K) : Prop where
  shown : v.diagram? = some d
  positive : 0 < v.camera.scale
  scale : v.camera.scale = fitScale v.camera.canvas v.settings.maxInitialScale d.value
  width : v.camera.scale * d.value.treeWidth ≤ v.camera.canvas.width
  height : v.camera.scale * d.value.treeHeight ≤ v.camera.canvas.height
  within : ∀ path p, Shows v.camera.affine d path p → (fittedArea v.camera d.value).Contains p
  top : ∃ path p, Shows v.camera.affine d path p ∧ p.y = (fittedArea v.camera d.value).y0
  bottom : ∃ path p, Shows v.camera.affine d path p ∧ p.y = (fittedArea v.camera d.value).y1

namespace Fitted

variable {v : Viewport K} {d : Diagram K}

theorem across (h : v.Fitted d) {path : Path} {p : Point K} (hp : Shows v.camera.affine d path p) :
    0 ≤ p.x ∧ p.x ≤ v.camera.canvas.width := by
  obtain ⟨hleft, hright, _, _⟩ := h.within path p hp
  have hwidth := h.width
  simp only [fittedArea, placedArea] at hleft hright
  constructor <;> linarith

theorem onCanvas_iff (h : v.Fitted d) :
    v.OnCanvas ↔ 0 ≤ (fittedArea v.camera d.value).y0 ∧
      (fittedArea v.camera d.value).y1 ≤ v.camera.canvas.height := by
  constructor
  · intro hon
    obtain ⟨path, p, hp, htop⟩ := h.top
    obtain ⟨path', p', hp', hbottom⟩ := h.bottom
    rw [← htop, ← hbottom]
    exact ⟨(hon d path p h.shown hp).2.2.1, (hon d path' p' h.shown hp').2.2.2⟩
  · rintro ⟨htop, hbottom⟩ d' path p hd' hp
    obtain rfl : d = d' := Option.some.inj (h.shown.symm.trans hd')
    obtain ⟨hleft, hright⟩ := h.across hp
    obtain ⟨_, _, habove, hbelow⟩ := h.within path p hp
    exact ⟨hleft, hright, htop.trans habove, hbelow.trans hbottom⟩

/-- As high as the canvas, a diagram is on it when a third of its height is one node. -/
theorem onCanvas_iff_of_full (h : v.Fitted d)
    (hfull : v.camera.scale * d.value.treeHeight = v.camera.canvas.height) :
    v.OnCanvas ↔ d.value.treeHeight = 3 * d.value.height := by
  have hpos := h.positive
  rw [h.onCanvas_iff, ← hfull]
  simp only [fittedArea, placedArea, ← hfull]
  constructor
  · rintro ⟨htop, hbottom⟩
    have htop' : v.camera.scale * (3 * d.value.height) ≤ v.camera.scale * d.value.treeHeight := by
      linarith
    have hbottom' :
        v.camera.scale * d.value.treeHeight ≤ v.camera.scale * (3 * d.value.height) := by
      linarith
    exact le_antisymm (le_of_mul_le_mul_left hbottom' hpos) (le_of_mul_le_mul_left htop' hpos)
  · intro hthird
    rw [hthird]
    constructor <;> linarith

/-- The heights come from how deep the list nests. -/
theorem heights {o : Origin K} (h : v.Fitted d) (hv : Reached v (some o))
    (hmetrics : o.layout.Nonnegative) : d.value.treeHeight =
        o.layout.minNodeHeight + o.layout.childSpacing * ((Expr.list o.expr.content).depth - 1) ∧
      d.value.height = o.layout.minNodeHeight := by
  obtain ⟨d', hshowing, hshape⟩ := hv.exists_diagram
  obtain rfl : d' = d := Option.some.inj (hshowing.diagram?.symm.trans h.shown)
  have hroot := congrArg Tree.value hshape
  rw [Origin.shape, Diagram.value_shape, Diagram.value_shape] at hroot
  constructor
  · exact (congrArg Node.treeHeight hroot).trans
      (Diagram.treeHeight_build hmetrics.childSpacing o.measure o.expr .first)
  · exact (congrArg Node.height hroot).trans
      (Diagram.measured_build hmetrics o.measure o.expr .first).height_eq

end Fitted

theorem fit_of_isScale {v : Viewport K} {d : Diagram K} (hv : v.diagram? = some d)
    (hscale : isScale (fitScale v.camera.canvas v.settings.maxInitialScale d.value) = true) :
    v.fit = v.modifyCamera
      (·.setScale (fitScale v.camera.canvas v.settings.maxInitialScale d.value)) := by
  unfold fit
  rw [hv]
  dsimp only
  rw [if_pos hscale]

/-- A fit brings a diagram that the camera looks at squarely to the place that `Fitted` says. -/
theorem fitted_fit_arrange {v : Viewport K} {d : Diagram K} (hv : v.diagram? = some d)
    (hd : d.BuiltBy v.settings.layout) (hsettings : v.settings.Fittable)
    (hcentered : v.camera.centered = true) (hpan : v.camera.pan = .zero)
    (hwidth : 0 < v.camera.canvas.width) (hheight : 0 < v.camera.canvas.height) :
    v.fit.arrange.Fitted (placed v.settings.layout d) := by
  have hmetrics := hsettings.metrics
  have hstill := hsettings.still
  have hwide := treeWidth_pos hd hmetrics hsettings.minNodeWidth
  have hhigh := treeHeight_pos hd hmetrics hsettings.minNodeHeight
  have hpos := fitScale_pos hwidth hheight hsettings.maxInitialScale hwide hhigh
  obtain ⟨hacross, hdown⟩ := fitScale_le v.camera.canvas v.settings.maxInitialScale hwide hhigh
  have hcamera : v.fit.arrange.camera = v.camera.setScale
      (fitScale v.camera.canvas v.settings.maxInitialScale d.value) := by
    rw [arrange, modifyDiagram_camera, fit_of_isScale hv]
    · rfl
    · rw [isScale, ExactScalar.isFinite_eq_true, Bool.true_and]
      exact decide_eq_true hpos
  have hsame : v.fit.arrange.settings = v.settings := by
    rw [arrange, modifyDiagram_settings, fit_settings]
  have hcentered' : v.fit.arrange.camera.centered = true := hcamera ▸ hcentered
  have hpan' : v.fit.arrange.camera.pan = .zero := hcamera ▸ hpan
  have hcanvas : v.fit.arrange.camera.canvas = v.camera.canvas := by
    rw [hcamera]
    rfl
  have hscale : v.fit.arrange.camera.scale =
      fitScale v.camera.canvas v.settings.maxInitialScale d.value := by
    rw [hcamera]
    rfl
  constructor
  case shown =>
    rw [← fit_settings v]
    exact diagram?_arrange ((fit_diagram? v).trans hv)
  case positive => rwa [hscale]
  case scale =>
    rw [hscale, hcanvas, hsame, value_placed]
    rfl
  case width =>
    rw [hscale, hcanvas, value_placed]
    exact hacross
  case height =>
    rw [hscale, hcanvas, value_placed]
    exact hdown
  case within =>
    intro path p hp
    rw [fittedArea_placed]
    exact shows_within hd hcentered' hpan' hmetrics hstill (hscale ▸ hpos.le) hp
  case top =>
    rw [fittedArea_placed]
    exact exists_shows_top hd hcentered' hpan' hmetrics hstill
  case bottom =>
    rw [fittedArea_placed]
    exact exists_shows_bottom hd hcentered' hpan' hmetrics hstill

/-! ## Reading and fitting anew -/

/-- The viewport with a new diagram on its stage, which is not in its place yet. -/
def loaded (v : Viewport K) (measure : TextMeasure K) (e : Expr) : Viewport K :=
  let (d, next) := Diagram.build measure v.settings.layout e v.nextId
  { v.reset with
    stage := v.reset.stage.add (.diagram d)
    root := some d.value.id
    nextId := next }

theorem display_eq_loaded {v : Viewport K} (h : v.settings.resetViewOnParse = true)
    (measure : TextMeasure K) (e : Expr) :
    v.display measure e = (v.loaded measure e).fit.arrange := by
  unfold display
  dsimp only
  rw [if_pos h]
  rfl

theorem loaded_camera (v : Viewport K) (measure : TextMeasure K) (e : Expr) :
    (v.loaded measure e).camera = v.camera.clear :=
  congrArg Camera.clear (dropDiagram_camera v)

theorem diagram?_loaded {v : Viewport K} {shown : Option (Diagram K)} (h : v.Showing shown)
    (measure : TextMeasure K) (e : Expr) : (v.loaded measure e).diagram? =
      some (Diagram.build measure v.settings.layout e v.nextId).1 := by
  have hshowing : (v.loaded measure e).Showing
      (some (Diagram.build measure v.settings.layout e v.nextId).1) :=
    ⟨rfl, congrArg (· ++ [_]) h.dropDiagram.actors⟩
  exact hshowing.diagram?

theorem canvas_fit_arrange (v : Viewport K) : v.fit.arrange.camera.canvas = v.camera.canvas := by
  rw [arrange, modifyDiagram_camera]
  rcases fit_eq v with hfit | ⟨scale, _, hfit⟩
  · rw [hfit]
  · rw [hfit]
    rfl

theorem canvas_display {v : Viewport K} (h : v.settings.resetViewOnParse = true)
    (measure : TextMeasure K) (e : Expr) :
    (v.display measure e).camera.canvas = v.camera.canvas := by
  rw [display_eq_loaded h, canvas_fit_arrange, loaded_camera]
  rfl

theorem fitted_display {v : Viewport K} {shown : Option (Diagram K)} (h : v.Showing shown)
    (hsettings : v.settings.Fittable) (hreset : v.settings.resetViewOnParse = true)
    (hcentered : v.camera.centered = true) (hwidth : 0 < v.camera.canvas.width)
    (hheight : 0 < v.camera.canvas.height) (measure : TextMeasure K) (e : Expr) :
    (v.display measure e).Fitted (placed v.settings.layout
      (Diagram.build measure v.settings.layout e v.nextId).1) := by
  have hcamera := loaded_camera v measure e
  rw [display_eq_loaded hreset]
  refine fitted_fit_arrange (v := v.loaded measure e) (diagram?_loaded h measure e)
    (Diagram.builtBy_build measure _ e v.nextId) hsettings ?_ ?_ ?_ ?_
  · exact hcamera ▸ hcentered
  · exact hcamera ▸ rfl
  · exact hcamera ▸ hwidth
  · exact hcamera ▸ hheight

theorem fitted_refit {v : Viewport K} {d : Diagram K} (hv : v.ShowsBuilt layout)
    (hd : v.diagram? = some d) (hsettings : v.settings.Fittable)
    (hcentered : v.camera.centered = true) (hwidth : 0 < v.camera.canvas.width)
    (hheight : 0 < v.camera.canvas.height) :
    v.refit.Fitted (placed v.settings.layout d) := by
  have hbuilt : d.BuiltBy v.settings.layout := hv.settings ▸ hv.diagram? hd
  exact fitted_fit_arrange (v := v.modifyCamera Camera.clear) hd hbuilt hsettings hcentered rfl
    hwidth hheight

/-- The view was fitted by a reading, or anew since then, under the same settings. -/
inductive FittedSince (v : Viewport K) : Viewport K → Prop
  | reading : FittedSince v v
  | refit {ops : List (Operation K)} (hops : ∀ op ∈ ops, ∀ settings, op ≠ .setSettings settings)
      (hshown : (v.applyAll ops).diagram?.isSome) : FittedSince v (v.applyAll ops).refit

theorem FittedSince.exists_fitted {v w : Viewport K} {shown : Option (Diagram K)}
    (h : v.Showing shown) (hsettings : v.settings.Fittable)
    (hreset : v.settings.resetViewOnParse = true) (hcentered : v.camera.centered = true)
    {measure : TextMeasure K} {e : Expr} (hw : FittedSince (v.display measure e) w)
    (hwidth : 0 < w.camera.canvas.width) (hheight : 0 < w.camera.canvas.height) :
    ∃ d, w.Fitted d := by
  cases hw with
  | reading =>
      rw [canvas_display hreset] at hwidth hheight
      exact ⟨_, fitted_display h hsettings hreset hcentered hwidth hheight measure e⟩
  | @refit ops hops hshown =>
      obtain ⟨d, hd⟩ := Option.isSome_iff_exists.mp hshown
      have hbuilt := (showsBuilt_invariant _).run ops _ hops (showsBuilt_display h measure e)
      have hsame : ((v.display measure e).applyAll ops).settings = v.settings :=
        (settings_invariant v.settings).run ops _ hops (display_settings v measure e)
      have hsquare : ((v.display measure e).applyAll ops).camera.centered =
          ((v.display measure e).applyAll ops).settings.centered := by
        refine centered_invariant.run ops _ (fun _ _ => trivial) ?_
        rw [centered_display, display_settings, hcentered, hsettings.centered]
      rw [← hsame] at hsettings
      have hcanvas : ((v.display measure e).applyAll ops).refit.camera.canvas =
          ((v.display measure e).applyAll ops).camera.canvas := canvas_fit_arrange _
      rw [hcanvas] at hwidth hheight
      exact ⟨_, fitted_refit hbuilt hd hsettings (hsquare.trans hsettings.centered) hwidth hheight⟩

/-- After a fit the diagram is on the canvas from left to right, and as a whole exactly when the
upper and the lower edge of its area are.  Where the height of the canvas has set the scale, that
takes a diagram which is three times as high as a node. -/
theorem onCanvas_iff_fittedArea {canvas : Size K} {settings : Settings K} {ops : List (Operation K)}
    {v w : Viewport K} (hv : v = (new canvas settings).applyAll ops)
    (hsettings : v.settings.Fittable) (hreset : v.settings.resetViewOnParse = true)
    {measure : TextMeasure K} {text : String}
    (hread : (v.setText measure text).1 = .ok true) (hw : FittedSince (v.setText measure text).2 w)
    (hwidth : 0 < w.camera.canvas.width) (hheight : 0 < w.camera.canvas.height) :
    ∃ d, w.Fitted d ∧
      (∀ path p, Shows w.camera.affine d path p → 0 ≤ p.x ∧ p.x ≤ w.camera.canvas.width) ∧
      (w.OnCanvas ↔ 0 ≤ (fittedArea w.camera d.value).y0 ∧
        (fittedArea w.camera d.value).y1 ≤ w.camera.canvas.height) ∧
      (w.camera.scale * d.value.treeHeight = w.camera.canvas.height →
        (w.OnCanvas ↔ d.value.treeHeight = 3 * d.value.height)) := by
  obtain ⟨shown, hshowing⟩ := exists_showing canvas settings ops
  have hcentered : v.camera.centered = v.settings.centered := by
    rw [hv]
    exact centered_invariant.run ops _ (fun _ _ => trivial) rfl
  rw [← hv] at hshowing
  obtain ⟨d, hd⟩ : ∃ d, w.Fitted d := by
    rcases setText_cases v measure text with ⟨_, heq⟩ | ⟨_, err, _, heq⟩ | ⟨_, e, _, heq⟩
    · rw [heq] at hread
      cases hread
    · rw [heq] at hread
      cases hread
    · rw [heq] at hw
      exact FittedSince.exists_fitted (v := { v with document := ⟨some text, none⟩ })
        (hshowing.of_eq rfl rfl) hsettings hreset (hcentered.trans hsettings.centered) hw hwidth
        hheight
  exact ⟨d, hd, fun _ _ => hd.across, hd.onCanvas_iff, hd.onCanvas_iff_of_full⟩

theorem parse_rows : Expr.parse .standard "(()(()'a'))" =
    .ok (.list [.list [], .list [.list [], .atom (.text "a")]]) :=
  Expr.parse_eq_ok_iff.mpr ⟨[], Expr.readSource_eq_ok_iff.mpr
    ⟨[], ['(', '(', ')', '(', '(', ')', '\'', 'a', '\'', ')', ')'], rfl, Expr.blank_nil,
      ⟨_, _, rfl, rfl, .list Expr.blank_nil (.close Expr.blank_nil)
        (.list Expr.blank_nil
          (.list Expr.blank_nil (.close Expr.blank_nil)
            (.text Expr.blank_nil (t := ['a']) rfl (by decide) (.close Expr.blank_nil)))
          (.close Expr.blank_nil))⟩, by decide⟩⟩

/-- Two lists in a list, one of them with a list and a label in it, are fitted anew to a canvas that
has been made lower, after they were panned, magnified, run and pointed at. -/
theorem onCanvas_iff_fittedArea_refit :
    let measure : TextMeasure ℝ := fun _ => 6
    let v : Viewport ℝ := new ⟨800, 600⟩ .standard
    let ops : List (Operation ℝ) := [.panScaled ⟨10, 0⟩, .zoom 2, .startLoop 1 0, .frame 1 16,
      .hover ⟨400, 300⟩, .resize ⟨800, 240⟩]
    let read := v.setText measure "(()(()'a'))"
    let w := (read.2.applyAll ops).refit
    v.settings.Fittable ∧ v.settings.resetViewOnParse = true ∧ read.1 = .ok true ∧
      FittedSince read.2 w ∧ 0 < w.camera.canvas.width ∧ 0 < w.camera.canvas.height ∧
      w.OnCanvas := by
  intro measure v ops read w
  have hreached : Reached (read.2.applyAll ops)
      (some ⟨measure, .standard, .list [.list [], .list [.list [], .atom (.text "a")]]⟩) :=
    ((Reached.new v.camera.canvas .standard).setText nofun parse_rows measure).applyAll ops
      (by simp [ops, Operation.LeavesReading])
  have hread : read.1 = .ok true :=
    congrArg Prod.fst (setText_of_parse (v := v) nofun parse_rows measure)
  have hw : FittedSince read.2 w := by
    obtain ⟨d, hshowing, -⟩ := hreached.exists_diagram
    exact .refit (by simp [ops]) (hshowing.diagram? ▸ rfl)
  have hcanvas : w.camera.canvas = ⟨800, 240⟩ := canvas_fit_arrange _
  have hwidth : 0 < w.camera.canvas.width := by rw [hcanvas]; norm_num
  have hheight : 0 < w.camera.canvas.height := by rw [hcanvas]; norm_num
  have hv : v = (new ⟨800, 600⟩ .standard).applyAll [] := rfl
  obtain ⟨d, hd, -, hiff, -⟩ := onCanvas_iff_fittedArea hv Settings.standard_fittable rfl hread hw
    hwidth hheight
  refine ⟨Settings.standard_fittable, rfl, hread, hw, hwidth, hheight, hiff.mpr ?_⟩
  obtain ⟨hhigh, hown⟩ := hd.heights (hreached.apply .refit) LayoutSettings.standard_nonnegative
  replace hhigh : d.value.treeHeight = 100 := hhigh.trans <| by
    change ((25 : ℕ) : ℝ) + (375 : ℕ) / 10 ^ 1 * ((3 : ℕ) - 1) = 100
    norm_num
  replace hown : d.value.height = 25 := hown.trans <| by
    change ((25 : ℕ) : ℝ) = 25
    norm_num
  have hsettings : w.settings = .standard := (settings_invariant .standard).refit <|
    (settings_invariant .standard).run ops _ (by simp [ops]) (settings_setText v measure _)
  have hscale : w.camera.scale ≤ 3 / 2 := calc
    w.camera.scale = fitScale w.camera.canvas w.settings.maxInitialScale d.value := hd.scale
    _ ≤ w.settings.maxInitialScale := min_le_right ..
    _ = ((15 : ℕ) / 10 ^ 1 : ℝ) := congrArg Settings.maxInitialScale hsettings
    _ = 3 / 2 := by norm_num
  simp only [fittedArea, placedArea, hhigh, hown, hcanvas]
  constructor <;> linarith

/-- The empty list, which is one node. -/
theorem fitted_empty (canvas : Size ℝ) (hwidth : 0 < canvas.width) (hheight : 0 < canvas.height) :
    let v := (new canvas Settings.standard).setText (fun _ => 6) "()"
    v.1 = .ok true ∧ ∃ d, v.2.Fitted d ∧ d.value.treeHeight = 25 ∧ d.value.height = 25 ∧
      v.2.camera.canvas = canvas ∧
      v.2.camera.scale = min (min (canvas.width / 25) (canvas.height / 25)) (3 / 2) := by
  intro v
  have hset : v = (.ok true,
      { new canvas Settings.standard with document := ⟨some "()", none⟩ }.display (fun _ => 6)
        (.list [])) := setText_of_parse (Option.some_ne_none _).symm parse_empty _
  let d := placed LayoutSettings.standard
    (Diagram.build (fun _ => (6 : ℝ)) .standard (.list []) .first).1
  have hfitted : v.2.Fitted d := by
    rw [hset]
    exact fitted_display (v := { new canvas Settings.standard with document := ⟨some "()", none⟩ })
      ((showing_new canvas .standard).of_eq rfl rfl) Settings.standard_fittable rfl rfl hwidth
      hheight (fun _ => 6) (.list [])
  have hcanvas : v.2.camera.canvas = canvas := by
    rw [hset]
    exact canvas_display (v := { new canvas Settings.standard with document := ⟨some "()", none⟩ })
      rfl (fun _ => 6) (.list [])
  have hmost : v.2.settings.maxInitialScale = 3 / 2 := by
    rw [show v.2.settings = .standard from settings_setText ..]
    change ((15 : ℕ) / 10 ^ 1 : ℝ) = 3 / 2
    norm_num
  have hwide : d.value.treeWidth = 25 := by
    change max (max ((25 : ℕ) : ℝ) (0 + (10 : ℕ))) 0 = 25
    norm_num
  have hhigh : d.value.treeHeight = 25 := by
    change ((25 : ℕ) : ℝ) = 25
    norm_num
  refine ⟨by rw [hset], d, hfitted, hhigh, hhigh, hcanvas, ?_⟩
  rw [hfitted.scale, hcanvas, hmost, fitScale, hwide, hhigh]

/-- A canvas that is wide enough, but hardly higher than the node. -/
theorem not_onCanvas_empty :
    let v := (new ⟨800, 30⟩ Settings.standard).setText (fun _ => (6 : ℝ)) "()"
    v.1 = .ok true ∧ ¬ v.2.OnCanvas := by
  intro v
  obtain ⟨hread, d, hd, hhigh, hown, hcanvas, hscale⟩ :=
    fitted_empty ⟨800, 30⟩ (by norm_num) (by norm_num)
  refine ⟨hread, fun hon => ?_⟩
  replace hd : v.2.Fitted d := hd
  replace hcanvas : v.2.camera.canvas = ⟨800, 30⟩ := hcanvas
  replace hscale : v.2.camera.scale = 6 / 5 := hscale.trans (by norm_num)
  have htop := (hd.onCanvas_iff.mp hon).1
  simp only [fittedArea, placedArea, hhigh, hown, hcanvas, hscale] at htop
  norm_num at htop

end Viewport

end SExprViewer
