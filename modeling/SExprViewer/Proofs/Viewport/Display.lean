import SExprViewer.Proofs.Diagram.Nodes
import SExprViewer.Viewport.Basic

/-! # What a viewport shows

A viewport that is only worked through its own operations shows one diagram, which is then all
there is on the stage, or nothing (`Showing`).  Each operation is described by what it does to
that diagram. -/
set_option autoImplicit false

namespace SExprViewer

theorem Stage.modifyFirst_singleton {α : Type} {p : α → Bool} (f : α → α) {a : α}
    (h : p a = true) : Stage.modifyFirst p f [a] = [f a] := by
  simp [Stage.modifyFirst, h]

theorem Stage.diagram?_modifyDiagram {K : Type} {s : Stage K} {id : ObjectId} {d : Diagram K}
    (h : s.diagram? id = some d) {f : Diagram K → Diagram K}
    (hid : ∀ d, (f d).value.id = d.value.id) : (s.modifyDiagram id f).diagram? id = some (f d) := by
  obtain ⟨actors, camera, theme, time, running, pending⟩ := s
  simp only [diagram?, actor?, modifyDiagram] at h ⊢
  induction actors with
  | nil => cases h
  | cons a rest ih =>
      by_cases ha : a.id = id
      · rw [List.find?_cons_of_pos (by simpa using ha)] at h
        cases a with
        | marker => cases h
        | diagram d' =>
            cases h
            have hfa : (Actor.diagram (f d)).id = id := (hid d).trans ha
            simp [modifyFirst, ha, Actor.modifyDiagram, hfa, Actor.diagram?]
      · rw [List.find?_cons_of_neg (by simpa using ha)] at h
        simp [modifyFirst, ha, ih h]

namespace Viewport

section Basic
variable {K : Type}

/-- The stage holds the shown diagram and nothing else, and the viewport knows it. -/
structure Showing (v : Viewport K) (shown : Option (Diagram K)) : Prop where
  root : v.root = shown.map fun d => d.value.id
  actors : v.stage.actors = (shown.map Actor.diagram).toList

theorem Showing.diagram? {v : Viewport K} {shown : Option (Diagram K)} (h : v.Showing shown) :
    v.diagram? = shown := by
  rw [Viewport.diagram?, h.root]
  cases shown with
  | none => rfl
  | some d => simp [Stage.diagram?, Stage.actor?, h.actors, Actor.id, Actor.diagram?]

theorem Showing.of_eq {v v' : Viewport K} {shown : Option (Diagram K)} (h : v.Showing shown)
    (hroot : v'.root = v.root) (hactors : v'.stage.actors = v.stage.actors) :
    v'.Showing shown := ⟨hroot.trans h.root, hactors.trans h.actors⟩

/-! ## Changes of the shown diagram -/

theorem map_remark {β : Type} {f : Node K → β} {assign : Bool → Path → Diagram K → Diagram K}
    (hf : ∀ b p d, (assign b p d).map f = d.map f)
    (before after : Option Path) (d : Diagram K) :
    (remark assign before after d).map f = d.map f := by
  cases before <;> cases after <;> simp [remark, hf]

section Fields
variable (v : Viewport K) (f : Diagram K → Diagram K)

@[simp] theorem modifyDiagram_root : (v.modifyDiagram f).root = v.root := by
  unfold modifyDiagram; split <;> rfl

@[simp] theorem modifyDiagram_settings : (v.modifyDiagram f).settings = v.settings := by
  unfold modifyDiagram; split <;> rfl

@[simp] theorem modifyDiagram_document : (v.modifyDiagram f).document = v.document := by
  unfold modifyDiagram; split <;> rfl

@[simp] theorem modifyDiagram_active : (v.modifyDiagram f).active = v.active := by
  unfold modifyDiagram; split <;> rfl

@[simp] theorem modifyDiagram_selected : (v.modifyDiagram f).selected = v.selected := by
  unfold modifyDiagram; split <;> rfl

@[simp] theorem modifyDiagram_camera : (v.modifyDiagram f).camera = v.camera := by
  unfold modifyDiagram; split <;> rfl

@[simp] theorem modifyDiagram_dragging : (v.modifyDiagram f).dragging = v.dragging := by
  unfold modifyDiagram; split <;> rfl

end Fields

theorem diagram?_modifyDiagram {v : Viewport K} {d : Diagram K} (h : v.diagram? = some d)
    {f : Diagram K → Diagram K} (hid : ∀ d, (f d).value.id = d.value.id) :
    (v.modifyDiagram f).diagram? = some (f d) := by
  obtain ⟨id, hroot, hd⟩ := Option.bind_eq_some_iff.mp h
  unfold modifyDiagram diagram?
  rw [hroot]
  exact Stage.diagram?_modifyDiagram hd hid

theorem Showing.modifyDiagram {v : Viewport K} {shown : Option (Diagram K)}
    {f : Diagram K → Diagram K} (h : v.Showing shown)
    (hmap : ∀ d, (f d).map Node.id = d.map Node.id) :
    (v.modifyDiagram f).Showing (shown.map f) := by
  have hid : ∀ d, (f d).value.id = d.value.id := by
    intro d
    rw [← Tree.value_map Node.id, hmap, Tree.value_map]
  refine ⟨?_, ?_⟩
  · rw [modifyDiagram_root, h.root, Option.map_map]
    congr 1
    funext d
    exact (hid d).symm
  · unfold Viewport.modifyDiagram
    rw [h.root]
    cases shown with
    | none => exact h.actors
    | some d =>
        simp only [Option.map_some, Option.toList_some, Stage.modifyDiagram, h.actors]
        exact Stage.modifyFirst_singleton _ (by simp [Actor.id])

theorem dropDiagram_camera (v : Viewport K) : v.dropDiagram.camera = v.camera := by
  unfold dropDiagram camera
  dsimp only
  split <;> rfl

theorem Showing.dropDiagram {v : Viewport K} {shown : Option (Diagram K)} (h : v.Showing shown) :
    v.dropDiagram.Showing none := by
  refine ⟨rfl, ?_⟩
  unfold Viewport.dropDiagram
  rw [h.root]
  cases shown with
  | none => exact h.actors
  | some d => simp [Stage.remove, h.actors, Actor.id]

end Basic

variable {K : Type} [Scalar K]

theorem showing_new (canvas : Size K) (settings : Settings K) :
    (new canvas settings).Showing none := ⟨rfl, rfl⟩

/-- The root in its place and everything else in its slot. -/
def placed (layout : LayoutSettings K) (d : Diagram K) : Diagram K :=
  Diagram.arrange layout
    (d.modifyRoot fun n => { n with placement := n.placement.moveTo (rootPlace n) })

/-- Placing shows in nothing that a move and a glide leave alone. -/
theorem map_placed {β : Type} {f : Node K → β} (layout : LayoutSettings K)
    (hmove : ∀ (n : Node K) place, f { n with placement := n.placement.moveTo place } = f n)
    (hglide : ∀ (n : Node K) place velocity,
      f { n with placement := n.placement.glideTo place velocity } = f n)
    (d : Diagram K) : (placed layout d).map f = d.map f := by
  rw [placed, Diagram.map_arrange hglide]
  obtain ⟨n, cs⟩ := d
  rw [Tree.modifyRoot, Tree.map_node, Tree.map_node, hmove]

theorem diagram?_arrange {v : Viewport K} {d : Diagram K} (h : v.diagram? = some d) :
    v.arrange.diagram? = some (placed v.settings.layout d) := by
  refine diagram?_modifyDiagram h fun d => ?_
  change (placed v.settings.layout d).value.id = d.value.id
  rw [← Tree.value_map Node.id, map_placed _ (fun _ _ => rfl) (fun _ _ _ => rfl), Tree.value_map]

theorem Showing.arrange {v : Viewport K} {shown : Option (Diagram K)} (h : v.Showing shown) :
    v.arrange.Showing (shown.map (placed v.settings.layout)) :=
  h.modifyDiagram (map_placed v.settings.layout (fun _ _ => rfl) (fun _ _ _ => rfl))

theorem Showing.step {v : Viewport K} {shown : Option (Diagram K)} (h : v.Showing shown)
    (elapsed : K) : { v with stage := v.stage.step elapsed }.Showing
      (shown.map (Diagram.step · elapsed)) := by
  refine ⟨?_, ?_⟩
  · rw [Option.map_map]
    refine h.root.trans (congrArg (Option.map · shown) ?_)
    funext d
    change d.value.id = (d.step elapsed).value.id
    rw [Diagram.step, Diagram.mapPlacement, Tree.value_map]
  · change v.stage.actors.map (Actor.step elapsed) = _
    rw [h.actors]
    cases shown <;> rfl

/-! ## A new diagram -/

theorem fit_eq (v : Viewport K) :
    v.fit = v ∨ ∃ scale, isScale scale = true ∧ v.fit = v.modifyCamera (·.setScale scale) := by
  unfold fit
  split
  · exact .inl rfl
  · dsimp only
    split
    · rename_i hscale
      exact .inr ⟨_, hscale, rfl⟩
    · exact .inl rfl

theorem fit_settings (v : Viewport K) : v.fit.settings = v.settings := by
  rcases fit_eq v with hfit | ⟨scale, _, hfit⟩
  · rw [hfit]
  · rw [hfit]
    rfl

theorem fit_document (v : Viewport K) : v.fit.document = v.document := by
  rcases fit_eq v with hfit | ⟨scale, _, hfit⟩
  · rw [hfit]
  · rw [hfit]
    rfl

theorem fit_diagram? (v : Viewport K) : v.fit.diagram? = v.diagram? := by
  rcases fit_eq v with hfit | ⟨scale, _, hfit⟩
  · rw [hfit]
  · rw [hfit]
    rfl

theorem display_settings (v : Viewport K) (measure : TextMeasure K) (e : Expr) :
    (v.display measure e).settings = v.settings := by
  unfold display
  dsimp only
  rw [arrange, modifyDiagram_settings]
  split
  · rw [fit_settings]
    rfl
  · rfl

theorem display_document (v : Viewport K) (measure : TextMeasure K) (e : Expr) :
    (v.display measure e).document = v.document := by
  unfold display
  dsimp only
  rw [arrange, modifyDiagram_document]
  split
  · rw [fit_document]
    rfl
  · rfl

theorem camera_arrange (v : Viewport K) : v.arrange.camera = v.camera := modifyDiagram_camera ..

/-- The camera stays as it is, or is cleared and then given the scale of a fit if there is one. -/
theorem camera_display (v : Viewport K) (measure : TextMeasure K) (e : Expr) :
    (v.display measure e).camera = v.camera ∨ (v.display measure e).camera = v.camera.clear ∨
      ∃ scale, isScale scale = true ∧
        (v.display measure e).camera = v.camera.clear.setScale scale := by
  have hdrop := dropDiagram_camera v
  unfold display
  dsimp only
  rw [camera_arrange]
  split
  · right
    generalize hput : ({ v.reset with stage := _, root := _, nextId := _ } : Viewport K) = w
    have hw : w.camera = v.camera.clear := by
      rw [← hput]
      exact congrArg Camera.clear hdrop
    rcases fit_eq w with hfit | ⟨scale, hscale, hfit⟩
    · rw [hfit]
      exact .inl hw
    · rw [hfit, ← hw]
      exact .inr ⟨scale, hscale, rfl⟩
  · exact .inl hdrop

/-- What a viewport is like when it has just put up the diagram of an expression. -/
structure Displays (v v' : Viewport K) (d : Diagram K) : Prop where
  showing : v'.Showing (some d)
  active : v'.active = none
  selected : v'.selected = none
  document : v'.document = v.document
  settings : v'.settings = v.settings

theorem Displays.fit {v v' : Viewport K} {d : Diagram K} (h : Displays v v' d) :
    Displays v v'.fit d := by
  rcases fit_eq v' with hfit | ⟨scale, _, hfit⟩
  · rwa [hfit]
  · rw [hfit]
    exact ⟨h.showing.of_eq rfl rfl, h.active, h.selected, h.document, h.settings⟩

theorem Displays.arrange {v v' : Viewport K} {d : Diagram K} (h : Displays v v' d) :
    Displays v v'.arrange (placed v.settings.layout d) := by
  have hshowing := h.showing.arrange
  rw [h.settings] at hshowing
  exact ⟨hshowing, (modifyDiagram_active ..).trans h.active,
    (modifyDiagram_selected ..).trans h.selected, (modifyDiagram_document ..).trans h.document,
    (modifyDiagram_settings ..).trans h.settings⟩

theorem displays_display {v : Viewport K} {shown : Option (Diagram K)} (h : v.Showing shown)
    (measure : TextMeasure K) (e : Expr) : Displays v (v.display measure e)
      (placed v.settings.layout (Diagram.build measure v.settings.layout e v.nextId).1) := by
  have hactors := h.dropDiagram.actors
  unfold display
  dsimp only
  refine Displays.arrange ?_
  split
  · refine Displays.fit ⟨⟨rfl, ?_⟩, rfl, rfl, rfl, rfl⟩
    exact congrArg (· ++ [_]) hactors
  · refine ⟨⟨rfl, ?_⟩, rfl, rfl, rfl, rfl⟩
    exact congrArg (· ++ [_]) hactors

theorem diagram?_setSettings (v : Viewport K) (settings : Settings K) :
    (v.setSettings settings).diagram? = v.diagram? := rfl

theorem setText_cases (v : Viewport K) (measure : TextMeasure K) (text : String) :
    (v.document.text = some text ∧ v.setText measure text = (.ok false, v)) ∨
    (v.document.text ≠ some text ∧ ∃ err, Expr.parse v.settings.parse text = .error err ∧
      v.setText measure text = (.error err, { v with document := ⟨some text, some err⟩ })) ∨
    (v.document.text ≠ some text ∧ ∃ e, Expr.parse v.settings.parse text = .ok e ∧
      v.setText measure text =
        (.ok true, { v with document := ⟨some text, none⟩ }.display measure e)) := by
  unfold setText Document.update
  by_cases hsame : v.document.text = some text
  · exact .inl ⟨hsame, by rw [if_pos hsame]⟩
  · right
    rw [if_neg hsame]
    cases hparse : Expr.parse v.settings.parse text with
    | error err => exact .inl ⟨hsame, err, rfl, rfl⟩
    | ok e => exact .inr ⟨hsame, e, rfl, rfl⟩

theorem settings_setText (v : Viewport K) (measure : TextMeasure K) (text : String) :
    (v.setText measure text).2.settings = v.settings := by
  rcases setText_cases v measure text with ⟨_, heq⟩ | ⟨_, err, _, heq⟩ | ⟨_, e, _, heq⟩
  · rw [heq]
  · rw [heq]
  · rw [heq, display_settings]

theorem setText_of_remembered {v : Viewport K} {text : String}
    (h : v.document.text = some text) (measure : TextMeasure K) :
    v.setText measure text = (.ok false, v) := by
  rcases setText_cases v measure text with ⟨_, heq⟩ | ⟨hnew, _⟩ | ⟨hnew, _⟩
  · exact heq
  · exact absurd h hnew
  · exact absurd h hnew

theorem setText_of_parse {v : Viewport K} {text : String} {e : Expr}
    (hnew : v.document.text ≠ some text) (hparse : Expr.parse v.settings.parse text = .ok e)
    (measure : TextMeasure K) : v.setText measure text =
      (.ok true, { v with document := ⟨some text, none⟩ }.display measure e) := by
  rcases setText_cases v measure text with ⟨htext, _⟩ | ⟨_, err, herr, _⟩ | ⟨_, e', he, heq⟩
  · exact absurd htext hnew
  · cases hparse.symm.trans herr
  · cases hparse.symm.trans he
    exact heq

/-! ## The pointer -/

theorem hit?_eq {v : Viewport K} {d : Diagram K} (h : v.diagram? = some d) (p : Point K) :
    v.hit? p = Diagram.hit? (v.camera.toWorld p) d := by
  rw [hit?, h, Option.bind_some]

theorem hover_cases (v : Viewport K) (p : Point K) :
    ((v.diagram? = none ∨ v.active = v.hit? p) ∧ v.hover p = (false, v)) ∨
    (v.active ≠ v.hit? p ∧ v.hover p =
      (true, { v with active := v.hit? p }.modifyDiagram
        (remark Diagram.setActive v.active (v.hit? p)))) := by
  unfold hover
  dsimp only
  split
  · rename_i h
    exact .inl ⟨h.imp Option.isNone_iff_eq_none.mp Eq.symm, rfl⟩
  · rename_i h
    exact .inr ⟨fun heq => h (.inr heq.symm), rfl⟩

theorem click_cases (v : Viewport K) (p : Point K) :
    ((v.diagram? = none ∨ v.selected = v.hit? p) ∧ v.click p = (false, v)) ∨
    (v.selected ≠ v.hit? p ∧ v.click p =
      (true, { v with selected := v.hit? p }.modifyDiagram
        (remark Diagram.setSelected v.selected (v.hit? p)))) := by
  unfold click
  dsimp only
  split
  · rename_i h
    exact .inl ⟨h.imp Option.isNone_iff_eq_none.mp Eq.symm, rfl⟩
  · rename_i h
    exact .inr ⟨fun heq => h (.inr heq.symm), rfl⟩

theorem active_hover {v : Viewport K} {d : Diagram K} (h : v.diagram? = some d) (p : Point K) :
    (v.hover p).2.active = v.hit? p := by
  rcases hover_cases v p with ⟨hnone | hsame, heq⟩ | ⟨_, heq⟩
  · rw [h] at hnone
    cases hnone
  · rw [heq]
    exact hsame
  · rw [heq, modifyDiagram_active]

theorem selected_click {v : Viewport K} {d : Diagram K} (h : v.diagram? = some d) (p : Point K) :
    (v.click p).2.selected = v.hit? p := by
  rcases click_cases v p with ⟨hnone | hsame, heq⟩ | ⟨_, heq⟩
  · rw [h] at hnone
    cases hnone
  · rw [heq]
    exact hsame
  · rw [heq, modifyDiagram_selected]

section Pointer
variable (v : Viewport K) (p : Point K)

theorem camera_hover : (v.hover p).2.camera = v.camera := by
  rcases hover_cases v p with ⟨_, heq⟩ | ⟨_, heq⟩
  · rw [heq]
  · rw [heq, modifyDiagram_camera]
    rfl

theorem settings_hover : (v.hover p).2.settings = v.settings := by
  rcases hover_cases v p with ⟨_, heq⟩ | ⟨_, heq⟩
  · rw [heq]
  · rw [heq, modifyDiagram_settings]

theorem document_hover : (v.hover p).2.document = v.document := by
  rcases hover_cases v p with ⟨_, heq⟩ | ⟨_, heq⟩
  · rw [heq]
  · rw [heq, modifyDiagram_document]

theorem camera_click : (v.click p).2.camera = v.camera := by
  rcases click_cases v p with ⟨_, heq⟩ | ⟨_, heq⟩
  · rw [heq]
  · rw [heq, modifyDiagram_camera]
    rfl

theorem settings_click : (v.click p).2.settings = v.settings := by
  rcases click_cases v p with ⟨_, heq⟩ | ⟨_, heq⟩
  · rw [heq]
  · rw [heq, modifyDiagram_settings]

theorem document_click : (v.click p).2.document = v.document := by
  rcases click_cases v p with ⟨_, heq⟩ | ⟨_, heq⟩
  · rw [heq]
  · rw [heq, modifyDiagram_document]

end Pointer

theorem dragging_hover (v : Viewport K) (p : Point K) : (v.hover p).2.dragging = v.dragging := by
  rcases hover_cases v p with ⟨_, heq⟩ | ⟨_, heq⟩
  · rw [heq]
  · rw [heq, modifyDiagram_dragging]

theorem handle_pointerMove (v : Viewport K) (place : Point K) (movement : Vec K) :
    (v.handle (.pointerMove place movement)).2 =
      if v.dragging then (v.hover place).2.panScaled movement else (v.hover place).2 := by
  rw [← dragging_hover v place]
  unfold handle
  dsimp only
  split <;> rfl

theorem camera_pointerMove (v : Viewport K) (place : Point K) (movement : Vec K) :
    (v.handle (.pointerMove place movement)).2.camera =
      if v.dragging then v.camera.panScaled movement else v.camera := by
  rw [handle_pointerMove, ← camera_hover v place]
  split <;> rfl

end Viewport

end SExprViewer
