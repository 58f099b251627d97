import Mathlib.Logic.Relation
import SExprViewer.Proofs.Expr.Grammar
import SExprViewer.Proofs.Viewport.Shown

/-! # The remembered text and the shown diagram

A text that is remembered is not read again.  Whatever is shown has the shape that this text
gives (`memorable_shape`), and in runs without a reset something is shown (`memorable_isSome`).
A reset takes the diagram away and leaves the text, so that the same text brings nothing back
(`setText_reset`); this is the one way in which nothing is shown for a text that can be read
(`shape_setText`). -/
set_option autoImplicit false

namespace SExprViewer.Viewport

variable {K : Type} [Scalar K]

/-! ## What the remembered text says about the diagram -/

/-- While a text is remembered that can be read, `Q` holds of the layout, the expression of the
text and the shape of what is shown. -/
def Remembers (Q : LayoutSettings K → Expr → Option (Diagram K) → Prop) (v : Viewport K) : Prop :=
  ∃ shown, v.Showing shown ∧ ∀ text e, v.document.text = some text →
    Expr.parse v.settings.parse text = .ok e → Q v.settings.layout e (shown.map Diagram.shape)

/-- What a viewport can remember, being used in the ways that are allowed. -/
structure Memorable (allowed : Operation K → Prop)
    (Q : LayoutSettings K → Expr → Option (Diagram K) → Prop) : Prop where
  built : ∀ measure text, allowed (.setText measure text) → ∀ layout e next,
    Q layout e (some (Diagram.build measure layout e next).1.shape)
  reset : allowed .reset → ∀ layout e, Q layout e none
  setLayout : ∀ layout layout' e shape, (layout' == layout) = true → Q layout e shape →
    Q layout' e shape

section Invariant
variable {allowed : Operation K → Prop} {Q : LayoutSettings K → Expr → Option (Diagram K) → Prop}
  {v v' : Viewport K}

theorem Remembers.keep (h : v.Remembers Q)
    (hshown : ∀ shape, v.ShowsAs Node.shape shape → v'.ShowsAs Node.shape shape)
    (hdocument : v'.document = v.document) (hsettings : v'.settings = v.settings) :
    v'.Remembers Q := by
  obtain ⟨shown, hshowing, hremembers⟩ := h
  obtain ⟨shown', hshowing', hshape⟩ := hshown _ ⟨shown, hshowing, rfl⟩
  refine ⟨shown', hshowing', ?_⟩
  change shown'.map Diagram.shape = shown.map Diagram.shape at hshape
  rw [hdocument, hsettings, hshape]
  exact hremembers

theorem Memorable.setText (hQ : Memorable allowed Q) {measure : TextMeasure K} {text : String}
    (hallowed : allowed (.setText measure text)) (h : v.Remembers Q) :
    (v.setText measure text).2.Remembers Q := by
  rcases setText_cases v measure text with ⟨_, heq⟩ | ⟨_, err, hparse, heq⟩ | ⟨_, e, hparse, heq⟩
  · rw [heq]
    exact h
  · rw [heq]
    obtain ⟨shown, hshowing, _⟩ := h
    refine ⟨shown, hshowing.of_eq rfl rfl, ?_⟩
    intro text' e htext he
    cases htext
    cases hparse.symm.trans he
  · rw [heq]
    obtain ⟨shown, hshowing, _⟩ := h
    have hdisplays := displays_display (v := { v with document := ⟨some text, none⟩ })
      (hshowing.of_eq rfl rfl) measure e
    refine ⟨_, hdisplays.showing, ?_⟩
    rw [hdisplays.document, hdisplays.settings]
    intro text' e' htext he
    cases htext
    cases hparse.symm.trans he
    rw [Option.map_some, Diagram.shape, map_placed _ (fun _ _ => rfl) (fun _ _ _ => rfl)]
    exact hQ.built measure text hallowed v.settings.layout e v.nextId

theorem Memorable.setSettings (hQ : Memorable allowed Q) (settings : Settings K)
    (h : v.Remembers Q) : (v.setSettings settings).Remembers Q := by
  obtain ⟨shown, hshowing, hremembers⟩ := h
  refine ⟨shown, hshowing.of_eq rfl rfl, ?_⟩
  intro text e htext hparse
  unfold Viewport.setSettings at htext
  dsimp only at htext
  split at htext
  · cases htext
  · -- the text is still there: neither parsing nor layout has been told from the one before
    rename_i hfresh
    obtain ⟨hsame, hlayout⟩ := not_or.mp hfresh
    refine hQ.setLayout _ _ e _ (Bool.not_eq_false _ ▸ hlayout) (hremembers text e htext ?_)
    rw [← Decidable.not_not.mp hsame]
    exact hparse

theorem Memorable.invariant (hQ : Memorable allowed Q) : Invariant allowed (Remembers Q) where
  camera v f _ h := h.keep (fun _ h => h.of_eq rfl rfl) rfl rfl
  status v _ _ _ h := h.keep (fun _ h => h.of_eq rfl rfl) rfl rfl
  loop v _ _ _ h := h.keep (fun _ h => h.of_eq rfl rfl) rfl rfl
  step v elapsed h := h.keep (fun _ h => h.step Node.lasting_shape elapsed) rfl rfl
  arrange v h := h.keep (fun _ h => h.arrange Node.lasting_shape) (modifyDiagram_document ..)
    (modifyDiagram_settings ..)
  hover v p h := h.keep (fun _ h => h.hover Node.lasting_shape p) (document_hover v p)
    (settings_hover v p)
  click v p h := h.keep (fun _ h => h.click Node.lasting_shape p) (document_click v p)
    (settings_click v p)
  reset v hallowed h := by
    obtain ⟨shown, hshowing, _⟩ := h
    exact ⟨none, hshowing.dropDiagram.of_eq rfl rfl, fun text e _ _ => hQ.reset hallowed _ e⟩
  setText v measure text hallowed h := hQ.setText hallowed h
  setSettings v settings _ h := hQ.setSettings settings h

theorem Memorable.applyAll (hQ : Memorable allowed Q) (canvas : Size K) (settings : Settings K)
    {ops : List (Operation K)} (hops : ∀ op ∈ ops, allowed op) :
    ((new canvas settings).applyAll ops).Remembers Q :=
  hQ.invariant.run ops _ hops ⟨none, showing_new canvas settings, fun _ _ htext => nomatch htext⟩

end Invariant

/-! ## Runs with one measure -/

def Operation.MeasuresBy (measure : TextMeasure K) : Operation K → Prop
  | .setText measure' _ => measure' = measure
  | _ => True

/-- Layouts that comparing them, one with the next, has not told apart. -/
def Alike : LayoutSettings K → LayoutSettings K → Prop :=
  Relation.ReflTransGen fun layout layout' => (layout' == layout) = true

/-- They are the same where numbers are equal only to themselves. -/
theorem Alike.eq [LawfulBEq K] {layout layout' : LayoutSettings K} (h : Alike layout layout') :
    layout = layout' := by
  have hsame : ∀ a b : LayoutSettings K, (b == a) = true → a = b := by
    rintro ⟨⟩ ⟨⟩ hbeq
    change instBEqLayoutSettings.beq _ _ = true at hbeq
    simp only [instBEqLayoutSettings.beq, Bool.and_eq_true, beq_iff_eq] at hbeq
    simp [hbeq]
  induction h with
  | refl => rfl
  | tail _ hnext ih => exact ih.trans (hsame _ _ hnext)

theorem memorable_shape (measure : TextMeasure K) :
    Memorable (Operation.MeasuresBy measure) fun layout e shape => ∀ s, shape = some s →
      ∃ layout', Alike layout' layout ∧
        s = (Diagram.build measure layout' e .first).1.shape where
  built measure' text hmeasure layout e next s hs := by
    cases hs
    cases hmeasure
    exact ⟨layout, .refl, Diagram.shape_build e next .first⟩
  reset _ layout e s hs := nomatch hs
  setLayout layout layout' e shape hsame h s hs := by
    obtain ⟨layout'', halike, hshape⟩ := h s hs
    exact ⟨layout'', halike.tail hsame, hshape⟩

theorem memorable_isSome :
    Memorable (K := K) (· ≠ .reset) fun _ _ shape => shape.isSome = true where
  built _ _ _ _ _ _ := rfl
  reset hreset := absurd rfl hreset
  setLayout _ _ _ _ _ h := h

/-! ## Giving a text -/

/-- A text is remembered, whatever comes of it. -/
theorem Showing.setText {v : Viewport K} {shown : Option (Diagram K)} (h : v.Showing shown)
    (measure : TextMeasure K) (text : String) :
    ∃ shown', (v.setText measure text).2.Showing shown' ∧
      (v.setText measure text).2.document.text = some text ∧
      (v.setText measure text).2.settings = v.settings := by
  rcases setText_cases v measure text with ⟨htext, heq⟩ | ⟨_, err, _, heq⟩ | ⟨_, e, _, heq⟩
  · rw [heq]
    exact ⟨shown, h, htext, rfl⟩
  · rw [heq]
    exact ⟨shown, h.of_eq rfl rfl, rfl, rfl⟩
  · have hdisplays := displays_display (v := { v with document := ⟨some text, none⟩ })
      (h.of_eq rfl rfl) measure e
    rw [heq]
    exact ⟨_, hdisplays.showing, congrArg Document.text hdisplays.document, hdisplays.settings⟩

theorem diagram?_setText {v : Viewport K} {shown : Option (Diagram K)} (h : v.Showing shown)
    (measure : TextMeasure K) {text : String} {e : Expr}
    (hparse : Expr.parse v.settings.parse text = .ok e) :
    (v.setText measure text).2.diagram? = none ↔
      v.document.text = some text ∧ v.diagram? = none := by
  rcases setText_cases v measure text with ⟨htext, heq⟩ | ⟨_, err, herr, _⟩ | ⟨htext, e', _, heq⟩
  · rw [heq]
    simp [htext]
  · cases hparse.symm.trans herr
  · have hdisplays := displays_display (v := { v with document := ⟨some text, none⟩ })
      (h.of_eq rfl rfl) measure e'
    rw [heq, hdisplays.showing.diagram?]
    simp [htext]

theorem exists_built {v : Viewport K} {shown : Option (Diagram K)} (h : v.Showing shown)
    {text : String} {e : Expr} (hnew : v.document.text ≠ some text)
    (hparse : Expr.parse v.settings.parse text = .ok e) (measure : TextMeasure K) :
    ∃ d, (v.setText measure text).2.diagram? = some d ∧
      d.shape = (Diagram.build measure v.settings.layout e v.nextId).1.shape := by
  have hdisplays := displays_display (v := { v with document := ⟨some text, none⟩ })
    (h.of_eq rfl rfl) measure e
  rw [setText_of_parse hnew hparse]
  exact ⟨_, hdisplays.showing.diagram?, map_placed _ (fun _ _ => rfl) (fun _ _ _ => rfl) _⟩

/-- A text that can be read is shown in the shape that it gives, whether it was read again or
not, except where the diagram is gone and the text remembered; that takes a reset. -/
theorem shape_setText (canvas : Size K) (settings : Settings K) {ops : List (Operation K)}
    {measure : TextMeasure K} (hmeasure : ∀ op ∈ ops, op.MeasuresBy measure) {text : String}
    {e : Expr}
    (hparse : Expr.parse ((new canvas settings).applyAll ops).settings.parse text = .ok e) :
    let v := (new canvas settings).applyAll ops
    let v' := (v.setText measure text).2
    (∀ d, v'.diagram? = some d → ∃ layout, Alike layout v.settings.layout ∧
      d.shape = (Diagram.build measure layout e .first).1.shape) ∧
    (v'.diagram? = none ↔ v.document.text = some text ∧ v.diagram? = none) ∧
    ((∀ op ∈ ops, op ≠ .reset) → v'.diagram?.isSome = true) := by
  intro v v'
  have hv : v.Remembers _ := (memorable_shape measure).applyAll canvas settings hmeasure
  have ⟨shown, hshowing, _⟩ := hv
  obtain ⟨shown', hshowing', htext, hsettings⟩ := hshowing.setText measure text
  have hparse' : Expr.parse v'.settings.parse text = .ok e := by
    rw [hsettings]
    exact hparse
  -- what is shown is determined, so that every invariant speaks of the same diagram
  have hremembered : ∀ {Q}, v'.Remembers Q → Q v.settings.layout e (shown'.map Diagram.shape) := by
    intro Q h
    obtain ⟨shown'', hshowing'', hQ⟩ := h
    rw [← hshowing'.diagram?, hshowing''.diagram?, ← hsettings]
    exact hQ text e htext hparse'
  rw [hshowing'.diagram?]
  refine ⟨?_, ?_, ?_⟩
  · intro d hd
    refine hremembered ((memorable_shape measure).setText rfl hv) d.shape ?_
    rw [hd, Option.map_some]
  · rw [← hshowing'.diagram?]
    exact diagram?_setText hshowing measure hparse
  · intro hreset
    have hv' : v'.Remembers _ := memorable_isSome.setText nofun
      (memorable_isSome.applyAll canvas settings hreset)
    have hsome := hremembered hv'
    rwa [Option.isSome_map] at hsome

theorem parse_empty : Expr.parse .standard "()" = .ok (.list []) :=
  Expr.parse_eq_ok_iff.mpr ⟨[], Expr.readSource_eq_ok_iff.mpr
    ⟨[], ['(', ')'], rfl, Expr.blank_nil, ⟨_, _, rfl, rfl, .close Expr.blank_nil⟩, by decide⟩⟩

theorem parse_label : Expr.parse .standard "('a')" = .ok (.list [.atom (.text "a")]) :=
  Expr.parse_eq_ok_iff.mpr ⟨[], Expr.readSource_eq_ok_iff.mpr
    ⟨[], ['(', '\'', 'a', '\'', ')'], rfl, Expr.blank_nil, ⟨_, _, rfl, rfl,
      .text Expr.blank_nil (t := ['a']) rfl (by decide) (.close Expr.blank_nil)⟩, by decide⟩⟩

theorem parse_open : ∃ err, Expr.parse .standard "(" = .error err := by
  have hfails : (Expr.parse .standard "(").isOk = false := by decide +kernel
  cases hparse : Expr.parse .standard "(" with
  | ok e =>
      rw [hparse] at hfails
      cases hfails
  | error err => exact ⟨err, rfl⟩

/-- A text that could not be read, and then the one before it again. -/
theorem shape_setText_corrected :
    let measure : TextMeasure Float := fun _ => 6
    let v := (new ⟨800, 600⟩ .standard).applyAll
      [.setText measure "()", .setText measure "("]
    Expr.parse v.settings.parse "()" = .ok (.list []) ∧
      ∃ d, (v.setText measure "()").2.diagram? = some d ∧
        ∃ layout, Alike layout v.settings.layout ∧
          d.shape = (Diagram.build measure layout (.list []) .first).1.shape := by
  intro measure v
  have hparse : Expr.parse v.settings.parse "()" = .ok (.list []) := by
    obtain ⟨shown, hshowing, _, hsettings⟩ := (showing_new _ _).setText measure "()"
    obtain ⟨_, _, _, hsettings'⟩ := hshowing.setText measure "("
    have hv : v.settings = .standard := hsettings'.trans hsettings
    rw [hv]
    exact parse_empty
  have hmeasure : ∀ op ∈ [Operation.setText measure "()", .setText measure "("],
      op.MeasuresBy measure := by simp [Operation.MeasuresBy]
  obtain ⟨hshape, _, hsome⟩ := shape_setText ⟨800, 600⟩ .standard hmeasure hparse
  obtain ⟨d, hd⟩ := Option.isSome_iff_exists.mp (hsome (by simp))
  exact ⟨hparse, d, hd, hshape d hd⟩

theorem setText_reset {v : Viewport K} {shown : Option (Diagram K)} (h : v.Showing shown)
    (measure : TextMeasure K) (text : String) :
    let reset := (v.setText measure text).2.reset
    reset.setText measure text = (.ok false, reset) ∧ reset.diagram? = none := by
  intro reset
  obtain ⟨shown', hshowing', htext, _⟩ := h.setText measure text
  refine ⟨?_, (hshowing'.dropDiagram.of_eq rfl rfl : reset.Showing none).diagram?⟩
  have hsame : reset.document.text = some text := htext
  unfold Viewport.setText Document.update
  rw [if_pos hsame]

theorem setText_reset_lost :
    let measure : TextMeasure Float := fun _ => 6
    let v := (new ⟨800, 600⟩ .standard).applyAll [.setText measure "()", .reset]
    Expr.parse v.settings.parse "()" = .ok (.list []) ∧
      v.setText measure "()" = (.ok false, v) ∧ (v.setText measure "()").2.diagram? = none := by
  intro measure v
  obtain ⟨_, _, _, hsettings⟩ := (showing_new _ _).setText measure "()"
  obtain ⟨heq, hnone⟩ := setText_reset (showing_new ⟨800, 600⟩ .standard) measure "()"
  refine ⟨?_, heq, ?_⟩
  · have hv : v.settings = .standard := hsettings
    rw [hv]
    exact parse_empty
  · rw [show v.setText measure "()" = (.ok false, v) from heq]
    exact hnone

end SExprViewer.Viewport
