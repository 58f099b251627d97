import Mathlib.Data.List.Induction
import SExprViewer.Proofs.Viewer.Reading

/-! # The widths of the labels

Labels are measured when a text is read, by the page as it then is, and keep these widths until
another text is read (`exists_measuredIn`).  So after a text is given the shown diagram has the
widths that the page gave when it read this text, which is now, unless the text is remembered
(`labels_setText`).  Another font alone does not make the viewer forget the text: drawn in the
new font, the labels have the widths of the old one (`labels_setText_font`). -/
set_option autoImplicit false

namespace SExprViewer

open Diagram (LabelsBy)

theorem Page.widthOf_noteMeasured {K : Type} [Scalar K] (p : Page K) (texts : List String) :
    (p.noteMeasured texts).widthOf = p.widthOf := by
  rw [noteMeasured, noteAll_eq]
  rfl

namespace Viewport

variable {K : Type} [Scalar K]

theorem labelsBy_setText {v : Viewport K} {shown : Option (Diagram K)} (h : v.Showing shown)
    {text : String} {e : Expr} (hnew : v.document.text ≠ some text)
    (hparse : Expr.parse v.settings.parse text = .ok e) (measure : TextMeasure K) :
    ∃ d, (v.setText measure text).2.diagram? = some d ∧ d.LabelsBy measure := by
  obtain ⟨d, hd, hshape⟩ := exists_built h hnew hparse measure
  exact ⟨d, hd, (Diagram.labelsBy_build e v.nextId).of_shape hshape⟩

end Viewport

namespace Viewer

/-- The labels are as wide as the page made them when the text was given in a run. -/
def MeasuredIn (opened : Viewer) (ops : List Operation) (text : String) (d : Diagram Float) :
    Prop :=
  ∃ pre post, ops = pre ++ .setText text :: post ∧ d.LabelsBy (opened.applyAll pre).page.widthOf

theorem MeasuredIn.append {opened : Viewer} {ops : List Operation} {text : String}
    {d : Diagram Float} (h : MeasuredIn opened ops text d) (later : List Operation) :
    MeasuredIn opened (ops ++ later) text d := by
  obtain ⟨pre, post, rfl, hlabels⟩ := h
  exact ⟨pre, post ++ later, by simp, hlabels⟩

theorem MeasuredIn.of_shape {opened : Viewer} {ops : List Operation} {text : String}
    {d d' : Diagram Float} (h : MeasuredIn opened ops text d') (hshape : d.shape = d'.shape) :
    MeasuredIn opened ops text d := by
  obtain ⟨pre, post, heq, hlabels⟩ := h
  exact ⟨pre, post, heq, hlabels.of_shape hshape⟩

/-- A call gives a text, or keeps whatever is kept while nothing is read. -/
theorem setText_or_keeps (v : Viewer) (op : Operation) :
    (∃ text, op = .setText text) ∨
      ∀ P : Viewport Float → Prop, Viewport.Invariant Viewport.Operation.LeavesReading P →
        P v.viewport → P (v.apply op).viewport := by
  rcases apply_cases v op with ⟨text, hop, _⟩ | ⟨settings, heq, _⟩ | hplain
  · exact .inl ⟨text, hop⟩
  · refine .inr fun P hP hv => ?_
    rw [heq]
    exact hP.setSettings _ settings trivial hv
  · refine .inr fun P hP hv => hplain.invariant (fun move hmove => ?_) hP hv
    cases move <;> first | exact trivial | exact hmove

theorem showing_applyAll {v : Viewer} (h : v.viewport.Showing none)
    (htext : v.viewport.document.text = none) (ops : List Operation) :
    (v.applyAll ops).viewport.Remembers fun _ _ shape => shape.isSome = true :=
  invariant_applyAll Viewport.memorable_isSome.invariant ops v
    ⟨none, h, fun text _ hsome => by rw [htext] at hsome; cases hsome⟩

/-- While a text is remembered that can be read, its diagram is shown, measured when the text was
given at some time of the run. -/
theorem exists_measuredIn {opened : Viewer} (h : opened.viewport.Showing none)
    (hnone : opened.viewport.document.text = none) (ops : List Operation) :
    ∀ text e, (opened.applyAll ops).viewport.document.text = some text →
      Expr.parse (opened.applyAll ops).viewport.settings.parse text = .ok e →
      ∃ d, (opened.applyAll ops).viewport.diagram? = some d ∧ MeasuredIn opened ops text d := by
  induction ops using List.reverseRecOn with
  | nil =>
      intro text e htext
      cases hnone.symm.trans htext
  | append_singleton ops op ih =>
      have happly : opened.applyAll (ops ++ [op]) = (opened.applyAll ops).apply op := by
        simp [applyAll]
      rw [happly]
      intro text e htext hparse
      generalize hv : opened.applyAll ops = v at ih htext hparse ⊢
      obtain ⟨shown, hshowing, _⟩ : v.viewport.Remembers _ := hv ▸ showing_applyAll h hnone ops
      rcases setText_or_keeps v op with ⟨text', rfl⟩ | hkeeps
      · by_cases hsame : v.viewport.document.text = some text'
        · -- it is not read, and everything stays
          have heq : (v.apply (.setText text')).viewport = v.viewport :=
            viewport_setText_remembered hsame
          rw [heq] at htext hparse ⊢
          obtain ⟨d, hd, hmeasured⟩ := ih text e htext hparse
          exact ⟨d, hd, hmeasured.append _⟩
        · obtain rfl : text' = text := Option.some.inj ((text_setText v text').symm.trans htext)
          change Expr.parse (v.setText text').2.viewport.settings.parse text' = _ at hparse
          rw [settings_setText] at hparse
          obtain ⟨d, hd, hlabels⟩ := Viewport.labelsBy_setText hshowing hsame hparse v.page.widthOf
          exact ⟨d, hd, ops, [], rfl, by rwa [hv]⟩
      · -- the text is the one from before, and so is what is shown for it
        obtain ⟨hbefore, hsettings⟩ := hkeeps _
          (Viewport.recalls_invariant v.viewport.document.text v.viewport.settings.parse)
          (fun _ h => ⟨h, rfl⟩) text htext
        rw [hsettings] at hparse
        obtain ⟨d, hd, hmeasured⟩ := ih text e hbefore hparse
        obtain ⟨shown', hshowing', hshape⟩ := hkeeps _
          (Viewport.memorable_shown (shown.map Diagram.shape)).invariant
          ⟨shown, hshowing, fun _ _ _ _ => rfl⟩
        replace hshape := hshape text e htext (by rwa [hsettings])
        rw [← hshowing.diagram?, hd] at hshape
        obtain ⟨d', rfl, hsame⟩ := Option.map_eq_some_iff.mp hshape
        exact ⟨d', hshowing'.diagram?, (hmeasured.of_shape hsame).append _⟩

/-- After a text that can be read is given, its diagram is shown, with the widths that the page gave
when this text was given at some time of the run: now, if it is not remembered.  The page is always
set to the font of the theme. -/
theorem labels_setText {page : Page Float} {answer : ContextAnswer} {size : Size Float}
    {opened : Viewer} (h : (create page answer size).2 = .ok opened) (ops : List Operation)
    {text : String} {e : Expr}
    (hparse : Expr.parse (opened.applyAll ops).viewport.settings.parse text = .ok e) :
    let v := opened.applyAll ops
    let v' := (v.setText text).2
    (∃ d, v'.viewport.diagram? = some d ∧ MeasuredIn opened (ops ++ [.setText text]) text d ∧
      (v.viewport.document.text ≠ some text → d.LabelsBy v'.page.widthOf)) ∧
    ∀ run, (opened.applyAll run).WritesBy page.measure := by
  intro v v'
  obtain ⟨hviewport, hwrites⟩ := of_create h
  refine ⟨?_, fun run => hwrites.applyAll run⟩
  have hnone : opened.viewport.document.text = none := congrArg (·.document.text) hviewport
  have hshowing : opened.viewport.Showing none := by
    rw [hviewport]
    exact Viewport.showing_new size .standard
  by_cases hsame : v.viewport.document.text = some text
  · obtain ⟨d, hd, hmeasured⟩ := exists_measuredIn hshowing hnone ops text e hsame hparse
    have heq : v'.viewport = v.viewport := viewport_setText_remembered hsame
    rw [heq]
    exact ⟨d, hd, hmeasured.append _, fun hnew => absurd hsame hnew⟩
  · obtain ⟨shown, hshown, _⟩ : v.viewport.Remembers _ := showing_applyAll hshowing hnone ops
    obtain ⟨d, hd, hlabels⟩ := Viewport.labelsBy_setText hshown hsame hparse v.page.widthOf
    refine ⟨d, hd, ⟨ops, [], rfl, hlabels⟩, fun _ => ?_⟩
    have hpage : v'.page.widthOf = v.page.widthOf := Page.widthOf_noteMeasured ..
    rwa [hpage]

theorem page_setText (v : Viewer) (text : String) :
    ∃ texts, (v.setText text).2.page = v.page.noteMeasured texts := ⟨_, rfl⟩

/-- Settings with the same parsing and layout leave the diagram as it is, whatever their font. -/
theorem diagram?_setText_again (v : Viewer) (text : String) {json : String}
    {settings : Settings Float} (hread : Settings.read? json = some settings)
    (hparse : settings.parse = v.viewport.settings.parse)
    (hlayout : (settings.layout == v.viewport.settings.layout) = true) :
    let again := (((v.setText text).2.apply (.setSettings json)).setText text).2
    again.viewport.diagram? = (v.setText text).2.viewport.diagram? ∧
      again.page.font = settings.theme.font ∧
      again.page.widthOf = (v.page.setFont settings.theme.font).widthOf := by
  intro again
  have hset := apply_setSettings (v.setText text).2 hread
  have hsettings := settings_setText v text
  have hremembered : ((v.setText text).2.apply (.setSettings json)).viewport.document.text =
      some text := by
    rw [hset]
    exact (congrArg Document.text (Viewport.document_setSettings (hsettings ▸ hparse)
      (hsettings ▸ hlayout))).trans (text_setText v text)
  obtain ⟨texts, hfirst⟩ := page_setText v text
  obtain ⟨texts', hagain⟩ := page_setText ((v.setText text).2.apply (.setSettings json)) text
  have hpage : again.page =
      ((v.page.noteMeasured texts).setFont settings.theme.font).noteMeasured texts' := by
    rw [show again.page = _ from hagain, hset, ← hfirst]
    rfl
  refine ⟨?_, ?_, ?_⟩
  · rw [viewport_setText_remembered hremembered, hset, Viewport.diagram?_setSettings]
  · rw [hpage, Page.noteMeasured, Page.noteAll_eq]
    rfl
  · rw [hpage, Page.widthOf_noteMeasured, Page.noteMeasured, Page.noteAll_eq]
    rfl

def serifWider : String → TextMeasure Float := fun font _ => if font = "20px serif" then 12 else 6

theorem read?_serif : ∃ settings,
    Settings.read? "\x7b\"theme\":\x7b\"font\":\"20px serif\"\x7d\x7d" = some settings ∧
      settings.theme.font = "20px serif" ∧ settings.parse = .standard ∧
      (settings.layout == .standard) = true := by
  have hany : (Settings.read? "\x7b\"theme\":\x7b\"font\":\"20px serif\"\x7d\x7d").any (fun s =>
      decide (s.theme.font = "20px serif") && decide (s.parse = .standard) &&
        s.layout == .standard) = true := by decide +kernel
  obtain ⟨settings, hread, hsettings⟩ := (Option.any_eq_true _ _).mp hany
  simp only [Bool.and_eq_true, decide_eq_true_eq] at hsettings
  exact ⟨settings, hread, hsettings.1.1, hsettings.1.2, hsettings.2⟩

theorem labels_setText_first :
    let opened := opened (.measuring serifWider) ⟨800, 600⟩
    let v' := (opened.setText "('a')").2
    (create (.measuring serifWider) .drawing ⟨800, 600⟩).2 = .ok opened ∧
      Expr.parse opened.viewport.settings.parse "('a')" = .ok (.list [.atom (.text "a")]) ∧
      ∃ d, v'.viewport.diagram? = some d ∧ d.LabelsBy v'.page.widthOf := by
  intro opened v'
  obtain ⟨⟨d, hd, _, hlabels⟩, _⟩ := labels_setText
    (create_drawing (.measuring serifWider) ⟨800, 600⟩) [] Viewport.parse_label
  exact ⟨create_drawing _ _, Viewport.parse_label, d, hd, hlabels (Option.some_ne_none _).symm⟩

/-- The theme gets another font, and the same text is given again. -/
theorem labels_setText_font :
    let v := (opened (.measuring serifWider) ⟨800, 600⟩).applyAll
      [.setText "('a')", .setSettings "\x7b\"theme\":\x7b\"font\":\"20px serif\"\x7d\x7d"]
    let v' := (v.setText "('a')").2
    Expr.parse v.viewport.settings.parse "('a')" = .ok (.list [.atom (.text "a")]) ∧
      v'.page.font = "20px serif" ∧
      ∃ d, v'.viewport.diagram? = some d ∧ ¬ d.LabelsBy v'.page.widthOf := by
  intro v v'
  let first := opened (.measuring serifWider) ⟨800, 600⟩
  obtain ⟨settings, hread, hfont, hparse, hlayout⟩ := read?_serif
  obtain ⟨hdiagram, hpage, hwidths⟩ :=
    diagram?_setText_again first "('a')" hread hparse hlayout
  obtain ⟨d, hd, hshape⟩ := Viewport.exists_built (Viewport.showing_new ⟨800, 600⟩ .standard)
    (Option.some_ne_none "('a')").symm Viewport.parse_label first.page.widthOf
  have hbody : d.value.body = [.label "a" (first.page.widthOf "a")] := by
    have hvalue := congrArg (fun t : Diagram Float => t.value.body) hshape
    rw [Diagram.shape, Tree.value_map] at hvalue
    exact hvalue
  have hsettings : v.viewport.settings = settings :=
    congrArg (·.viewport.settings) (apply_setSettings (first.setText "('a')").2 hread)
  refine ⟨?_, hpage.trans hfont, d, hdiagram.trans hd, fun hlabels => ?_⟩
  · rw [hsettings, hparse]
    exact Viewport.parse_label
  · have hwidth := hlabels.root "a" (first.page.widthOf "a") (by rw [hbody]; simp)
    rw [show v'.page.widthOf = _ from hwidths, hfont] at hwidth
    exact absurd hwidth (by decide)

end Viewer

end SExprViewer
