import SExprViewer.Proofs.Viewer.Operation
import SExprViewer.Proofs.Viewport.Document

/-! # What a viewer answers to a text

The last error is that of the text just given, read or remembered.  The answer is not: it says
whether reading went wrong, and a remembered text is not read (`answer_setText`).  So a text that
has an error is refused once, and taken when it is given again (`answer_setText_again`). -/
set_option autoImplicit false

namespace SExprViewer

/-- A page that draws nothing yet and never fails. -/
def Page.measuring (measure : String → TextMeasure Float) : Page Float where
  hasWindow := true
  measure := measure
  font := ""
  failing := []
  requested := 0
  pending := []
  calls := #[]

namespace Viewer

def opened (page : Page Float) (size : Size Float) : Viewer where
  viewport := .new size .standard
  canvas := .new (page.note (.getContext "2d")) (Settings.standard (K := Float)).theme.font
  attached := true

theorem create_drawing (page : Page Float) (size : Size Float) :
    (create page .drawing size).2 = .ok (opened page size) := rfl

theorem document_setText (v : Viewer) (text : String) : (v.setText text).2.viewport.document =
    (v.viewport.document.update v.viewport.settings.parse text).2 :=
  Viewport.document_setText v.viewport v.page.widthOf text

theorem settings_setText (v : Viewer) (text : String) :
    (v.setText text).2.viewport.settings = v.viewport.settings :=
  Viewport.settings_setText v.viewport v.page.widthOf text

theorem text_setText (v : Viewer) (text : String) :
    (v.setText text).2.viewport.document.text = some text := by
  rw [document_setText, Document.text_update]

theorem follows_applyAll {v : Viewer} (h : v.viewport.document.Follows v.viewport.settings.parse)
    (ops : List Operation) :
    (v.applyAll ops).viewport.document.Follows (v.applyAll ops).viewport.settings.parse :=
  invariant_applyAll Viewport.follows_invariant ops v h

theorem lastError?_setText {v : Viewer}
    (h : v.viewport.document.Follows v.viewport.settings.parse) (text : String) :
    (v.setText text).2.lastError? =
      (Expr.readingError? v.viewport.settings.parse text).map SyntaxError.message := by
  rw [lastError?, document_setText, h.update text text (Document.text_update ..)]

theorem setText_remembered {v : Viewer} {text : String}
    (h : v.viewport.document.text = some text) : (v.setText text).1 = true := by
  change (v.viewport.setText v.page.widthOf text).1.isOk = true
  rw [Viewport.setText_of_remembered h]
  rfl

theorem viewport_setText_remembered {v : Viewer} {text : String}
    (h : v.viewport.document.text = some text) : (v.setText text).2.viewport = v.viewport :=
  congrArg Prod.snd (Viewport.setText_of_remembered h v.page.widthOf)

theorem setText_new {v : Viewer} {text : String} (h : v.viewport.document.text ≠ some text) :
    (v.setText text).1 = true ↔ Expr.readingError? v.viewport.settings.parse text = none := by
  change (v.viewport.setText v.page.widthOf text).1.isOk = true ↔ _
  unfold Expr.readingError?
  rcases Viewport.setText_cases v.viewport v.page.widthOf text with
    ⟨hsame, _⟩ | ⟨_, err, herr, heq⟩ | ⟨_, e, he, heq⟩
  · exact absurd hsame h
  · rw [heq, herr]
    exact ⟨nofun, nofun⟩
  · rw [heq, he]
    exact ⟨fun _ => rfl, fun _ => rfl⟩

/-- In every run the last error tells whether the text just given can be read.  The answer tells
the same of a text that is not remembered; a text that is, and so every text that was just given,
is taken without being read. -/
theorem answer_setText {page : Page Float} {answer : ContextAnswer} {size : Size Float}
    {opened : Viewer} (h : (create page answer size).2 = .ok opened) (ops : List Operation)
    (text : String) :
    let v := opened.applyAll ops
    let v' := (v.setText text).2
    (v'.lastError? = none ↔ ∃ e, Expr.parse v.viewport.settings.parse text = .ok e) ∧
    ((v.setText text).1 = true ↔ v'.lastError? = none ∨ v.viewport.document.text = some text) ∧
    (v'.setText text).1 = true := by
  intro v v'
  have hfollows : v.viewport.document.Follows v.viewport.settings.parse := by
    refine follows_applyAll ?_ ops
    rw [(of_create h).1]
    exact nofun
  have hlast : v'.lastError? = none ↔
      Expr.readingError? v.viewport.settings.parse text = none := by
    rw [lastError?_setText hfollows, Option.map_eq_none_iff]
  refine ⟨hlast.trans Expr.readingError?_eq_none_iff, ?_, setText_remembered (text_setText v text)⟩
  by_cases hsame : v.viewport.document.text = some text
  · simp [setText_remembered hsame, hsame]
  · simp [setText_new hsame, hsame, hlast]

theorem answer_setText_first :
    let v := opened (.measuring fun _ _ => 6) ⟨800, 600⟩
    let v' := (v.setText "(").2
    (create (.measuring fun _ _ => 6) .drawing ⟨800, 600⟩).2 = .ok v ∧
      ((v.setText "(").1 = true ↔ v'.lastError? = none) ∧ (v'.setText "(").1 = true := by
  intro v v'
  obtain ⟨_, hanswer, hagain⟩ :=
    answer_setText (create_drawing (.measuring fun _ _ => 6) ⟨800, 600⟩) [] "("
  refine ⟨create_drawing _ _, hanswer.trans ?_, hagain⟩
  exact or_iff_left (Option.some_ne_none "(").symm

/-- It is given once more, and nothing about it has changed. -/
theorem answer_setText_again :
    let v := (opened (.measuring fun _ _ => 6) ⟨800, 600⟩).applyAll [.setText "("]
    (∃ err, Expr.parse v.viewport.settings.parse "(" = .error err) ∧
      (v.setText "(").1 = true ∧ (v.setText "(").2.lastError? ≠ none := by
  intro v
  let first := opened (.measuring fun _ _ => 6) ⟨800, 600⟩
  have hsettings : v.viewport.settings = .standard := settings_setText first "("
  have hfollows : v.viewport.document.Follows v.viewport.settings.parse :=
    follows_applyAll (v := first) (fun _ hnone => nomatch hnone) [.setText "("]
  obtain ⟨err, herr⟩ : ∃ err, Expr.parse v.viewport.settings.parse "(" = .error err := by
    rw [hsettings]
    exact Viewport.parse_open
  refine ⟨⟨err, herr⟩, setText_remembered (text_setText first "("), ?_⟩
  rw [lastError?_setText hfollows, Expr.readingError?_of_error herr]
  exact Option.some_ne_none _

end Viewer

end SExprViewer
