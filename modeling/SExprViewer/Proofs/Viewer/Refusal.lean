import SExprViewer.Proofs.Viewer.Reading

/-! # What a viewer refuses

A text that cannot be read changes the document and nothing else, also if it is not read because
it is remembered (`setText_of_error`).  A remembered text and settings that cannot be read change
nothing (`setText_of_remembered`, `apply_setSettings_of_none`).  So a viewer that is given only
what it refuses goes on as it was, whatever was refused (`applyAll_refused`). -/
set_option autoImplicit false

namespace SExprViewer.Viewer

def withDocument (v : Viewer) (document : Document) : Viewer :=
  { v with viewport := { v.viewport with document := document } }

theorem setText_of_remembered {v : Viewer} {text : String}
    (h : v.viewport.document.text = some text) : v.setText text = (true, v) := by
  unfold setText
  rw [Viewport.setText_of_remembered h, Document.update, if_pos h]
  rfl

theorem setText_of_error {v : Viewer}
    (hfollows : v.viewport.document.Follows v.viewport.settings.parse) {text : String}
    {err : SyntaxError} (herr : Expr.parse v.viewport.settings.parse text = .error err) :
    (v.setText text).2 = v.withDocument ⟨some text, some err⟩ := by
  by_cases hsame : v.viewport.document.text = some text
  · -- it was refused before, for the same reason
    have hlast : v.viewport.document.lastError = some err :=
      (hfollows text hsame).trans (Expr.readingError?_of_error herr)
    have hdocument : v.viewport.document = ⟨some text, some err⟩ := by
      rw [← hsame, ← hlast]
    rw [setText_of_remembered hsame, ← hdocument]
    rfl
  · unfold setText Viewport.setText
    rw [Document.update, if_neg hsame, herr]
    rfl

theorem remembered_of_unchanged {v : Viewport Float} {measure : TextMeasure Float} {text : String}
    (h : (v.setText measure text).1 = .ok false) : v.document.text = some text := by
  rcases Viewport.setText_cases v measure text with ⟨hsame, _⟩ | ⟨_, err, _, heq⟩ | ⟨_, e, _, heq⟩
  · exact hsame
  · rw [heq] at h
    cases h
  · rw [heq] at h
    cases h

theorem apply_setSettings_of_none {json : String} (h : Settings.read? json = none) (v : Viewer) :
    v.setSettingsText? json = none ∧ v.apply (.setSettings json) = v := by
  have hnone : v.setSettingsText? json = none := by rw [setSettingsText?, h, Option.map_none]
  exact ⟨hnone, by rw [apply, hnone, Option.getD_none]⟩

theorem read?_number_for_switch :
    Settings.read? "\x7b\"centered\":1\x7d" = none := by
  have hnone : (Settings.read? "\x7b\"centered\":1\x7d").isNone = true := by decide +kernel
  exact Option.isNone_iff_eq_none.mp hnone

/-! ## Runs of refusals -/

/-- Gives a text that cannot be read, or settings that cannot be. -/
def Refused (settings : ParseSettings) : Operation → Prop
  | .setText text => ∃ err, Expr.parse settings text = .error err
  | .setSettings json => Settings.read? json = none
  | _ => False

theorem apply_refused {v : Viewer}
    (hfollows : v.viewport.document.Follows v.viewport.settings.parse) {op : Operation}
    (h : Refused v.viewport.settings.parse op) : ∃ document : Document,
      document.Follows v.viewport.settings.parse ∧ v.apply op = v.withDocument document := by
  cases op with
  | setText text =>
      obtain ⟨err, herr⟩ := h
      refine ⟨⟨some text, some err⟩, ?_, setText_of_error hfollows herr⟩
      intro text' htext'
      cases htext'
      exact (Expr.readingError?_of_error herr).symm
  | setSettings json => exact ⟨v.viewport.document, hfollows, (apply_setSettings_of_none h v).2⟩
  | _ => exact h.elim

theorem applyAll_refused (ops : List Operation) : ∀ v : Viewer,
    v.viewport.document.Follows v.viewport.settings.parse →
    (∀ op ∈ ops, Refused v.viewport.settings.parse op) →
      ∃ document, v.applyAll ops = v.withDocument document := by
  induction ops with
  | nil => intro v _ _; exact ⟨v.viewport.document, rfl⟩
  | cons op ops ih =>
      intro v hfollows hops
      obtain ⟨document, hfollows', heq⟩ := apply_refused hfollows (hops op List.mem_cons_self)
      obtain ⟨document', heq'⟩ := ih (v.withDocument document) hfollows'
        fun op' hop' => hops op' (List.mem_cons_of_mem _ hop')
      refine ⟨document', ?_⟩
      change (v.apply op).applyAll ops = _
      rw [heq, heq']
      rfl

/-- In every state that a viewer comes to, a text that cannot be read leaves all as it is but what
is remembered of the text and its error; a text that is answered as unchanged leaves all as it is,
and so do settings that cannot be read. -/
theorem refusals_change_nothing {page : Page Float} {answer : ContextAnswer} {size : Size Float}
    {opened : Viewer} (h : (create page answer size).2 = .ok opened) (ops : List Operation) :
    let v := opened.applyAll ops
    (∀ text err, Expr.parse v.viewport.settings.parse text = .error err →
      (v.setText text).2 =
        { v with viewport := { v.viewport with document := ⟨some text, some err⟩ } }) ∧
    (∀ text, (v.viewport.setText v.page.widthOf text).1 = .ok false → v.setText text = (true, v)) ∧
    (∀ json, Settings.read? json = none →
      v.setSettingsText? json = none ∧ v.apply (.setSettings json) = v) := by
  intro v
  have hfollows : v.viewport.document.Follows v.viewport.settings.parse := by
    refine follows_applyAll ?_ ops
    rw [(of_create h).1]
    exact nofun
  refine ⟨fun text err herr => setText_of_error hfollows herr,
    fun text hunchanged => setText_of_remembered (remembered_of_unchanged hunchanged),
    fun json hnone => apply_setSettings_of_none hnone v⟩

theorem refusals_change_nothing_open :
    let v := opened (.measuring fun _ _ => 6) ⟨800, 600⟩
    let v' := v.applyAll [.setText "("]
    (create (.measuring fun _ _ => 6) .drawing ⟨800, 600⟩).2 = .ok v ∧
      (∃ err, v' = { v with viewport := { v.viewport with document := ⟨some "(", some err⟩ } }) ∧
      v'.setText "(" = (true, v') ∧ v'.apply (.setSettings "\x7b\"centered\":1\x7d") = v' := by
  intro v v'
  have hcreate := create_drawing (.measuring fun _ _ => 6) ⟨800, 600⟩
  obtain ⟨err, herr⟩ := Viewport.parse_open
  have hfirst := (refusals_change_nothing hcreate []).1 "(" err herr
  obtain ⟨_, hunchanged, hsettings⟩ := refusals_change_nothing hcreate [.setText "("]
  have hremembered : v'.viewport.document.text = some "(" := text_setText v "("
  have hanswer : (v'.viewport.setText v'.page.widthOf "(").1 = .ok false := by
    rw [Viewport.setText_of_remembered hremembered]
  exact ⟨hcreate, ⟨err, hfirst⟩, hunchanged "(" hanswer, (hsettings _ read?_number_for_switch).2⟩

end SExprViewer.Viewer
