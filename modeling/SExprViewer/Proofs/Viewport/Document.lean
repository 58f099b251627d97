import SExprViewer.Proofs.Viewport.Reading

/-! # What the document remembers

Reading is the only thing that gives a document a text, and setting is the only thing that takes
it away (`document_invariant`).  So the last error is always that of the remembered text
(`follows_invariant`), and without a reading a text that is still there is the one from before,
read in the same way (`recalls_invariant`); what is shown for it has kept its shape
(`memorable_shown`). -/
set_option autoImplicit false

namespace SExprViewer

def Expr.readingError? (settings : ParseSettings) (text : String) : Option SyntaxError :=
  match Expr.parse settings text with
  | .ok _ => none
  | .error err => some err

theorem Expr.readingError?_eq_none_iff {settings : ParseSettings} {text : String} :
    readingError? settings text = none ↔ ∃ e, Expr.parse settings text = .ok e := by
  unfold readingError?
  cases Expr.parse settings text <;> simp

theorem Expr.readingError?_of_error {settings : ParseSettings} {text : String} {err : SyntaxError}
    (h : Expr.parse settings text = .error err) : readingError? settings text = some err := by
  rw [readingError?, h]

namespace Document

def Follows (document : Document) (settings : ParseSettings) : Prop :=
  ∀ text, document.text = some text → document.lastError = Expr.readingError? settings text

theorem text_update (document : Document) (settings : ParseSettings) (text : String) :
    (document.update settings text).2.text = some text := by
  unfold update
  split
  · assumption
  · cases Expr.parse settings text <;> rfl

theorem lastError_update_of_ne {document : Document} {text : String}
    (h : document.text ≠ some text) (settings : ParseSettings) :
    (document.update settings text).2.lastError = Expr.readingError? settings text := by
  rw [update, if_neg h, Expr.readingError?]
  cases Expr.parse settings text <;> rfl

theorem Follows.update {document : Document} {settings : ParseSettings}
    (h : document.Follows settings) (text : String) :
    (document.update settings text).2.Follows settings := by
  intro text' htext'
  obtain rfl : text = text' := Option.some.inj ((text_update ..).symm.trans htext')
  unfold Document.update Expr.readingError?
  split
  · rename_i hsame
    exact h text hsame
  · cases Expr.parse settings text <;> rfl

end Document

namespace Viewport

variable {K : Type} [Scalar K]

theorem document_setText (v : Viewport K) (measure : TextMeasure K) (text : String) :
    (v.setText measure text).2.document = (v.document.update v.settings.parse text).2 := by
  unfold setText
  obtain ⟨outcome, document⟩ := v.document.update v.settings.parse text
  cases outcome with
  | unchanged => rfl
  | parsed e => exact display_document ..
  | failed err => rfl

theorem text_setText (v : Viewport K) (measure : TextMeasure K) (text : String) :
    (v.setText measure text).2.document.text = some text := by
  rw [document_setText, Document.text_update]

theorem document_setSettings {v : Viewport K} {settings : Settings K}
    (hparse : settings.parse = v.settings.parse)
    (hlayout : (settings.layout == v.settings.layout) = true) :
    (v.setSettings settings).document = v.document := by
  unfold setSettings
  simp [hparse, hlayout]

/-- What holds of the document with the settings it is read by, as long as reading and forgetting
keep it. -/
theorem document_invariant {allowed : Operation K → Prop}
    {P : Document → ParseSettings → Prop}
    (hread : ∀ measure text, allowed (.setText measure text) → ∀ document settings,
      P document settings → P (document.update settings text).2 settings)
    (hforget : ∀ document settings settings', P document settings →
      P document.invalidate settings') :
    Invariant allowed (fun v => P v.document v.settings.parse) where
  camera _ _ _ h := h
  status _ _ _ _ h := h
  loop _ _ _ _ h := h
  step _ _ h := h
  arrange v h := by
    rw [arrange, modifyDiagram_document, modifyDiagram_settings]
    exact h
  hover v p h := by rwa [document_hover, settings_hover]
  click v p h := by rwa [document_click, settings_click]
  reset _ _ h := h
  setText v measure text hallowed h := by
    rw [document_setText, settings_setText]
    exact hread measure text hallowed _ _ h
  setSettings v settings _ h := by
    unfold setSettings
    dsimp only
    split
    · exact hforget _ _ _ h
    · -- a text that is kept is still read as before
      rename_i hfresh
      rw [Decidable.not_not.mp (not_or.mp hfresh).1]
      exact h

theorem follows_invariant {allowed : Operation K → Prop} : Invariant allowed
    (fun v : Viewport K => v.document.Follows v.settings.parse) :=
  document_invariant (fun _ text _ _ _ h => h.update text) (fun _ _ _ _ => nofun)

/-- Neither reads a text nor takes the diagram away. -/
def Operation.LeavesReading : Operation K → Prop
  | .setText _ _ | .reset => False
  | _ => True

theorem recalls_invariant (text : Option String) (settings : ParseSettings) :
    Invariant Operation.LeavesReading (fun v : Viewport K =>
      ∀ text', v.document.text = some text' → text = some text' ∧ v.settings.parse = settings) :=
  document_invariant (P := fun document settings' =>
      ∀ text', document.text = some text' → text = some text' ∧ settings' = settings)
    (fun _ _ hread => hread.elim) (fun _ _ _ _ => nofun)

theorem memorable_shown (shape : Option (Diagram K)) :
    Memorable Operation.LeavesReading (fun _ _ shape' => shape' = shape) where
  built _ _ hread := hread.elim
  reset hreset := hreset.elim
  setLayout _ _ _ _ _ h := h

end Viewport

end SExprViewer
