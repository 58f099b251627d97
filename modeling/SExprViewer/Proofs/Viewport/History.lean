import Mathlib.Data.List.Induction
import SExprViewer.Proofs.Viewport.Document

/-! # Readings in a history

A history is all that has happened to a viewport since it was new.  It tells by itself which texts
are known, that is, were given last with nothing to tell the settings from those before
(`Known`), and so which texts are read.  The document remembers just the known text and the error
of the last reading (`Records`, `records_meetAll`). -/
set_option autoImplicit false

namespace SExprViewer

variable {K : Type}

/-- Settings that change neither parsing nor layout, as comparing tells it.  A layout with a
number that is not equal to itself counts as changed. -/
def Settings.ReadsLike [Scalar K] (before after : Settings K) : Prop :=
  after.parse = before.parse ∧ (after.layout == before.layout) = true

namespace Viewport

/-- What happens to a viewport: an operation, or any change of the stage from outside. -/
inductive Event (K : Type) where
  | operation (op : Operation K)
  | outside (change : Stage K → Stage K)

namespace Event

def given? : Event K → Option String
  | .operation (.setText _ text) => some text
  | _ => none

def settings? : Event K → Option (Settings K)
  | .operation (.setSettings settings) => some settings
  | _ => none

/-- Gives neither a text nor settings. -/
def Quiet (event : Event K) : Prop := event.given? = none ∧ event.settings? = none

end Event

/-! ## What a history tells -/

/-- At some time of a history `A` held of what happened and of all before it, and of everything
that happened since then `B`. -/
def Since (A B : List (Event K) → Event K → Prop) (history : List (Event K)) : Prop :=
  ∃ before event after, history = before ++ event :: after ∧ A before event ∧
    ∀ early next late, after = early ++ next :: late → B (before ++ event :: early) next

theorem split_concat {α : Type} {history before after : List α} {last event : α}
    (h : history ++ [last] = before ++ event :: after) :
    (before = history ∧ event = last ∧ after = []) ∨
      ∃ after', after = after' ++ [last] ∧ history = before ++ event :: after' := by
  rcases List.eq_nil_or_concat after with rfl | ⟨after', last', rfl⟩
  · obtain ⟨rfl, hlast⟩ := List.append_inj' h rfl
    exact .inl ⟨rfl, (List.singleton_inj.mp hlast).symm, rfl⟩
  · have h' : history ++ [last] = (before ++ event :: after') ++ [last'] := by simpa using h
    obtain ⟨rfl, hlast⟩ := List.append_inj' h' rfl
    exact .inr ⟨after', by rw [List.singleton_inj.mp hlast, List.concat_eq_append], rfl⟩

section Since
variable {A B : List (Event K) → Event K → Prop}

theorem not_since_nil : ¬ Since A B [] := by
  rintro ⟨before, event, after, h, _⟩
  cases before <;> cases h

theorem since_concat {history : List (Event K)} {last : Event K} :
    Since A B (history ++ [last]) ↔ A history last ∨ (Since A B history ∧ B history last) := by
  constructor
  · rintro ⟨before, event, after, h, hA, hB⟩
    rcases split_concat h with ⟨rfl, rfl, _⟩ | ⟨after', rfl, rfl⟩
    · exact .inl hA
    · refine .inr ⟨⟨before, event, after', rfl, hA, fun early next late hafter => ?_⟩, ?_⟩
      · exact hB early next (late ++ [last]) (by rw [hafter]; simp)
      · exact hB after' last [] rfl
  · rintro (hA | ⟨⟨before, event, after, rfl, hA, hB⟩, hlast⟩)
    · exact ⟨history, last, [], rfl, hA, fun early next late h => by cases early <;> cases h⟩
    · refine ⟨before, event, after ++ [last], by simp, hA, fun early next late h => ?_⟩
      rcases split_concat h with ⟨rfl, rfl, _⟩ | ⟨late', rfl, rfl⟩
      · exact hlast
      · exact hB early next late' rfl

end Since

/-- The settings at the end of a history. -/
def settingsAfter (initial : Settings K) (history : List (Event K)) : Settings K :=
  history.foldl (fun current event => event.settings?.getD current) initial

theorem settingsAfter_concat (initial : Settings K) (history : List (Event K)) (event : Event K) :
    settingsAfter initial (history ++ [event]) =
      event.settings?.getD (settingsAfter initial history) := by
  simp [settingsAfter]

variable [Scalar K]

/-- The text was given last, and all settings since then read like the ones before them. -/
def Known (initial : Settings K) (history : List (Event K)) (text : String) : Prop :=
  Since (fun _ event => event.given? = some text)
    (fun before event => event.given? = none ∧
      ∀ next ∈ event.settings?, (settingsAfter initial before).ReadsLike next) history

theorem known_concat {initial : Settings K} {history : List (Event K)} {event : Event K}
    {text : String} : Known initial (history ++ [event]) text ↔
      event.given? = some text ∨ (Known initial history text ∧ event.given? = none ∧
        ∀ next ∈ event.settings?, (settingsAfter initial history).ReadsLike next) :=
  since_concat

/-- A text is given that is not known and cannot be read, for the reason `err`. -/
def Refuses (initial : Settings K) (err : SyntaxError) (before : List (Event K))
    (event : Event K) : Prop :=
  ∃ text, event.given? = some text ∧ ¬ Known initial before text ∧
    Expr.readingError? (settingsAfter initial before).parse text = some err

/-- No text is given, or one that is known. -/
def NothingRead (initial : Settings K) (before : List (Event K)) (event : Event K) : Prop :=
  ∀ text ∈ event.given?, Known initial before text

/-! ## Viewports with a history -/

def meet (v : Viewport K) : Event K → Viewport K
  | .operation op => v.apply op
  | .outside change => { v with stage := change v.stage }

def meetAll (v : Viewport K) (history : List (Event K)) : Viewport K := history.foldl meet v

theorem meetAll_concat (v : Viewport K) (history : List (Event K)) (event : Event K) :
    v.meetAll (history ++ [event]) = (v.meetAll history).meet event := by
  simp [meetAll]

theorem document_invariant_eq (document : Document) : Invariant
    (fun op => (Event.operation op).Quiet) (fun v : Viewport K => v.document = document) where
  camera _ _ _ h := h
  status _ _ _ _ h := h
  loop _ _ _ _ h := h
  step _ _ h := h
  arrange _ h := (modifyDiagram_document ..).trans h
  hover v p h := (document_hover v p).trans h
  click v p h := (document_click v p).trans h
  reset _ _ h := h
  setText _ _ _ hquiet _ := nomatch hquiet.1
  setSettings _ _ hquiet _ := nomatch hquiet.2

/-- What happens gives a text, or settings, or does nothing to the document and the settings. -/
theorem meet_cases (v : Viewport K) (event : Event K) :
    (∃ measure text, event = .operation (.setText measure text)) ∨
    (∃ settings, event = .operation (.setSettings settings)) ∨
    (event.Quiet ∧ (v.meet event).document = v.document ∧
      (v.meet event).settings = v.settings) := by
  have hquiet : ∀ op : Operation K, (Event.operation op).Quiet →
      (v.apply op).document = v.document ∧ (v.apply op).settings = v.settings := by
    intro op hop
    have hset : ∀ settings, op ≠ .setSettings settings := by
      rintro settings rfl
      cases hop.2
    exact ⟨(document_invariant_eq v.document).apply hop rfl, settings_apply v hset⟩
  cases event with
  | outside change => exact .inr (.inr ⟨⟨rfl, rfl⟩, rfl, rfl⟩)
  | operation op =>
      cases op with
      | setText measure text => exact .inl ⟨measure, text, rfl⟩
      | setSettings settings => exact .inr (.inl ⟨settings, rfl⟩)
      | _ => exact .inr (.inr ⟨⟨rfl, rfl⟩, hquiet _ ⟨rfl, rfl⟩⟩)

theorem lastError_setSettings (v : Viewport K) (settings : Settings K) :
    (v.setSettings settings).document.lastError = v.document.lastError := by
  unfold setSettings
  dsimp only
  split <;> rfl

theorem text_setSettings_iff (v : Viewport K) (settings : Settings K) (text : String) :
    (v.setSettings settings).document.text = some text ↔
      v.document.text = some text ∧ v.settings.ReadsLike settings := by
  unfold setSettings Settings.ReadsLike
  dsimp only
  split
  · rename_i hstale
    refine ⟨nofun, fun ⟨_, hparse, hlayout⟩ => ?_⟩
    rcases hstale with hne | hfalse
    · exact absurd hparse hne
    · rw [hlayout] at hfalse
      cases hfalse
  · rename_i hfresh
    obtain ⟨hparse, hlayout⟩ := not_or.mp hfresh
    have hlike : settings.parse = v.settings.parse ∧
        (settings.layout == v.settings.layout) = true :=
      ⟨Decidable.not_not.mp hparse, Bool.not_eq_false _ ▸ hlayout⟩
    exact (and_iff_left hlike).symm

/-! ## What the document holds -/

/-- A viewport has the settings, the text and the error that its history tells. -/
structure Records (initial : Settings K) (history : List (Event K)) (v : Viewport K) : Prop where
  settings : v.settings = settingsAfter initial history
  text : ∀ text, v.document.text = some text ↔ Known initial history text
  lastError : ∀ err, v.document.lastError = some err ↔
    Since (Refuses initial err) (NothingRead initial) history

theorem records_new (canvas : Size K) (initial : Settings K) :
    Records initial [] (new canvas initial) where
  settings := rfl
  text _ := ⟨nofun, fun h => absurd h not_since_nil⟩
  lastError _ := ⟨nofun, fun h => absurd h not_since_nil⟩

section Records
variable {initial : Settings K} {history : List (Event K)} {v : Viewport K}

theorem Records.setText (h : Records initial history v) (measure : TextMeasure K) (text : String) :
    Records initial (history ++ [.operation (.setText measure text)])
      (v.setText measure text).2 where
  settings := by
    rw [settings_setText, h.settings, settingsAfter_concat]
    rfl
  text text' := by
    rw [text_setText, known_concat]
    exact ⟨fun heq => .inl heq, fun hknown => hknown.elim id fun hsince => nomatch hsince.2.1⟩
  lastError err := by
    rw [since_concat]
    by_cases hsame : v.document.text = some text
    · have hknown := (h.text text).mp hsame
      rw [setText_of_remembered hsame measure, h.lastError]
      constructor
      · exact fun hsince => .inr ⟨hsince, fun text' htext' => by cases htext'; exact hknown⟩
      · rintro (⟨text', htext', hnew, _⟩ | ⟨hsince, _⟩)
        · cases htext'
          exact absurd hknown hnew
        · exact hsince
    · have hnew : ¬ Known initial history text := fun hknown => hsame ((h.text text).mpr hknown)
      rw [document_setText, Document.lastError_update_of_ne hsame, h.settings]
      constructor
      · exact fun herr => .inl ⟨text, rfl, hnew, herr⟩
      · rintro (⟨text', htext', _, herr⟩ | ⟨_, hnothing⟩)
        · cases htext'
          exact herr
        · exact absurd (hnothing text rfl) hnew

theorem Records.setSettings (h : Records initial history v) (settings : Settings K) :
    Records initial (history ++ [.operation (.setSettings settings)]) (v.setSettings settings) where
  settings := by
    rw [settingsAfter_concat]
    rfl
  text text := by
    rw [text_setSettings_iff, h.text, known_concat, h.settings]
    constructor
    · exact fun ⟨hknown, hlike⟩ => .inr ⟨hknown, rfl, fun next hnext => by cases hnext; exact hlike⟩
    · rintro (hgiven | ⟨hknown, _, hlike⟩)
      · cases hgiven
      · exact ⟨hknown, hlike settings rfl⟩
  lastError err := by
    rw [lastError_setSettings, h.lastError, since_concat]
    constructor
    · exact fun hsince => .inr ⟨hsince, nofun⟩
    · rintro (⟨_, hgiven, _⟩ | ⟨hsince, _⟩)
      · cases hgiven
      · exact hsince

theorem Records.keep (h : Records initial history v) {event : Event K} (hquiet : event.Quiet)
    {v' : Viewport K} (hdocument : v'.document = v.document) (hsame : v'.settings = v.settings) :
    Records initial (history ++ [event]) v' where
  settings := by
    rw [hsame, h.settings, settingsAfter_concat, hquiet.2]
    rfl
  text text := by
    rw [hdocument, h.text, known_concat, hquiet.1, hquiet.2]
    exact ⟨fun hknown => .inr ⟨hknown, rfl, nofun⟩, fun hknown => hknown.elim nofun And.left⟩
  lastError err := by
    rw [hdocument, h.lastError, since_concat, Refuses, NothingRead, hquiet.1]
    exact ⟨fun hsince => .inr ⟨hsince, nofun⟩,
      fun hsince => hsince.elim (fun ⟨_, htext, _⟩ => nomatch htext) And.left⟩

theorem Records.meet (h : Records initial history v) (event : Event K) :
    Records initial (history ++ [event]) (v.meet event) := by
  rcases meet_cases v event with ⟨measure, text, rfl⟩ | ⟨settings, rfl⟩ |
    ⟨hquiet, hdocument, hsame⟩
  · exact h.setText measure text
  · exact h.setSettings settings
  · exact h.keep hquiet hdocument hsame

end Records

theorem records_meetAll (canvas : Size K) (initial : Settings K) (history : List (Event K)) :
    Records initial history ((new canvas initial).meetAll history) := by
  induction history using List.reverseRecOn with
  | nil => exact records_new canvas initial
  | append_singleton history event ih =>
      rw [meetAll_concat]
      exact ih.meet event

/-- In every history a text is passed over exactly if it is known: if it was given last and the
settings were not told, in parsing or layout, from the ones before them since.  Nothing changes
then.  Every other text is read by the settings of the moment, and tells the answer and the last
error.  Settings that read like those before make no text unknown.  The last error is that of the
last reading, if this failed. -/
theorem reads_iff_not_known (canvas : Size K) (initial : Settings K) (history : List (Event K)) :
    let v := (new canvas initial).meetAll history
    v.settings = settingsAfter initial history ∧
    (∀ measure text, (v.setText measure text).1 = .ok false ↔ Known initial history text) ∧
    (∀ measure text, Known initial history text → (v.setText measure text).2 = v) ∧
    (∀ measure text, ¬ Known initial history text →
      (v.setText measure text).1 = (Expr.parse v.settings.parse text).map (fun _ => true) ∧
      (v.setText measure text).2.document.lastError =
        Expr.readingError? v.settings.parse text) ∧
    (∀ settings, v.settings.ReadsLike settings → (v.setSettings settings).document = v.document ∧
      ∀ text, Known initial (history ++ [.operation (.setSettings settings)]) text ↔
        Known initial history text) ∧
    (∀ err, v.document.lastError = some err ↔
      Since (Refuses initial err) (NothingRead initial) history) := by
  intro v
  have h : Records initial history v := records_meetAll canvas initial history
  refine ⟨h.settings, fun measure text => ?_, fun measure text hknown => ?_,
    fun measure text hnew => ?_, fun settings hlike => ⟨?_, fun text => ?_⟩, h.lastError⟩
  · rw [← h.text]
    rcases setText_cases v measure text with ⟨hsame, heq⟩ | ⟨hnew, err, _, heq⟩ | ⟨hnew, e, _, heq⟩
    · simp [heq, hsame]
    · simp [heq, hnew]
    · simp [heq, hnew]
  · exact congrArg Prod.snd (setText_of_remembered ((h.text text).mpr hknown) measure)
  · have hdiffers : v.document.text ≠ some text := fun hsame => hnew ((h.text text).mp hsame)
    constructor
    · rcases setText_cases v measure text with
        ⟨hsame, _⟩ | ⟨_, err, herr, heq⟩ | ⟨_, e, he, heq⟩
      · exact absurd hsame hdiffers
      · rw [heq, herr]
        rfl
      · rw [heq, he]
        rfl
    · rw [document_setText, Document.lastError_update_of_ne hdiffers]
  · exact document_setSettings hlike.1 hlike.2
  · rw [← (h.setSettings settings).text, ← h.text, text_setSettings_iff]
    exact and_iff_left hlike

end Viewport

end SExprViewer
