import SExprViewer.Expr.Report
import SExprViewer.Proofs.Expr.Atoms
import SExprViewer.Proofs.Json.Conformance

/-! # What the reports say

Both reports are texts of standard JSON and of one datum only, so no reader takes them for anything
else.  They say `ok` exactly if the source is an expression; then the tree mirrors it, and else both
are the same text, with the position and the message of the error (`reports_readsOnlyAs`). -/
set_option autoImplicit false

namespace SExprViewer

namespace Json

/-- A text is standard JSON for this datum and for no other. -/
def ReadsOnlyAs (text : String) (d : Datum) : Prop := ∀ d', Denotes text.toList d' ↔ d' = d

theorem readsOnlyAs_of_denotes {j : Json} {d : Datum} (h : Denotes j.write d) :
    ReadsOnlyAs j.render d := by
  intro d'
  rw [render, String.toList_ofList]
  refine ⟨fun h' => h'.unique h, ?_⟩
  rintro rfl
  exact h

/-- The first member of this name. -/
def Datum.field? (name : String) : Datum → Option Datum
  | .object members => members.lookup name
  | _ => none

end Json

namespace Expr

open Json (Datum Denotes ReadsOnlyAs)

/-- A datum mirrors an expression: the items of a list in their order, the text of a symbol and of
a quoted text, and a decimal that rounds to a number, or nothing if the number is not finite. -/
inductive Mirrors : Expr → Datum → Prop
  | symbol (s : Symbol) : Mirrors (.atom (.symbol s)) (.string s.name)
  | text (s : String) : Mirrors (.atom (.text s)) (.string s)
  | number {x : Float} {d : Decimal} (hx : x.isFinite = true) (hd : d.toFloat = x) :
      Mirrors (.atom (.number x)) (.number d)
  | notFinite {x : Float} (hx : x.isFinite ≠ true) : Mirrors (.atom (.number x)) .null
  | list {items : List Expr} {ds : List Datum} (h : List.Forall₂ Mirrors items ds) :
      Mirrors (.list items) (.array ds)

theorem exists_mirrors_atom (a : Atom) : ∃ d, Mirrors (.atom a) d ∧ Denotes a.toJson.write d := by
  cases a with
  | symbol s => exact ⟨_, .symbol s, Json.denotes_string s.name⟩
  | text s => exact ⟨_, .text s, Json.denotes_string s⟩
  | number x =>
      by_cases hx : x.isFinite = true
      · obtain ⟨d, hnumber, hd⟩ := Json.exists_isNumber_realText hx
        exact ⟨_, .number hx hd, Json.denotes_scalar (.number hnumber)⟩
      · have hnull : (Atom.number x).toJson.write = Json.null.write :=
          Json.realText_of_not_finite hx
        exact ⟨_, .notFinite hx, hnull ▸ Json.denotes_null⟩

theorem exists_mirrors_items (items : List Expr) : ∃ ds, List.Forall₂ Mirrors items ds ∧
    List.Forall₂ (fun j d => Denotes j.write d) (toJsonAll items) ds := by
  induction items using items_induction with
  | nil => exact ⟨[], .nil, .nil⟩
  | atom a rest ih =>
      obtain ⟨d, hmirrors, hdenotes⟩ := exists_mirrors_atom a
      obtain ⟨ds, hrest, hrestDenotes⟩ := ih
      exact ⟨d :: ds, .cons hmirrors hrest, .cons hdenotes hrestDenotes⟩
  | list inner rest ihInner ih =>
      obtain ⟨inside, hinside, hinsideDenotes⟩ := ihInner
      obtain ⟨ds, hrest, hrestDenotes⟩ := ih
      exact ⟨.array inside :: ds, .cons (.list hinside) hrest,
        .cons (Json.denotes_array hinsideDenotes) hrestDenotes⟩

/-- What is written of an expression denotes a mirror of it. -/
theorem exists_mirrors (e : Expr) : ∃ d, Mirrors e d ∧ Denotes e.toJson.write d := by
  obtain ⟨ds, hmirrors, hdenotes⟩ := exists_mirrors_items [e]
  cases hmirrors with
  | cons hmirrors _ =>
      cases hdenotes with
      | cons hdenotes _ => exact ⟨_, hmirrors, hdenotes⟩

/-- A report says `ok`. -/
def SaysOk (report : String) : Prop :=
  ∃ d, Denotes report.toList d ∧ d.field? "ok" = some (.bool true)

theorem saysOk_iff {report : String} {d : Datum} (h : ReadsOnlyAs report d) :
    SaysOk report ↔ d.field? "ok" = some (.bool true) := by
  constructor
  · rintro ⟨d', hd', hok⟩
    rwa [(h d').mp hd'] at hok
  · exact fun hok => ⟨d, (h d).mpr rfl, hok⟩

/-- What is reported of an error: its message and its position. -/
def errorDatum (err : SyntaxError) : Datum := .object [
  ("column", .number (.ofNat err.position.column)),
  ("error", .string err.message),
  ("line", .number (.ofNat err.position.line)),
  ("ok", .bool false)]

theorem denotes_error (err : SyntaxError) : Denotes err.toJson.write (errorDatum err) :=
  Json.denotes_object <| .cons ⟨rfl, Json.denotes_natural _⟩ <|
    .cons ⟨rfl, Json.denotes_string _⟩ <| .cons ⟨rfl, Json.denotes_natural _⟩ <|
    .cons ⟨rfl, Json.denotes_bool false⟩ .nil

theorem validityReport_ok {source : String} {e : Expr} (h : parse .standard source = .ok e) :
    ReadsOnlyAs (validityReport source) (.object [("ok", .bool true)]) := by
  rw [validityReport, h]
  exact Json.readsOnlyAs_of_denotes
    (Json.denotes_object (.cons ⟨rfl, Json.denotes_bool true⟩ .nil))

theorem treeReport_ok {source : String} {e : Expr} (h : parse .standard source = .ok e) :
    ∃ tree, Mirrors e tree ∧
      ReadsOnlyAs (treeReport source) (.object [("ok", .bool true), ("tree", tree)]) := by
  obtain ⟨tree, hmirrors, hdenotes⟩ := exists_mirrors e
  refine ⟨tree, hmirrors, ?_⟩
  rw [treeReport, h]
  exact Json.readsOnlyAs_of_denotes
    (Json.denotes_object (.cons ⟨rfl, Json.denotes_bool true⟩ (.cons ⟨rfl, hdenotes⟩ .nil)))

theorem reports_error {source : String} {err : SyntaxError}
    (h : parse .standard source = .error err) :
    treeReport source = validityReport source ∧
      ReadsOnlyAs (validityReport source) (errorDatum err) := by
  rw [treeReport, validityReport, h]
  exact ⟨rfl, Json.readsOnlyAs_of_denotes (denotes_error err)⟩

/-- Both reports say `ok` exactly if the source is an expression.  Then the tree that a standard
reader finds mirrors the expression; else both reports are one text, which says what is wrong and
where. -/
theorem reports_readsOnlyAs (source : String) :
    (SaysOk (validityReport source) ↔ ∃ e, parse .standard source = .ok e) ∧
    (SaysOk (treeReport source) ↔ ∃ e, parse .standard source = .ok e) ∧
    match parse .standard source with
    | .ok e =>
      ReadsOnlyAs (validityReport source) (.object [("ok", .bool true)]) ∧
        ∃ tree, Mirrors e tree ∧
          ReadsOnlyAs (treeReport source) (.object [("ok", .bool true), ("tree", tree)])
    | .error err =>
      treeReport source = validityReport source ∧
        ReadsOnlyAs (validityReport source) (errorDatum err) := by
  cases h : parse .standard source with
  | ok e =>
      have hvalidity := validityReport_ok h
      obtain ⟨tree, hmirrors, htree⟩ := treeReport_ok h
      have hok : ∃ e', (Except.ok e : Except SyntaxError Expr) = .ok e' := ⟨e, rfl⟩
      exact ⟨iff_of_true ((saysOk_iff hvalidity).mpr rfl) hok,
        iff_of_true ((saysOk_iff htree).mpr rfl) hok, hvalidity, tree, hmirrors, htree⟩
  | error err =>
      obtain ⟨heq, herror⟩ := reports_error h
      have hnot : ¬ ∃ e, (Except.error err : Except SyntaxError Expr) = .ok e := nofun
      have hsays : ¬ SaysOk (validityReport source) := by
        rw [saysOk_iff herror]
        nofun
      exact ⟨iff_of_false hsays hnot, iff_of_false (heq ▸ hsays) hnot, heq, herror⟩

end Expr

end SExprViewer
