import Mathlib.Data.List.InsertIdx
import SExprViewer.Proofs.Expr.Sublists

/-! # Putting an item into a list

`insertAt` puts an item into the list at a path.  Along the path the lists stay where they are
(`listAt?_modifyListAt`), and the labels of a list are among those of the whole expression
(`labels_of_listAt?`). -/
set_option autoImplicit false

namespace SExprViewer.Expr

/-- The list with a number among some items changed, atoms not being counted. -/
def modifyNthList (f : Expr → Expr) : Nat → List Expr → List Expr
  | _, [] => []
  | i, .atom a :: rest => .atom a :: modifyNthList f i rest
  | 0, .list inner :: rest => f (.list inner) :: rest
  | i + 1, .list inner :: rest => .list inner :: modifyNthList f i rest

/-- The expression with the items of the list at a path changed; without such a list it stays as it
is. -/
def modifyListAt (f : List Expr → List Expr) : Path → Expr → Expr
  | _, .atom a => .atom a
  | [], .list items => .list (f items)
  | i :: path, .list items => .list (modifyNthList (modifyListAt f path) i items)

/-- The expression with an item put in at a place of the list at a path. -/
def insertAt (e : Expr) (item : Expr) (place : Nat) (path : Path) : Expr :=
  e.modifyListAt (·.insertIdx place item) path

theorem modifyListAt_atom (f : List Expr → List Expr) (path : Path) (a : Atom) :
    modifyListAt f path (.atom a) = .atom a := by
  cases path <;> rfl

theorem isList_modifyListAt (f : List Expr → List Expr) (path : Path) (e : Expr) :
    (e.modifyListAt f path).isList = e.isList := by
  cases e with
  | atom a => rw [modifyListAt_atom]
  | list items => cases path <;> rfl

theorem getElem?_filter_modifyNthList {f : Expr → Expr} (hf : ∀ e, (f e).isList = e.isList)
    (items : List Expr) : ∀ i, ((modifyNthList f i items).filter isList)[i]? =
      (items.filter isList)[i]?.map f := by
  induction items with
  | nil => intro i; rfl
  | cons item rest ih =>
      intro i
      cases item with
      | atom a => exact ih i
      | list inner =>
          have hlist : (f (.list inner)).isList = true := hf (.list inner)
          cases i with
          | zero =>
              rw [modifyNthList, List.filter_cons_of_pos hlist]
              rfl
          | succ i => exact ih i

theorem listAt?_modifyListAt (f : List Expr → List Expr) (q r : Path) : ∀ e : Expr,
    (e.modifyListAt f (q ++ r)).listAt? q = (e.listAt? q).map (modifyListAt f r) := by
  induction q with
  | nil => intro e; rfl
  | cons i q ih =>
      intro e
      rw [List.cons_append, listAt?_cons, listAt?_cons]
      cases e with
      | atom a => rfl
      | list items =>
          have hchild := getElem?_filter_modifyNthList (isList_modifyListAt f (q ++ r)) items i
          rw [modifyListAt, sublists, content, hchild, sublists, content]
          cases (items.filter isList)[i]? with
          | none => rfl
          | some c => exact ih c

/-! ## Labels -/

theorem mem_labelsAll {text : String} {items : List Expr} :
    text ∈ labelsAll items ↔ ∃ e ∈ items, text ∈ e.labels := by
  induction items with
  | nil => simp [labelsAll]
  | cons e rest ih => simp [labelsAll, ih]

theorem labelsAll_content (e : Expr) : labelsAll e.content = e.labels := by
  cases e with
  | atom a => rw [content, labelsAll, labelsAll, List.append_nil]
  | list items => rw [content, labels]

theorem labels_of_listAt? {text : String} (path : Path) : ∀ {e sub : Expr},
    e.listAt? path = some sub → text ∈ sub.labels → text ∈ e.labels := by
  induction path with
  | nil => intro e sub h htext; cases h; exact htext
  | cons i path ih =>
      intro e sub h htext
      obtain ⟨c, hc, hsub⟩ := Option.bind_eq_some_iff.mp h
      have hmem : c ∈ e.content := (List.mem_filter.mp (List.mem_of_getElem? hc)).1
      rw [← labelsAll_content, mem_labelsAll]
      exact ⟨c, hmem, ih hsub htext⟩

end SExprViewer.Expr
