import SExprViewer.Expr.Printer
import SExprViewer.Proofs.Expr.Atoms
import SExprViewer.Tree.Basic

/-! # The lists in an expression

A path leads from an expression into the lists among its items, atoms not being counted, and is
shorter than the expression is deep (`length_lt_of_listAt?`).  An atom is taken for a list of one
item.  `unquoted` has symbols in place of the quoted texts, and so is written without the quotes
around them. -/
set_option autoImplicit false

namespace SExprViewer

namespace Atom

/-- A quoted text becomes the symbol of the same characters. -/
def unquoted : Atom → Atom
  | .text s => .symbol ⟨s⟩
  | a => a

theorem write_unquoted (a : Atom) : a.unquoted.write = a.label := by
  cases a <;> rfl

end Atom

namespace Expr

/-- The items of a list; an atom is its own only item. -/
def content : Expr → List Expr
  | .list items => items
  | .atom a => [.atom a]

/-- The lists among the items. -/
def sublists (e : Expr) : List Expr := e.content.filter isList

/-- The list that a path leads to, the empty path to the expression itself. -/
def listAt? (e : Expr) : Path → Option Expr
  | [] => some e
  | i :: path => e.sublists[i]?.bind (·.listAt? path)

theorem listAt?_cons (e : Expr) (i : Nat) (path : Path) :
    e.listAt? (i :: path) = e.sublists[i]?.bind (·.listAt? path) := rfl

theorem depth_le_depthAll {e : Expr} {items : List Expr} (h : e ∈ items) :
    e.depth ≤ depthAll items := by
  induction items with
  | nil => cases h
  | cons item rest ih =>
      rw [depthAll]
      rcases List.mem_cons.mp h with rfl | h
      · exact Nat.le_max_left ..
      · exact Nat.le_trans (ih h) (Nat.le_max_right ..)

theorem depth_lt_of_mem_sublists {e sub : Expr} (h : sub ∈ e.sublists) : sub.depth < e.depth := by
  obtain ⟨hmem, hlist⟩ := List.mem_filter.mp h
  cases e with
  | atom a =>
      cases List.mem_singleton.mp hmem
      cases hlist
  | list items =>
      have hle : sub.depth ≤ depthAll items := depth_le_depthAll hmem
      rw [depth]
      omega

theorem length_lt_of_listAt? (path : Path) : ∀ {e sub : Expr}, e.isList = true →
    e.listAt? path = some sub → path.length < e.depth := by
  induction path with
  | nil =>
      intro e sub hlist _
      cases e with
      | atom a => cases hlist
      | list items => exact Nat.lt_add_right _ Nat.one_pos
  | cons i path ih =>
      intro e sub _ h
      obtain ⟨c, hc, hsub⟩ := Option.bind_eq_some_iff.mp h
      have hmem : c ∈ e.sublists := List.mem_of_getElem? hc
      have hpath := ih (List.mem_filter.mp hmem).2 hsub
      have hdepth := depth_lt_of_mem_sublists hmem
      rw [List.length_cons]
      omega

/-! ## Without quotes -/

mutual

/-- The expression with symbols in place of its quoted texts. -/
def unquoted : Expr → Expr
  | .atom a => .atom a.unquoted
  | .list items => .list (unquotedAll items)

def unquotedAll : List Expr → List Expr
  | [] => []
  | e :: rest => e.unquoted :: unquotedAll rest

end

theorem write_atom_unquoted (a : Atom) : (unquoted (.atom a)).write = a.label := by
  rw [unquoted, write, Atom.write_unquoted]

end Expr

end SExprViewer
