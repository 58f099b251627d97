import SExprViewer.Expr.Basic

/-! # The atoms of an expression

`items_induction` takes the items of a list one by one, a list among them together with its
own items.  Expressions that are the same nest equally deep. -/
set_option autoImplicit false

namespace SExprViewer.Expr

mutual

/-- The atoms in the order of the text. -/
def atoms : Expr → List Atom
  | .atom a => [a]
  | .list items => atomsAll items

def atomsAll : List Expr → List Atom
  | [] => []
  | e :: rest => e.atoms ++ atomsAll rest

end

@[elab_as_elim]
theorem items_induction {motive : List Expr → Prop} (nil : motive [])
    (atom : ∀ a rest, motive rest → motive (.atom a :: rest))
    (list : ∀ inner rest, motive inner → motive rest → motive (.list inner :: rest)) :
    ∀ items, motive items
  | [] => nil
  | .atom a :: rest => atom a rest (items_induction nil atom list rest)
  | .list inner :: rest =>
      list inner rest (items_induction nil atom list inner) (items_induction nil atom list rest)

theorem mem_atomsAll_atom {a b : Atom} {rest : List Expr} :
    b ∈ atomsAll (.atom a :: rest) ↔ b = a ∨ b ∈ atomsAll rest := by
  simp [atomsAll, atoms]

theorem mem_atomsAll_list {b : Atom} {inner rest : List Expr} :
    b ∈ atomsAll (.list inner :: rest) ↔ b ∈ atomsAll inner ∨ b ∈ atomsAll rest := by
  simp [atomsAll, atoms]

theorem sameAll_nil_iff {ys : List Expr} : sameAll [] ys = true ↔ ys = [] := by
  cases ys <;> simp [sameAll]

theorem exists_of_sameAll_atom {a : Atom} {xs ys : List Expr}
    (h : sameAll (.atom a :: xs) ys = true) :
    ∃ b rest, ys = .atom b :: rest ∧ a.same b = true ∧ sameAll xs rest = true := by
  cases ys with
  | nil => cases h
  | cons y rest =>
      cases y with
      | atom b =>
          simp only [sameAll, same, Bool.and_eq_true] at h
          exact ⟨b, rest, rfl, h⟩
      | list items => simp [sameAll, same] at h

theorem exists_of_sameAll_list {inner xs ys : List Expr}
    (h : sameAll (.list inner :: xs) ys = true) :
    ∃ items rest, ys = .list items :: rest ∧ sameAll inner items = true ∧
      sameAll xs rest = true := by
  cases ys with
  | nil => cases h
  | cons y rest =>
      cases y with
      | atom b => simp [sameAll, same] at h
      | list items =>
          simp only [sameAll, same, Bool.and_eq_true] at h
          exact ⟨items, rest, rfl, h⟩

theorem depthAll_eq_of_sameAll (xs : List Expr) :
    ∀ ys, sameAll xs ys = true → depthAll xs = depthAll ys := by
  induction xs using items_induction with
  | nil =>
      intro ys h
      rw [sameAll_nil_iff.mp h]
  | atom a xs ih =>
      intro ys h
      obtain ⟨b, rest, rfl, _, hrest⟩ := exists_of_sameAll_atom h
      simp only [depthAll, depth, ih rest hrest]
  | list inner xs ihInner ih =>
      intro ys h
      obtain ⟨items, rest, rfl, hitems, hrest⟩ := exists_of_sameAll_list h
      simp only [depthAll, depth, ihInner items hitems, ih rest hrest]

end SExprViewer.Expr
