import SExprViewer.Text.Position
import Mathlib.Data.List.Induction

/-! # Positions by counting

A line number counts the line feeds before a character, a column the characters since the
last of them, both from one.  Positions ascend along a text (`counted_before`). -/
set_option autoImplicit false

namespace SExprViewer.Position

/-- The position of the character behind `before`. -/
def counted (before : List Char) : Position :=
  ⟨1 + before.count '\n', 1 + (before.reverse.takeWhile (· != '\n')).length⟩

theorem counted_concat (before : List Char) (c : Char) :
    counted (before ++ [c]) = next (counted before) c := by
  by_cases hc : c = '\n'
  · subst hc
    simp [counted, next, Nat.add_assoc]
  · simp [counted, next, hc, Nat.add_assoc]

theorem foldl_next_start (before : List Char) : before.foldl next start = counted before := by
  induction before using List.reverseRecOn with
  | nil => rfl
  | append_singleton before c ih => rw [List.foldl_append, ih, counted_concat]; rfl

theorem ofOffset_eq (source : List Char) (offset : Nat) :
    ofOffset source offset = counted (source.take offset) :=
  foldl_next_start (source.take offset)

/-! ## Earlier and later -/

/-- On an earlier line, or in an earlier column of the same line. -/
def Before (p q : Position) : Prop := p.line < q.line ∨ p.line = q.line ∧ p.column < q.column

theorem Before.trans {p q r : Position} (h : p.Before q) (h' : q.Before r) : p.Before r := by
  unfold Before at *
  omega

theorem before_next (p : Position) (c : Char) : p.Before (p.next c) := by
  unfold Before next
  split
  · exact .inl (Nat.lt_succ_self _)
  · exact .inr ⟨rfl, Nat.lt_succ_self _⟩

theorem counted_before (before : List Char) {more : List Char} (h : more ≠ []) :
    (counted before).Before (counted (before ++ more)) := by
  induction more using List.reverseRecOn with
  | nil => exact absurd rfl h
  | append_singleton more c ih =>
      rw [← List.append_assoc, counted_concat]
      by_cases hmore : more = []
      · subst hmore
        rw [List.append_nil]
        exact before_next _ c
      · exact (ih hmore).trans (before_next _ c)

theorem counted_take_le (source : List Char) {offset offset' : Nat} (h : offset ≤ offset') :
    counted (source.take offset) = counted (source.take offset') ∨
      (counted (source.take offset)).Before (counted (source.take offset')) := by
  obtain ⟨k, rfl⟩ := Nat.exists_eq_add_of_le h
  rw [List.take_add]
  by_cases hmore : (source.drop offset).take k = []
  · rw [hmore, List.append_nil]
    exact .inl rfl
  · exact .inr (counted_before _ hmore)

end SExprViewer.Position
