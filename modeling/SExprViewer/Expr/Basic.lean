import SExprViewer.Number.Text

/-! # Expressions

An expression is an atom or a list of expressions.  Atoms are symbols, numbers and quoted
texts; a text is held without its quotes and has no escapes.  Two expressions are the
same when their shapes and atoms agree, numbers being compared as doubles: NaN differs
from itself and the two zeros are equal. -/
set_option autoImplicit false

namespace SExprViewer

/-- A bare word. -/
structure Symbol where
  name : String
deriving DecidableEq, Repr

/-- A symbol as it is quoted in diagnostics. -/
def Symbol.quoted (s : Symbol) : String := "'" ++ s.name

inductive Atom where
  | symbol (s : Symbol)
  | number (value : Float)
  | text (value : String)

inductive Expr where
  | atom (a : Atom)
  | list (items : List Expr)

namespace Atom

/-- The text shown for an atom in a node: quotes are not shown, and zero has no sign. -/
def label : Atom → List Char
  | .symbol s => s.name.toList
  | .number x => if x == 0 then ['0'] else plainText x
  | .text s => s.toList

def same : Atom → Atom → Bool
  | .symbol s, .symbol t => s = t
  | .number x, .number y => x == y
  | .text s, .text t => s = t
  | _, _ => false

end Atom

namespace Expr

instance : Inhabited Expr := ⟨.list []⟩

def isList : Expr → Bool
  | .list _ => true
  | .atom _ => false

/-- The items of a list. -/
def items? : Expr → Option (List Expr)
  | .list items => some items
  | .atom _ => none

mutual

/-- The number of lists, the expression itself included. -/
def listCount : Expr → Nat
  | .atom _ => 0
  | .list items => 1 + listCountAll items

def listCountAll : List Expr → Nat
  | [] => 0
  | e :: rest => e.listCount + listCountAll rest

end

mutual

/-- How deep lists nest: 0 for an atom, 1 for the empty list. -/
def depth : Expr → Nat
  | .atom _ => 0
  | .list items => 1 + depthAll items

def depthAll : List Expr → Nat
  | [] => 0
  | e :: rest => max e.depth (depthAll rest)

end

mutual

def same : Expr → Expr → Bool
  | .atom a, .atom b => a.same b
  | .list xs, .list ys => sameAll xs ys
  | _, _ => false

def sameAll : List Expr → List Expr → Bool
  | [], [] => true
  | x :: xs, y :: ys => x.same y && sameAll xs ys
  | _, _ => false

end

mutual

/-- The labels of the atoms, in the order of the text. -/
def labels : Expr → List String
  | .atom a => [String.ofList a.label]
  | .list items => labelsAll items

def labelsAll : List Expr → List String
  | [] => []
  | e :: rest => e.labels ++ labelsAll rest

end

end Expr

end SExprViewer
