import SExprViewer.Expr.Parser

/-! # The edited source

A document remembers the text it was last given and the error of the last reading, if that
failed.  The same text twice is read once. -/
set_option autoImplicit false

namespace SExprViewer

structure Document where
  text : Option String
  lastError : Option SyntaxError
deriving DecidableEq, Repr

namespace Document

/-- What an update found. -/
inductive Outcome where
  | unchanged
  | parsed (e : Expr)
  | failed (e : SyntaxError)

def empty : Document := ⟨none, none⟩

def update (d : Document) (settings : ParseSettings) (text : String) : Outcome × Document :=
  if d.text = some text then (.unchanged, d)
  else
    match Expr.parse settings text with
    | .ok e => (.parsed e, ⟨some text, none⟩)
    | .error e => (.failed e, ⟨some text, some e⟩)

/-- Forgets the text, so that the next update reads it again. -/
def invalidate (d : Document) : Document := { d with text := none }

end Document

end SExprViewer
