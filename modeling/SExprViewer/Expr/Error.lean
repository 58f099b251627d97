import SExprViewer.Text.Position

/-! # Syntax errors

What can be wrong with a source text, and where. -/
set_option autoImplicit false

namespace SExprViewer

inductive SyntaxFault where
  | unexpectedEnd (expected : Char)
  | unterminated (quote : Char)
  | expectedList
  /-- A list opens inside `limit` others. -/
  | tooDeep (limit : Nat)
deriving DecidableEq, Repr

structure SyntaxError where
  fault : SyntaxFault
  position : Position
deriving DecidableEq, Repr

namespace SyntaxError

def message (e : SyntaxError) : String :=
  let place := s!"line {e.position.line}, column {e.position.column}"
  match e.fault with
  | .unexpectedEnd expected =>
    "unexpected end of input at " ++ place ++ ": expected `" ++ expected.toString ++ "`"
  | .unterminated quote =>
    "unterminated string starting at " ++ place ++ ": missing closing `" ++ quote.toString ++ "`"
  | .expectedList => "expected `(` at " ++ place
  | .tooDeep limit => s!"nesting deeper than {limit} levels at " ++ place

end SyntaxError

end SExprViewer
