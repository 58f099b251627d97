import SExprViewer.Expr.Parser
import SExprViewer.Expr.Printer

/-! # Reports on a source text

`validityReport` says as JSON whether a text is well formed, `treeReport` also what it holds.
Members stand in alphabetical order. -/
set_option autoImplicit false

namespace SExprViewer

def SyntaxError.toJson (e : SyntaxError) : Json := .object [
  ("column", .natural e.position.column),
  ("error", .string e.message),
  ("line", .natural e.position.line),
  ("ok", .bool false)]

namespace Expr

def validityReport (source : String) : String :=
  Json.render <| match parse .standard source with
    | .ok _ => .object [("ok", .bool true)]
    | .error e => e.toJson

def treeReport (source : String) : String :=
  Json.render <| match parse .standard source with
    | .ok e => .object [("ok", .bool true), ("tree", e.toJson)]
    | .error e => e.toJson

end Expr

end SExprViewer
