import SExprViewer.Expr.Basic
import SExprViewer.Json.Writer

/-! # Writing expressions

The canonical text separates items by one space.  A quoted text that holds a double quote
is written in single quotes, every other one in double quotes.  As JSON, lists are arrays,
numbers are numbers, symbols and texts are strings. -/
set_option autoImplicit false

namespace SExprViewer

namespace Atom

def write : Atom → List Char
  | .text s =>
    let quote := if s.toList.contains '"' then '\'' else '"'
    quote :: (s.toList ++ [quote])
  | a => a.label

def toJson : Atom → Json
  | .symbol s => .string s.name
  | .number x => .real x
  | .text s => .string s

end Atom

namespace Expr

mutual

def write : Expr → List Char
  | .atom a => a.write
  | .list items => '(' :: writeItems items

/-- The items of a list and its closing parenthesis. -/
def writeItems : List Expr → List Char
  | [] => [')']
  | [e] => e.write ++ [')']
  | e :: rest => e.write ++ ' ' :: writeItems rest

end

/-- The canonical text. -/
def render (e : Expr) : String := String.ofList e.write

mutual

def toJson : Expr → Json
  | .atom a => a.toJson
  | .list items => .array (toJsonAll items)

def toJsonAll : List Expr → List Json
  | [] => []
  | e :: rest => e.toJson :: toJsonAll rest

end

end Expr

end SExprViewer
