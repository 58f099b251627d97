/-! # JSON values

An object keeps its members in the order of the text, repeated names included.  A whole
number without sign, fraction or exponent that fits 64 bits is `natural`; every other
number is `real`.  `valueless` is well-formed text that stands for nothing: a number
beyond the largest double, or a string with an unpaired surrogate. -/
set_option autoImplicit false

namespace SExprViewer

inductive Json where
  | null
  | bool (value : Bool)
  | natural (value : Nat)
  | real (value : Float)
  | string (value : String)
  | array (items : List Json)
  | object (members : List (String × Json))
  | valueless
deriving Inhabited

end SExprViewer
