/-! # Positions in a text

Lines and columns are counted from one, columns in characters.  A line feed ends its
line; every other character, a carriage return included, takes one column. -/
set_option autoImplicit false

namespace SExprViewer

structure Position where
  line : Nat
  column : Nat
deriving DecidableEq, Repr

namespace Position

def start : Position := ⟨1, 1⟩

/-- The position behind `c`, when `c` stands at `p`. -/
def next (p : Position) (c : Char) : Position :=
  if c = '\n' then ⟨p.line + 1, 1⟩ else ⟨p.line, p.column + 1⟩

/-- The position behind the first `offset` characters; past the end, that of the end. -/
def ofOffset (source : List Char) (offset : Nat) : Position :=
  (source.take offset).foldl next start

end Position

end SExprViewer
