/-! # Object identities

Identities are handed out by counting: whoever makes objects carries the next free one
along. -/
set_option autoImplicit false

namespace SExprViewer

structure ObjectId where
  number : Nat
deriving DecidableEq, Repr

namespace ObjectId

def first : ObjectId := ⟨0⟩

def next (i : ObjectId) : ObjectId := ⟨i.number + 1⟩

/-- The next `count` identities, and the one after them. -/
def allocate : Nat → ObjectId → List ObjectId × ObjectId
  | 0, i => ([], i)
  | count + 1, i =>
    let (ids, last) := allocate count i.next
    (i :: ids, last)

def text (i : ObjectId) : String := s!"#{i.number}"

end ObjectId

end SExprViewer
