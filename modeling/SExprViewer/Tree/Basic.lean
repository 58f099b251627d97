/-! # Trees and paths

A node carries a value and any number of children.  A path leads from the root to a node by
child indices; the empty path is the root. -/
set_option autoImplicit false

namespace SExprViewer

abbrev Path := List Nat

inductive Tree (α : Type) where
  | node (value : α) (children : List (Tree α))

namespace Tree

variable {α β : Type}

def value : Tree α → α
  | .node a _ => a

def children : Tree α → List (Tree α)
  | .node _ cs => cs

mutual

/-- The number of nodes. -/
def size : Tree α → Nat
  | .node _ cs => 1 + sizeAll cs

def sizeAll : List (Tree α) → Nat
  | [] => 0
  | t :: rest => t.size + sizeAll rest

end

mutual

def map (f : α → β) : Tree α → Tree β
  | .node a cs => .node (f a) (mapAll f cs)

def mapAll (f : α → β) : List (Tree α) → List (Tree β)
  | [] => []
  | t :: rest => t.map f :: mapAll f rest

end

mutual

/-- The values, every node before its children and these from left to right. -/
def preorder : Tree α → List α
  | .node a cs => a :: preorderAll cs

def preorderAll : List (Tree α) → List α
  | [] => []
  | t :: rest => t.preorder ++ preorderAll rest

end

/-- The subtree at a path. -/
def at? (t : Tree α) : Path → Option (Tree α)
  | [] => some t
  | i :: path => t.children[i]?.bind (·.at? path)

/-- The tree with the subtree at a path changed; without such a node it stays as it is. -/
def modifyAt (f : Tree α → Tree α) : Path → Tree α → Tree α
  | [], t => f t
  | i :: path, .node a cs => .node a (cs.modify i (modifyAt f path))

/-- The tree with the value of its root changed. -/
def modifyRoot (f : α → α) : Tree α → Tree α
  | .node a cs => .node (f a) cs

end Tree

end SExprViewer
