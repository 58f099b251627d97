/-! # Frame requests

A host runs frames on request.  A request is answered with a handle, by which it can be
cancelled.  `FrameQueue` is a host that hands out 1, 2, 3, … -/
set_option autoImplicit false

namespace SExprViewer

structure FrameHost (σ : Type) where
  request : σ → Nat × σ
  cancel : Nat → σ → σ

structure FrameQueue where
  /-- The number of requests so far, also the last handle. -/
  issued : Nat
  outstanding : List Nat
  /-- Handles that were cancelled, outstanding or not. -/
  cancelled : List Nat
deriving DecidableEq, Repr

namespace FrameQueue

def empty : FrameQueue := ⟨0, [], []⟩

def request (q : FrameQueue) : Nat × FrameQueue :=
  let handle := q.issued + 1
  (handle, { q with issued := handle, outstanding := q.outstanding ++ [handle] })

def cancel (handle : Nat) (q : FrameQueue) : FrameQueue :=
  { q with
    outstanding := q.outstanding.erase handle
    cancelled := q.cancelled ++ [handle] }

def fire (handle : Nat) (q : FrameQueue) : FrameQueue :=
  { q with outstanding := q.outstanding.erase handle }

def host : FrameHost FrameQueue := ⟨request, cancel⟩

end FrameQueue

end SExprViewer
