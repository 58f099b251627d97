import Mathlib.Data.Multiset.AddSub
import SExprViewer.Stage.Basic

/-! # Requests for frames

The stage and its host take turns: the stage asks for frames and takes requests back, the host
runs frames that were asked for, in any order and at any time.  Whatever the order of the turns,
a running stage has one request outstanding, the one it remembers, and a stopped stage has none
(`outstanding_eq_pending`).  Handles may be used again. -/
set_option autoImplicit false

namespace SExprViewer

variable {K σ : Type}

/-- The host knows which requests are outstanding: asking adds one, and cancelling a handle takes
one with this handle away. -/
structure FrameHost.Tracks (host : FrameHost σ) (outstanding : σ → Multiset Nat) : Prop where
  request : ∀ w, outstanding (host.request w).2 = (host.request w).1 ::ₘ outstanding w
  cancel : ∀ handle w, outstanding (host.cancel handle w) = (outstanding w).erase handle

theorem FrameQueue.tracks_host : host.Tracks fun q => (q.outstanding : Multiset Nat) where
  request q := by
    change ((q.outstanding ++ [q.issued + 1] : List Nat) : Multiset Nat) = _
    rw [← Multiset.coe_add, Multiset.add_comm]
    rfl
  cancel handle q := (Multiset.coe_erase _ _).symm

namespace Stage

variable {host : FrameHost σ} {outstanding : σ → Multiset Nat} {s : Stage K} {w w' : σ}

/-! ## The pending request -/

/-- What the stage remembers is what the host has outstanding. -/
structure InStep (outstanding : σ → Multiset Nat) (s : Stage K) (w : σ) : Prop where
  running : s.running = s.pending.isSome
  outstanding : outstanding w = s.pending.toList

theorem cancelPending_fst (host : FrameHost σ) (s : Stage K) (w : σ) :
    (s.cancelPending host w).1 = { s with pending := none } := by
  unfold cancelPending
  split
  · rename_i hnone
    rw [← hnone]
  · rfl

theorem InStep.cancelPending (hhost : host.Tracks outstanding) (h : InStep outstanding s w) :
    outstanding (s.cancelPending host w).2 = 0 := by
  have hout := h.outstanding
  unfold Stage.cancelPending
  split
  · rename_i hnone
    rw [hnone] at hout
    exact hout
  · rename_i handle hsome
    rw [hsome] at hout
    rw [hhost.cancel, hout]
    exact Multiset.erase_singleton handle

theorem InStep.requestFrame (hhost : host.Tracks outstanding) (hrunning : s.running = true)
    (hnone : outstanding w = 0) :
    InStep outstanding (s.requestFrame host w).1 (s.requestFrame host w).2 where
  running := hrunning
  outstanding := by
    change outstanding (host.request w).2 = ((host.request w).1 ::ₘ 0)
    rw [hhost.request, hnone]

theorem InStep.run (hhost : host.Tracks outstanding) (h : InStep outstanding s w) (now : K) :
    InStep outstanding (s.run host now w).1 (s.run host now w).2 :=
  InStep.requestFrame hhost rfl (h.cancelPending hhost)

theorem InStep.stop (hhost : host.Tracks outstanding) (h : InStep outstanding s w) :
    InStep outstanding (s.stop host w).1 (s.stop host w).2 where
  running := by
    change false = (s.cancelPending host w).1.pending.isSome
    rw [cancelPending_fst]
    rfl
  outstanding := by
    change outstanding (s.cancelPending host w).2 = (s.cancelPending host w).1.pending.toList
    rw [cancelPending_fst, h.cancelPending hhost]
    rfl

/-! ## Turns -/

variable [Scalar K]

/-- The host runs a frame at the time `t`; a stage that is stopped passes over it. -/
def answerFrame (host : FrameHost σ) (t : K) (s : Stage K) (w : σ) : Stage K × σ :=
  match s.frame? host t w with
  | some (s', w', _) => (s', w')
  | none => (s, w)

/-- The states that a new stage and its host get to. -/
inductive Reached (host : FrameHost σ) (outstanding : σ → Multiset Nat) (canvas : Size K) :
    Stage K → σ → Prop
  | new {w : σ} (hnone : outstanding w = 0) : Reached host outstanding canvas (.new canvas) w
  | run {s : Stage K} {w : σ} (now : K) (h : Reached host outstanding canvas s w) :
      Reached host outstanding canvas (s.run host now w).1 (s.run host now w).2
  | stop {s : Stage K} {w : σ} (h : Reached host outstanding canvas s w) :
      Reached host outstanding canvas (s.stop host w).1 (s.stop host w).2
  /-- The host takes a request off, whichever it likes, and runs its frame. -/
  | fire {s : Stage K} {w w' : σ} (handle : Nat) (t : K) (h : Reached host outstanding canvas s w)
      (hhandle : handle ∈ outstanding w) (hw' : outstanding w' = (outstanding w).erase handle) :
      Reached host outstanding canvas (s.answerFrame host t w').1 (s.answerFrame host t w').2
  /-- Actors, camera and theme change, and the host goes about its business. -/
  | change {s s' : Stage K} {w w' : σ} (h : Reached host outstanding canvas s w)
      (hrunning : s'.running = s.running) (hpending : s'.pending = s.pending)
      (hw' : outstanding w' = outstanding w) : Reached host outstanding canvas s' w'

theorem InStep.fire (hhost : host.Tracks outstanding) (h : InStep outstanding s w) {handle : Nat}
    (hhandle : handle ∈ outstanding w) (hw' : outstanding w' = (outstanding w).erase handle)
    (t : K) : InStep outstanding (s.answerFrame host t w').1 (s.answerFrame host t w').2 := by
  have hout := h.outstanding
  cases hpending : s.pending with
  | none =>
      -- nothing is outstanding that could be run
      rw [hout, hpending] at hhandle
      cases hhandle
  | some pending =>
      have hrunning : s.running = true := by rw [h.running, hpending]; rfl
      rw [hpending] at hout
      replace hout : outstanding w = {pending} := hout
      have hnone : outstanding w' = 0 := by
        rw [hout, Multiset.mem_singleton] at hhandle
        rw [hw', hout, hhandle, Multiset.erase_singleton]
      have hasked := InStep.requestFrame hhost hrunning hnone
      unfold answerFrame frame?
      rw [if_pos hrunning]
      exact ⟨hasked.running, hasked.outstanding⟩

theorem Reached.inStep (hhost : host.Tracks outstanding) {canvas : Size K}
    (h : Reached host outstanding canvas s w) : InStep outstanding s w := by
  induction h with
  | new hnone => exact ⟨rfl, hnone⟩
  | run now _ ih => exact ih.run hhost now
  | stop _ ih => exact ih.stop hhost
  | fire handle t _ hhandle hw' ih => exact ih.fire hhost hhandle hw' t
  | change _ hrunning hpending hw' ih =>
      refine ⟨?_, ?_⟩
      · rw [hrunning, hpending]
        exact ih.running
      · rw [hw', hpending]
        exact ih.outstanding

theorem frame?_stopped (hstopped : s.running = false) (host : FrameHost σ) (t : K) (w : σ) :
    s.frame? host t w = none := by
  rw [frame?, hstopped]
  rfl

/-- However the stage and its host take turns, exactly the pending request is outstanding while
the loop runs, and none when it does not.  So there is one loop at most; stopping takes back what
is scheduled, and stopping again does nothing; a stopped stage asks for no frame and draws none. -/
theorem outstanding_eq_pending (hhost : host.Tracks outstanding) {canvas : Size K}
    (h : Reached host outstanding canvas s w) :
    (s.running = true → ∃ handle, s.pending = some handle ∧ outstanding w = {handle}) ∧
    (s.running = false → s.pending = none ∧ outstanding w = 0 ∧
      ∀ t w', s.frame? host t w' = none) ∧
    (s.stop host w).1.running = false ∧ (s.stop host w).1.pending = none ∧
    outstanding (s.stop host w).2 = 0 ∧
    (s.stop host w).1.stop host (s.stop host w).2 = s.stop host w := by
  have hstep := h.inStep hhost
  have hrunning := hstep.running
  have hout := hstep.outstanding
  have hpending : (s.stop host w).1.pending = none := by
    change (s.cancelPending host w).1.pending = none
    rw [cancelPending_fst]
  refine ⟨fun hrun => ?_, fun hstopped => ?_, rfl, hpending, hstep.cancelPending hhost, ?_⟩
  · rw [hrun] at hrunning
    obtain ⟨handle, hhandle⟩ := Option.isSome_iff_exists.mp hrunning.symm
    rw [hhandle] at hout
    exact ⟨handle, hhandle, hout⟩
  · rw [hstopped] at hrunning
    have hnone := Option.isSome_eq_false_iff.mp hrunning.symm
    rw [Option.isNone_iff_eq_none] at hnone
    rw [hnone] at hout
    exact ⟨hnone, hout, fun t w' => frame?_stopped hstopped host t w'⟩
  · have hnothing : (s.stop host w).1.cancelPending host (s.stop host w).2 = s.stop host w := by
      unfold Stage.cancelPending
      rw [hpending]
    rw [Stage.stop, hnothing]
    rfl

/-- Started twice, then one frame. -/
theorem outstanding_eq_pending_restarted :
    let outstanding := fun q : FrameQueue => (q.outstanding : Multiset Nat)
    let started : Stage Float × FrameQueue := (new ⟨800, 600⟩).run FrameQueue.host 0 .empty
    let again := started.1.run FrameQueue.host 5 started.2
    let after := again.1.answerFrame FrameQueue.host 21 (again.2.fire 2)
    FrameQueue.host.Tracks outstanding ∧
      Reached FrameQueue.host outstanding ⟨800, 600⟩ after.1 after.2 ∧ after.1.running = true ∧
      ∃ handle, after.1.pending = some handle ∧ outstanding after.2 = {handle} := by
  intro outstanding started again after
  have hreached : Reached FrameQueue.host outstanding ⟨800, 600⟩ after.1 after.2 :=
    .fire 2 21 (.run 5 (.run 0 (.new rfl))) (Multiset.mem_singleton_self 2)
      (Multiset.coe_erase _ _).symm
  exact ⟨FrameQueue.tracks_host, hreached, rfl,
    (outstanding_eq_pending FrameQueue.tracks_host hreached).1 rfl⟩

end Stage

end SExprViewer
