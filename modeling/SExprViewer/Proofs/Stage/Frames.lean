import SExprViewer.Proofs.Diagram.Gliding
import SExprViewer.Proofs.Stage.Requests

/-! # The rate of frames

What a running stage shows at a host time does not depend on the frames that the host has run
until then: any number of frames between the start and that time leaves every node of every
diagram where the last of them alone leaves it, and on the same glide (`frames?_eq_last`). -/
set_option autoImplicit false

namespace SExprViewer

variable {K : Type} [MetricScalar K]

/-! ## Nodes and actors -/

namespace Placement

variable {p : Placement K}

theorem Forward.step (h : p.Forward) (elapsed : K) : (p.step elapsed).Forward := by
  cases hq : p.target with
  | none => rwa [step_idle hq]
  | some q =>
      rw [Placement.step, hq]
      dsimp only
      split
      · -- the glide has ended
        intro hgliding
        cases hgliding
      · intro _
        exact h (by rw [hq]; rfl)

theorem forward_glideTo (p : Placement K) (q : Point K) (v : K) : (p.glideTo q v).Forward := by
  unfold glideTo
  split
  · rename_i hspeed
    exact fun _ => hspeed.1.le
  · exact fun h => nomatch h

end Placement

theorem Diagram.forward_arrange_build (measure : TextMeasure K) (layout : LayoutSettings K)
    (e : Expr) (next : ObjectId) :
    (arrange layout (build measure layout e next).1).All fun n => n.placement.Forward := by
  intro path n hn
  rw [valueAt?_arrange] at hn
  obtain ⟨m, hm, rfl⟩ := Option.map_eq_some_iff.mp hn
  cases slotAt? layout (build measure layout e next).1 path with
  | none =>
      have hidle : (build measure layout e next).1.All fun n => n.placement.target = none :=
        all_build (fun _ _ _ => rfl) e next
      intro hgliding
      rw [show (sentTo layout.glideVelocity none m).placement.target = none from hidle path m hm]
        at hgliding
      cases hgliding
  | some place => exact Placement.forward_glideTo _ place _

namespace Actor

/-- No node glides away from its target. -/
def Forward : Actor K → Prop
  | .diagram d => d.All fun n => n.placement.Forward
  | .marker _ p => p.Forward

variable {a : Actor K}

theorem Forward.step (h : a.Forward) (elapsed : K) : (a.step elapsed).Forward := by
  cases a with
  | diagram d => exact Tree.All.map h fun _ hn => hn.step elapsed
  | marker id p => exact Placement.Forward.step h elapsed

theorem step_step (h : a.Forward) {e e' : K} (he : 0 ≤ e) (he' : 0 ≤ e') :
    (a.step e).step e' = a.step (e + e') := by
  cases a with
  | diagram d =>
      change Actor.diagram ((d.map _).map _) = Actor.diagram (d.map _)
      rw [Tree.map_map]
      refine congrArg Actor.diagram (Tree.map_congr_of_all fun path n hn => ?_)
      dsimp only [Function.comp_apply]
      rw [Placement.step_step (h path n hn) he he']
  | marker id p => exact congrArg (Actor.marker id) (Placement.step_step h he he')

end Actor

/-! ## Frames one after the other -/

namespace Stage

variable {σ : Type} {host : FrameHost σ} {s : Stage K}

/-- The host runs frames at these times; `none` when the stage passes over one. -/
def frames? (host : FrameHost σ) : List K → Stage K → σ → Option (Stage K × σ)
  | [], s, w => some (s, w)
  | t :: ts, s, w => (s.frame? host t w).bind fun (s, w, _) => frames? host ts s w

theorem frames?_cons (host : FrameHost σ) (hrunning : s.running = true) (t : K) (ts : List K)
    (w : σ) :
    ∃ s' w', frames? host (t :: ts) s w = frames? host ts s' w' ∧ s'.running = true ∧
      s'.time = t ∧ s'.actors = s.actors.map (Actor.step (t - s.time)) := by
  refine ⟨{ s with
    pending := some (host.request w).1
    time := t
    actors := s.actors.map (Actor.step (t - s.time)) }, (host.request w).2, ?_, hrunning, rfl, rfl⟩
  rw [frames?, frame?, if_pos hrunning]
  rfl

/-- Frames at times in order leave the actors as one frame at the last of them does. -/
theorem frames?_running (host : FrameHost σ) (ts : List K) {t : K} : ∀ {s : Stage K} {w : σ},
    s.running = true → (∀ a ∈ s.actors, a.Forward) →
    (s.time :: (ts ++ [t])).Pairwise (· ≤ ·) →
      ∃ s' w', frames? host (ts ++ [t]) s w = some (s', w') ∧ s'.running = true ∧ s'.time = t ∧
        s'.actors = s.actors.map (Actor.step (t - s.time)) := by
  induction ts with
  | nil =>
      intro s w hrunning _ _
      exact frames?_cons host hrunning t [] w
  | cons u ts ih =>
      intro s w hrunning hforward hordered
      obtain ⟨s₁, w₁, hframe, hrunning₁, htime₁, hactors₁⟩ :=
        frames?_cons host hrunning u (ts ++ [t]) w
      obtain ⟨hstart, hordered⟩ := List.pairwise_cons.mp hordered
      have hforward₁ : ∀ a ∈ s₁.actors, a.Forward := by
        rw [hactors₁]
        intro b hb
        obtain ⟨a, ha, rfl⟩ := List.mem_map.mp hb
        exact (hforward a ha).step _
      obtain ⟨s', w', hframes, hrunning', htime', hactors'⟩ :=
        ih hrunning₁ hforward₁ (htime₁ ▸ hordered)
      refine ⟨s', w', hframe.trans hframes, hrunning', htime', ?_⟩
      have hsu : 0 ≤ u - s.time := sub_nonneg.mpr (hstart u List.mem_cons_self)
      have hut : 0 ≤ t - u := sub_nonneg.mpr ((List.pairwise_cons.mp hordered).1 t (by simp))
      rw [hactors', hactors₁, htime₁, List.map_map]
      refine List.map_congr_left fun a ha => ?_
      rw [Function.comp_apply, Actor.step_step (hforward a ha) hsu hut, sub_add_sub_cancel']

/-- A stage that is started at a time and runs frames at later ones shows the same afterwards as
if only the last of them had been run, whatever requests the host was at. -/
theorem frames?_eq_last (hforward : ∀ a ∈ s.actors, a.Forward) {t₀ t : K} {ts : List K}
    (hordered : (t₀ :: (ts ++ [t])).Pairwise (· ≤ ·)) (host : FrameHost σ) (w w₁ : σ) :
    ∃ s' w' s₁' w₁',
      frames? host (ts ++ [t]) (s.run host t₀ w).1 (s.run host t₀ w).2 = some (s', w') ∧
      frames? host [t] (s.run host t₀ w₁).1 (s.run host t₀ w₁).2 = some (s₁', w₁') ∧
      s'.actors = s₁'.actors := by
  have hactors (w : σ) : (s.run host t₀ w).1.actors = s.actors := by
    change (s.cancelPending host w).1.actors = s.actors
    rw [cancelPending_fst]
  have hlast : (t₀ :: ([] ++ [t])).Pairwise (· ≤ ·) :=
    hordered.sublist ((List.sublist_append_right ts [t]).cons_cons t₀)
  obtain ⟨s', w', hframes, -, -, hs'⟩ := frames?_running host ts
    (s := (s.run host t₀ w).1) (w := (s.run host t₀ w).2) rfl (by rwa [hactors]) hordered
  obtain ⟨s₁', w₁', hframe, -, -, hs₁'⟩ := frames?_running host []
    (s := (s.run host t₀ w₁).1) (w := (s.run host t₀ w₁).2) rfl (by rwa [hactors]) hlast
  refine ⟨s', w', s₁', w₁', hframes, hframe, ?_⟩
  rw [hs', hs₁', hactors, hactors]
  rfl

/-- Two frames in the middle of a glide, the second of them with no time in between. -/
theorem frames?_eq_last_gliding :
    let layout : LayoutSettings ℝ := { LayoutSettings.standard with glideVelocity := 1 }
    let d := Diagram.arrange layout (Diagram.build (fun _ => 6) layout (.list [.list []]) .first).1
    let s := (new ⟨800, 600⟩ : Stage ℝ).add (.diagram d)
    (∃ n, d.valueAt? [0] = some n ∧ n.placement.motion = .gliding) ∧
      (∀ a ∈ s.actors, a.Forward) ∧ ((0 : ℝ) :: ([10, 10] ++ [25])).Pairwise (· ≤ ·) ∧
      ∃ s' w' s₁' w₁',
        frames? FrameQueue.host ([10, 10] ++ [25]) (s.run FrameQueue.host 0 .empty).1
          (s.run FrameQueue.host 0 .empty).2 = some (s', w') ∧
        frames? FrameQueue.host [25] (s.run FrameQueue.host 0 .empty).1
          (s.run FrameQueue.host 0 .empty).2 = some (s₁', w₁') ∧ s'.actors = s₁'.actors := by
  intro layout d s
  have hforward : ∀ a ∈ s.actors, a.Forward := by
    intro a ha
    rw [List.mem_singleton.mp ha]
    exact Diagram.forward_arrange_build _ _ _ _
  have hordered : ((0 : ℝ) :: ([10, 10] ++ [25])).Pairwise (· ≤ ·) := by
    simp only [List.cons_append, List.nil_append, List.pairwise_cons, List.mem_cons,
      List.not_mem_nil, or_false]
    norm_num
  refine ⟨?_, hforward, hordered, frames?_eq_last hforward hordered _ _ _⟩
  refine ⟨_, Diagram.valueAt?_arrange [0] _, ?_⟩
  -- the slot is below the parent, and the node still at its origin
  rcases Placement.glideTo_cases (K := ℝ) .atOrigin (Diagram.slot layout _ _) one_pos with
    ⟨hslot, -⟩ | ⟨-, hglide⟩
  · have hrow : (375 / 10 ^ 1 : ℝ) = 0 := congrArg Point.y hslot
    norm_num at hrow
  · exact congrArg Placement.motion hglide

end Stage

end SExprViewer
