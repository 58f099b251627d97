import SExprViewer.Proofs.Diagram.Shape
import SExprViewer.Proofs.Viewport.Operation

/-! # What lasts of a shown diagram

A diagram that is shown is marked, moved and let glide, and replaced as a whole.  What can be told
of its nodes besides their marks and their places lasts in between (`ShowsAs.arrange`,
`ShowsAs.hover`, `ShowsAs.click`, `ShowsAs.step`). -/
set_option autoImplicit false

namespace SExprViewer

variable {K β : Type}

namespace Viewport

/-- What is shown looks like this to `f`. -/
def ShowsAs (f : Node K → β) (image : Option (Tree β)) (v : Viewport K) : Prop :=
  ∃ shown, v.Showing shown ∧ shown.map (Tree.map f) = image

variable {f : Node K → β} {image : Option (Tree β)} {v v' : Viewport K}

theorem ShowsAs.diagram? (h : v.ShowsAs f image) : v.diagram?.map (Tree.map f) = image := by
  obtain ⟨shown, hshowing, himage⟩ := h
  rw [hshowing.diagram?, himage]

theorem ShowsAs.of_eq (h : v.ShowsAs f image) (hroot : v'.root = v.root)
    (hactors : v'.stage.actors = v.stage.actors) : v'.ShowsAs f image := by
  obtain ⟨shown, hshowing, himage⟩ := h
  exact ⟨shown, hshowing.of_eq hroot hactors, himage⟩

theorem map_image {g : Diagram K → Diagram K} (hg : ∀ d, (g d).map f = d.map f)
    (shown : Option (Diagram K)) : (shown.map g).map (Tree.map f) = shown.map (Tree.map f) := by
  rw [Option.map_map]
  exact congrArg (Option.map · shown) (funext hg)

theorem ShowsAs.modifyDiagram {g : Diagram K → Diagram K} (h : v.ShowsAs f image)
    (hid : ∀ d, (g d).map Node.id = d.map Node.id) (hg : ∀ d, (g d).map f = d.map f) :
    (v.modifyDiagram g).ShowsAs f image := by
  obtain ⟨shown, hshowing, himage⟩ := h
  exact ⟨_, hshowing.modifyDiagram hid, (map_image hg shown).trans himage⟩

end Viewport

variable [Scalar K]

/-- Tells of a node nothing that marking it, placing it or letting time pass can change. -/
structure Node.Lasting (f : Node K → β) : Prop where
  active : ∀ (n : Node K) b, f { n with active := b } = f n
  selected : ∀ (n : Node K) b, f { n with selected := b } = f n
  moveTo : ∀ (n : Node K) q, f { n with placement := n.placement.moveTo q } = f n
  glideTo : ∀ (n : Node K) q velocity,
    f { n with placement := n.placement.glideTo q velocity } = f n
  step : ∀ (n : Node K) elapsed, f { n with placement := n.placement.step elapsed } = f n

theorem Node.lasting_id : Lasting (K := K) Node.id :=
  ⟨fun _ _ => rfl, fun _ _ => rfl, fun _ _ => rfl, fun _ _ _ => rfl, fun _ _ => rfl⟩

theorem Node.lasting_shape : Lasting (K := K) Node.shape :=
  ⟨fun _ _ => rfl, fun _ _ => rfl, fun _ _ => rfl, fun _ _ _ => rfl, fun _ _ => rfl⟩

namespace Viewport.ShowsAs

variable {f : Node K → β} {image : Option (Tree β)} {v : Viewport K}

theorem step (hf : Node.Lasting f) (h : v.ShowsAs f image) (elapsed : K) :
    ShowsAs f image { v with stage := v.stage.step elapsed } := by
  obtain ⟨shown, hshowing, himage⟩ := h
  refine ⟨_, hshowing.step elapsed, (map_image (fun d => ?_) shown).trans himage⟩
  exact Diagram.map_step (fun n => hf.step n elapsed) d

theorem arrange (hf : Node.Lasting f) (h : v.ShowsAs f image) : v.arrange.ShowsAs f image :=
  h.modifyDiagram (map_placed _ Node.lasting_id.moveTo Node.lasting_id.glideTo)
    (map_placed _ hf.moveTo hf.glideTo)

theorem hover (hf : Node.Lasting f) (h : v.ShowsAs f image) (p : Point K) :
    (v.hover p).2.ShowsAs f image := by
  rcases hover_cases v p with ⟨_, heq⟩ | ⟨_, heq⟩
  · rwa [heq]
  · rw [heq]
    have hv : ShowsAs f image { v with active := v.hit? p } := h.of_eq rfl rfl
    exact hv.modifyDiagram (map_remark (Diagram.map_setActive Node.lasting_id.active) _ _)
      (map_remark (Diagram.map_setActive hf.active) _ _)

theorem click (hf : Node.Lasting f) (h : v.ShowsAs f image) (p : Point K) :
    (v.click p).2.ShowsAs f image := by
  rcases click_cases v p with ⟨_, heq⟩ | ⟨_, heq⟩
  · rwa [heq]
  · rw [heq]
    have hv : ShowsAs f image { v with selected := v.hit? p } := h.of_eq rfl rfl
    exact hv.modifyDiagram (map_remark (Diagram.map_setSelected Node.lasting_id.selected) _ _)
      (map_remark (Diagram.map_setSelected hf.selected) _ _)

end Viewport.ShowsAs

end SExprViewer
