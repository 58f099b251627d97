import SExprViewer.Proofs.Diagram.Painting
import SExprViewer.Stage.Basic

/-! # What a frame draws

A frame clears what is visible and then paints the actors in their order, each diagram node by
node in document order, under the transforms that lead to the nodes (`marks_frame`).  It begins by
setting the transform, so that nothing it draws depends on what the display list has been through,
and leaves the saved transforms as they were. -/
set_option autoImplicit false

namespace SExprViewer

variable {K σ : Type} [Scalar K]

open DisplayList (Adds)

/-- The marks of an actor under the transform `m`. -/
def Actor.marks (theme : Theme K) (m : Affine K) : Actor K → List (Mark K)
  | .diagram d => d.paths.flatMap (d.marksAt theme m)
  | .marker _ p => [⟨.fillRect ⟨0, 0, 1, 1⟩ .white, m.mul p.transform⟩]

theorem Actor.adds_paint (theme : Theme K) (a : Actor K) :
    Adds (a.paint theme) fun m => a.marks theme m := by
  cases a with
  | diagram d => exact Diagram.adds_paint theme d
  | marker id p =>
      let square : Shape K := .fillRect ⟨0, 0, 1, 1⟩ .white
      have hsquare : Adds [.fillRect ⟨0, 0, 1, 1⟩ .white] fun m => [square].map fun shape =>
          ⟨shape, m⟩ := DisplayList.adds_shapes rfl
      exact hsquare.inside p.transform

namespace Stage

def backgroundShapes (s : Stage K) : List (Shape K) :=
  .clear s.camera.visible ::
    if s.theme.background == .transparent then []
    else [.fillRect s.camera.visible s.theme.background]

def baseTransform (s : Stage K) : Affine K := Affine.identity.mul s.camera.affine

theorem adds_clear (s : Stage K) :
    Adds s.clear fun m => s.backgroundShapes.map fun shape => ⟨shape, m⟩ := by
  refine DisplayList.adds_shapes ?_
  unfold clear backgroundShapes
  dsimp only
  cases s.theme.background == .transparent <;> rfl

theorem run_picture (s : Stage K) (list : DisplayList K) :
    (list.run s.picture).transforms = ⟨s.baseTransform, list.transforms.saved⟩ ∧
      (list.run s.picture).marks.toList = list.marks.toList ++
        ((s.backgroundShapes.map fun shape => ⟨shape, s.baseTransform⟩) ++
          s.actors.flatMap (Actor.marks s.theme s.baseTransform)) := by
  have hpaint : Adds s.paint fun m => s.actors.flatMap fun a => a.marks s.theme m :=
    DisplayList.adds_flatMap s.actors fun a _ => a.adds_paint s.theme
  have hpicture := s.adds_clear.append hpaint (list.run s.refresh)
  rw [picture, List.append_assoc, DisplayList.run_append]
  exact hpicture

/-- A running stage draws, whatever was drawn before and whatever transforms were set and saved:
the background, and then group after group the nodes of its actors, as the time since the last
frame has left them, in document order and each under the transform along its path.  Afterwards
the transform is that of the camera, and what was saved before is saved. -/
theorem marks_frame {s : Stage K} (hrunning : s.running = true) (host : FrameHost σ) (t : K) (w : σ)
    (list : DisplayList K) :
    let s' : Stage K :=
      { s with
        pending := some (host.request w).1
        time := t
        actors := s.actors.map (Actor.step (t - s.time)) }
    ∃ program, s.frame? host t w = some (s', (host.request w).2, program) ∧
      (list.run program).transforms = ⟨s.baseTransform, list.transforms.saved⟩ ∧
      (list.run program).marks.toList = list.marks.toList ++
        ((s.backgroundShapes.map fun shape => ⟨shape, s.baseTransform⟩) ++
          s'.actors.flatMap (Actor.marks s.theme s.baseTransform)) ∧
      ∀ d, .diagram d ∈ s'.actors → d.paths.Pairwise (· < ·) ∧
        ∀ path, path ∈ d.paths ↔ (d.at? path).isSome = true := by
  intro s'
  have hframe : s.frame? host t w = some (s', (host.request w).2, s'.picture) := by
    rw [frame?, if_pos hrunning]
    rfl
  obtain ⟨htransforms, hmarks⟩ := run_picture s' list
  exact ⟨s'.picture, hframe, htransforms, hmarks,
    fun d _ => ⟨d.paths_ascend, fun path => d.mem_paths path⟩⟩

/-- A node and its child, the child active and selected, after a marker.  Transforms were left saved
before. -/
theorem marks_frame_nested :
    let child : Diagram Float := .node ⟨⟨1⟩, .atOrigin, [.label "b" 6], 6, 25, 25, 25, 25, 5, 3,
      true, true⟩ []
    let d : Diagram Float := .node ⟨⟨2⟩, .atOrigin, [.label "a" 6, .link 0], 14, 25, 25, 25, 62.5,
      5, 3, false, false⟩ [child]
    let s : Stage Float :=
      { Stage.new ⟨800, 600⟩ with actors := [.marker ⟨0⟩ .atOrigin, .diagram d], running := true }
    let list : DisplayList Float := DisplayList.empty.run [.save, .transform (.scale 2), .save]
    s.running = true ∧ ∃ s' w' program,
      s.frame? FrameQueue.host 20 .empty = some (s', w', program) ∧
      (list.run program).transforms.saved = [Affine.identity.mul (.scale 2), .identity] ∧
      (list.run program).marks.size = 13 ∧ (list.run program).texts = ["a", "b"] := by
  intro child d s list
  obtain ⟨program, hframe, htransforms, hmarks, -⟩ :=
    marks_frame (s := s) rfl FrameQueue.host 20 .empty list
  refine ⟨rfl, _, _, program, hframe, ?_, ?_, ?_⟩
  · rw [htransforms]
    rfl
  · rw [← Array.length_toList, hmarks]
    decide
  · rw [DisplayList.texts, hmarks]
    rfl

end Stage

end SExprViewer
