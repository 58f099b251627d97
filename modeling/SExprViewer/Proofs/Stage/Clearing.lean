import SExprViewer.Proofs.Camera
import SExprViewer.Proofs.Stage.Picture

/-! # What a frame clears

Nodes and markers clear nothing, so that a frame clears just once, what is visible
(`cleared_picture`).  On exact scalars and a camera that can be undone this is the canvas, all of
it and no more (`cleared_frame`). -/
set_option autoImplicit false

namespace SExprViewer

section Scalar
variable {K : Type} [Scalar K]

def Shape.cleared? : Shape K → Option (Rect K)
  | .clear r => some r
  | _ => none

/-- The points of the canvas that a mark clears. -/
def Mark.cleared? (mark : Mark K) : Option (Set (Point K)) :=
  mark.shape.cleared?.map fun r => mark.transform.apply '' {q | r.Contains q}

/-- What has been cleared, one set of points of the canvas after the other. -/
def DisplayList.cleared (list : DisplayList K) : List (Set (Point K)) :=
  list.marks.toList.filterMap Mark.cleared?

theorem Mark.cleared?_map_eq_none {shapes : List (Shape K)}
    (h : ∀ shape ∈ shapes, shape.cleared? = none) (m : Affine K) :
    ∀ mark ∈ shapes.map fun shape => (⟨shape, m⟩ : Mark K), mark.cleared? = none := by
  intro mark hmark
  obtain ⟨shape, hshape, rfl⟩ := List.mem_map.mp hmark
  rw [cleared?, h shape hshape]
  rfl

namespace Diagram

theorem cleared?_boxShapes (theme : Theme K) (n : Node K) :
    ∀ shape ∈ boxShapes theme n, shape.cleared? = none := by
  unfold boxShapes
  cases n.active <;> cases n.selected <;> simp [Shape.cleared?]

theorem cleared?_segmentShapes (theme : Theme K) (d : Diagram K) (x : K) (s : Segment K) :
    ∀ shape ∈ segmentShapes theme d x s, shape.cleared? = none := by
  cases s with
  | label text width => simp [segmentShapes, Shape.cleared?]
  | link k =>
      unfold segmentShapes
      dsimp only
      split <;> simp [Shape.cleared?]

theorem cleared?_nodeShapes (theme : Theme K) (d : Diagram K) :
    ∀ shape ∈ nodeShapes theme d, shape.cleared? = none := by
  intro shape h
  rcases List.mem_append.mp h with hbox | hbody
  · exact cleared?_boxShapes theme d.value shape hbox
  · obtain ⟨⟨s, i⟩, _, hs⟩ := List.mem_flatMap.mp hbody
    exact cleared?_segmentShapes theme d _ s shape hs

theorem cleared?_marksAt (theme : Theme K) (m : Affine K) (d : Diagram K) (path : Path) :
    ∀ mark ∈ marksAt theme m d path, mark.cleared? = none := by
  unfold marksAt
  split
  · exact Mark.cleared?_map_eq_none (cleared?_nodeShapes theme _) _
  · exact nofun

end Diagram

theorem Actor.cleared?_marks (theme : Theme K) (m : Affine K) (a : Actor K) :
    ∀ mark ∈ a.marks theme m, mark.cleared? = none := by
  cases a with
  | diagram d =>
      intro mark h
      obtain ⟨path, _, hmark⟩ := List.mem_flatMap.mp h
      exact d.cleared?_marksAt theme m path mark hmark
  | marker id p => simp [marks, Mark.cleared?, Shape.cleared?]

namespace Stage

theorem cleared_background (s : Stage K) (m : Affine K) :
    (s.backgroundShapes.map fun shape => (⟨shape, m⟩ : Mark K)).filterMap Mark.cleared? =
      [m.apply '' {q | s.camera.visible.Contains q}] := by
  unfold backgroundShapes
  cases s.theme.background == .transparent <;> rfl

theorem cleared_picture (s : Stage K) (list : DisplayList K) :
    (list.run s.picture).cleared =
      list.cleared ++ [s.baseTransform.apply '' {q | s.camera.visible.Contains q}] := by
  have hactors : (s.actors.flatMap (Actor.marks s.theme s.baseTransform)).filterMap
      Mark.cleared? = [] := by
    refine List.filterMap_eq_nil_iff.mpr fun mark h => ?_
    obtain ⟨a, _, hmark⟩ := List.mem_flatMap.mp h
    exact a.cleared?_marks s.theme s.baseTransform mark hmark
  rw [DisplayList.cleared, (run_picture s list).2, List.filterMap_append, List.filterMap_append,
    cleared_background, hactors, List.append_nil]
  rfl

end Stage

end Scalar

namespace Stage

variable {K σ : Type} [ExactScalar K] {s : Stage K}

theorem apply_baseTransform (s : Stage K) (q : Point K) :
    s.baseTransform.apply q = s.camera.toCanvas q := by
  rw [baseTransform, Affine.mul_apply]
  simp [Affine.identity, Affine.apply, Camera.toCanvas]

/-- A frame clears the canvas, whatever has been drawn and whatever transforms are set. -/
theorem cleared_frame (hscale : 0 < s.camera.scale) (hwidth : 0 ≤ s.camera.canvas.width)
    (hheight : 0 ≤ s.camera.canvas.height) (hrunning : s.running = true) (host : FrameHost σ)
    (t : K) (w : σ) (list : DisplayList K) :
    ∃ s' w' program, s.frame? host t w = some (s', w', program) ∧
      (list.run program).cleared = list.cleared ++ [{p | s.camera.canvasRect.Contains p}] := by
  let s' : Stage K := { (s.requestFrame host w).1 with time := t }.step (t - s.time)
  have hframe : s.frame? host t w = some (s', (host.request w).2, s'.picture) := if_pos hrunning
  have himage : s'.baseTransform.apply '' {q | s'.camera.visible.Contains q} =
      {p | s.camera.canvasRect.Contains p} :=
    (Set.image_congr fun q _ => apply_baseTransform s' q).trans
      (Camera.image_visible hscale hwidth hheight)
  exact ⟨s', _, s'.picture, hframe, by rw [cleared_picture, himage]⟩

end Stage

end SExprViewer
