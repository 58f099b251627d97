import SExprViewer.Diagram.Hit
import SExprViewer.Diagram.Layout
import SExprViewer.Diagram.Paint
import SExprViewer.Draw.DisplayList
import SExprViewer.Proofs.Tree.Preorder

/-! # What painting leaves on a display list

A program that restores what it saves leaves the transforms of a display list alone and adds
marks that depend on the current transform only (`Adds`).  Painting a diagram is such a program:
it adds one group of marks for each node in document order, all under the transform that leads
along the path to the node (`adds_paint`). -/
set_option autoImplicit false

namespace SExprViewer

open Scalar (ofNat)

variable {K : Type} [Scalar K]

/-! ## Programs -/

namespace DisplayList

theorem run_append (s : DisplayList K) (p q : List (Instruction K)) :
    s.run (p ++ q) = (s.run p).run q := List.foldl_append

/-- Whatever the list, the program keeps its transforms and adds these marks. -/
def Adds (program : List (Instruction K)) (marks : Affine K → List (Mark K)) : Prop :=
  ∀ s : DisplayList K, (s.run program).transforms = s.transforms ∧
    (s.run program).marks.toList = s.marks.toList ++ marks s.transforms.current

variable {p q : List (Instruction K)} {f g : Affine K → List (Mark K)}

theorem adds_nil : Adds (K := K) [] fun _ => [] :=
  fun _ => ⟨rfl, (List.append_nil _).symm⟩

theorem Adds.append (hp : Adds p f) (hq : Adds q g) : Adds (p ++ q) fun m => f m ++ g m := by
  intro s
  obtain ⟨htransforms, hmarks⟩ := hp s
  obtain ⟨htransforms', hmarks'⟩ := hq (s.run p)
  rw [run_append]
  refine ⟨htransforms'.trans htransforms, ?_⟩
  rw [hmarks', hmarks, htransforms, List.append_assoc]

theorem adds_flatMap {α : Type} {program : α → List (Instruction K)}
    {marks : α → Affine K → List (Mark K)} (as : List α)
    (h : ∀ a ∈ as, Adds (program a) (marks a)) :
    Adds (as.flatMap program) fun m => as.flatMap fun a => marks a m := by
  induction as with
  | nil => exact adds_nil
  | cons a as ih =>
      exact (h a List.mem_cons_self).append (ih fun b hb => h b (List.mem_cons_of_mem _ hb))

/-- A program that is carried out inside a transform adds its marks under the product. -/
theorem Adds.inside (h : Adds p f) (t : Affine K) :
    Adds (.save :: .transform t :: (p ++ [.restore])) fun m => f (m.mul t) := by
  intro s
  obtain ⟨htransforms, hmarks⟩ := h ((s.apply .save).apply (.transform t))
  have hrestore : s.run (.save :: .transform t :: (p ++ [.restore])) =
      (((s.apply .save).apply (.transform t)).run p).apply .restore :=
    run_append ((s.apply .save).apply (.transform t)) p [.restore]
  rw [hrestore]
  refine ⟨?_, hmarks⟩
  change (run _ p).transforms.restore = _
  rw [htransforms]
  rfl

theorem adds_shapes {shapes : List (Shape K)} :
    ∀ {p : List (Instruction K)}, p.map shapeOf? = shapes.map some →
      Adds p fun m => shapes.map fun shape => ⟨shape, m⟩ := by
  induction shapes with
  | nil =>
      intro p h
      rw [List.map_nil, List.map_eq_nil_iff] at h
      exact h ▸ adds_nil
  | cons shape shapes ih =>
      intro p h
      obtain ⟨i, rest, rfl, hi, hrest⟩ := List.map_eq_cons_iff.mp h
      have hfirst : Adds [i] fun m => [⟨shape, m⟩] := by
        intro s
        cases i <;> cases hi <;> exact ⟨rfl, Array.toList_push⟩
      exact hfirst.append (ih hrest)

end DisplayList

/-! ## Nodes -/

/-- Where the segment of a body with an index begins: after all that come before it, each with
the gap behind it. -/
def Node.segmentLeft (n : Node K) (i : Nat) : K :=
  (n.body.take i).foldl
    (fun x s => x + (Diagram.segmentWidth n.connectorSize s + n.segmentSpacing))
    (Diagram.bodyStart n)

theorem Node.segmentLeft_succ {n : Node K} {before rest : List (Segment K)} {s : Segment K}
    (h : n.body = before ++ s :: rest) : n.segmentLeft (before.length + 1) =
      n.segmentLeft before.length +
        (Diagram.segmentWidth n.connectorSize s + n.segmentSpacing) := by
  have htake : n.body.take (before.length + 1) = before ++ [s] := by
    rw [h, List.take_length_add_append]
    rfl
  rw [segmentLeft, segmentLeft, htake, h, List.take_left, List.foldl_append]
  rfl

namespace Diagram

open DisplayList (Adds)

def boxShapes (theme : Theme K) (n : Node K) : List (Shape K) :=
  [.fillRect n.box theme.nodeFill, .strokeRect n.box theme.nodeStroke theme.lineWidth]
    ++ (if n.active then [.fillRect n.box theme.highlight] else [])
    ++ (if n.selected then
          [.strokeRect (n.box.inflate theme.lineWidth theme.lineWidth) theme.selection
            theme.lineWidth]
        else [])

/-- The shapes of a segment that begins at `x`: the text of a label, or the line and the dot of a
link.  A link without a child has none. -/
def segmentShapes (theme : Theme K) (d : Diagram K) (x : K) : Segment K → List (Shape K)
  | .label text _ => [.fillText text ⟨x, theme.textBaseline⟩ theme.text]
  | .link k =>
    match d.children[k]? with
    | none => []
    | some child =>
      let dot : Point K := ⟨x + d.value.connectorSize / ofNat 2, d.value.connectorSize / ofNat 4⟩
      [.strokeOutline (Outline.segment dot (topCenter child.value))
          (if d.value.active then theme.linkActive else theme.link) theme.lineWidth,
        .fillOutline (Outline.circle dot (d.value.connectorSize / ofNat 2)) theme.connector]

/-- The shapes of the root alone, in its own space. -/
def nodeShapes (theme : Theme K) (d : Diagram K) : List (Shape K) :=
  boxShapes theme d.value
    ++ d.value.body.zipIdx.flatMap fun (s, i) => segmentShapes theme d (d.value.segmentLeft i) s

/-- The marks of the node at a path, all under the transform that leads there from `m`. -/
def marksAt (theme : Theme K) (m : Affine K) (d : Diagram K) (path : Path) : List (Mark K) :=
  match d.at? path, transformFrom? (m.mul d.value.transform) d path with
  | some c, some k => (nodeShapes theme c).map fun shape => ⟨shape, k⟩
  | _, _ => []

theorem shapes_paintBox (theme : Theme K) (n : Node K) :
    (paintBox theme n).map DisplayList.shapeOf? = (boxShapes theme n).map some := by
  unfold paintBox boxShapes
  cases n.active <;> cases n.selected <;> rfl

theorem shapes_paintSegments (theme : Theme K) (n : Node K) (cs : List (Diagram K))
    (rest : List (Segment K)) : ∀ before, n.body = before ++ rest →
      (paintSegments theme n cs (n.segmentLeft before.length) rest).map DisplayList.shapeOf? =
        ((rest.zipIdx before.length).flatMap fun (s, i) =>
          segmentShapes theme (.node n cs) (n.segmentLeft i) s).map some := by
  -- the segments before the rest say where it begins
  induction rest with
  | nil => intro before _; rfl
  | cons s rest ih =>
      intro before hbody
      have hrest := ih (before ++ [s]) (by rw [hbody, List.append_assoc, List.singleton_append])
      rw [List.length_append, List.length_singleton, Node.segmentLeft_succ hbody] at hrest
      rw [List.zipIdx_cons, List.flatMap_cons, List.map_append, ← hrest]
      cases s with
      | label text width => rfl
      | link k =>
          rw [paintSegments, List.map_append]
          congr 1
          simp only [segmentShapes, Tree.children]
          cases cs[k]? <;> rfl

theorem adds_paintNode (theme : Theme K) (n : Node K) (cs : List (Diagram K)) :
    Adds (paintNode theme n cs) fun m =>
      (nodeShapes theme (.node n cs)).map fun shape => ⟨shape, m⟩ := by
  refine DisplayList.adds_shapes ?_
  rw [paintNode, nodeShapes, List.map_append, List.map_append, shapes_paintBox]
  congr 1
  exact shapes_paintSegments theme n cs n.body [] rfl

/-! ## Diagrams -/

theorem paintAll_eq (theme : Theme K) (cs : List (Diagram K)) :
    paintAll theme cs = cs.flatMap (paint theme) := by
  induction cs with
  | nil => rfl
  | cons c cs ih => rw [paintAll, ih, List.flatMap_cons]

theorem marksAt_cons {theme : Theme K} {m : Affine K} {d c : Diagram K} {i : Nat}
    (hc : d.children[i]? = some c) (path : Path) :
    marksAt theme m d (i :: path) = marksAt theme (m.mul d.value.transform) c path := by
  rw [marksAt, marksAt, Tree.at?_cons, transformFrom?, hc]
  rfl

theorem adds_paint (theme : Theme K) (d : Diagram K) :
    Adds (paint theme d) fun m => d.paths.flatMap (marksAt theme m d) := by
  induction d using Tree.node_induction with
  | node n cs ih =>
      have hpaint := ((adds_paintNode theme n cs).append
        (DisplayList.adds_flatMap cs ih)).inside n.transform
      rw [← paintAll_eq, List.append_assoc] at hpaint
      rw [paint]
      convert hpaint using 2 with m
      rw [Tree.paths_eq, List.flatMap_cons]
      congr 1
      refine Tree.flatMap_pathsAll cs 0 fun i c path hc => ?_
      rw [Nat.zero_add, marksAt_cons hc]
      rfl

end Diagram

end SExprViewer
