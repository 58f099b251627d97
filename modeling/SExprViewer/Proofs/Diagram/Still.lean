import SExprViewer.Proofs.Diagram.Shape

/-! # Arranging without a speed

Without a speed every node below the root is put in its slot at once.  Where it stood and whether
it was on its way does not matter then (`whereabouts_arrange_shape`), and arranging once more
changes nothing (`arrange_arrange`). -/
set_option autoImplicit false

namespace SExprViewer

open Scalar (ofNat)

theorem Tree.modifyRoot_modifyRoot {α : Type} (f g : α → α) (t : Tree α) :
    (t.modifyRoot f).modifyRoot g = t.modifyRoot (g ∘ f) := by
  cases t
  rfl

variable {K : Type}

/-- Where a node stands, and whether it is on its way. -/
def Node.whereabouts (n : Node K) : Point K × Motion := (n.placement.position, n.placement.motion)

def Diagram.whereabouts (d : Diagram K) : Tree (Point K × Motion) := d.map Node.whereabouts

theorem Diagram.whereabouts_eq (d : Diagram K) :
    d.whereabouts = .node d.value.whereabouts d.whereabouts.children := by
  cases d
  rfl

variable [Scalar K]

theorem Placement.glideTo_of_still {velocity : K} (h : ¬ 0 < velocity) (p : Placement K)
    (q : Point K) : p.glideTo q velocity = p.moveTo q := by
  rw [glideTo, if_neg fun hglide => h hglide.1]

namespace Diagram

variable {layout : LayoutSettings K}

theorem sendToSlot_of_still (h : ¬ 0 < layout.glideVelocity) (left : K) (d : Diagram K) :
    sendToSlot layout left d = d.modifyRoot fun n => { n with
      placement := n.placement.moveTo
        ⟨left + d.value.treeWidth / ofNat 2 - d.value.width / ofNat 2, layout.childSpacing⟩ } := by
  simp only [sendToSlot, Placement.glideTo_of_still h]

/-! ## Forgetting -/

theorem whereabouts_sendToSlot_congr (h : ¬ 0 < layout.glideVelocity) (left : K)
    {d d' : Diagram K} (htree : d.value.treeWidth = d'.value.treeWidth)
    (hwidth : d.value.width = d'.value.width)
    (hchildren : d.whereabouts.children = d'.whereabouts.children) :
    (sendToSlot layout left d).whereabouts = (sendToSlot layout left d').whereabouts := by
  rw [sendToSlot_of_still h, sendToSlot_of_still h, htree, hwidth]
  obtain ⟨n, cs⟩ := d
  obtain ⟨n', cs'⟩ := d'
  exact congrArg (Tree.node _) hchildren

/-- Below the root it is the shape alone that says where the nodes are put. -/
theorem whereabouts_arrange_shape (h : ¬ 0 < layout.glideVelocity) (d : Diagram K) :
    (arrange layout d.shape).whereabouts.children = (arrange layout d).whereabouts.children := by
  -- from left to right: where a slot begins is told from the sizes of the children before it
  have hall : ∀ cs : List (Diagram K), (∀ c ∈ cs, (arrange layout c.shape).whereabouts.children =
        (arrange layout c).whereabouts.children) →
      ∀ left, (arrangeAll layout left (cs.map shape)).map whereabouts =
        (arrangeAll layout left cs).map whereabouts := by
    intro cs
    induction cs with
    | nil => intro _ left; rfl
    | cons c rest ih =>
        intro hcs left
        have htree : (arrange layout c.shape).value.treeWidth =
            (arrange layout c).value.treeWidth := by
          rw [value_arrange, value_arrange, value_shape]
          rfl
        have hwidth : (arrange layout c.shape).value.width = (arrange layout c).value.width := by
          rw [value_arrange, value_arrange, value_shape]
          rfl
        have hhead := whereabouts_sendToSlot_congr h left htree hwidth (hcs c List.mem_cons_self)
        rw [value_arrange, value_arrange] at htree
        rw [List.map_cons, arrangeAll, arrangeAll, List.map_cons, List.map_cons, hhead, htree,
          ih fun b hb => hcs b (List.mem_cons_of_mem _ hb)]
  induction d using Tree.node_induction with
  | node n cs ih =>
      have hleft : reachLeft (shape (.node n cs)).value = reachLeft n := by
        rw [value_shape]
        rfl
      rw [whereabouts, whereabouts, Tree.children_map, Tree.children_map, children_arrange,
        children_arrange, hleft, children_shape]
      exact hall cs ih _

/-! ## Arranging again -/

theorem arrange_modifyRoot {f : Node K → Node K} (hf : ∀ n, reachLeft (f n) = reachLeft n)
    (d : Diagram K) : arrange layout (d.modifyRoot f) = (arrange layout d).modifyRoot f := by
  obtain ⟨n, cs⟩ := d
  exact congrArg (fun left => Tree.node (f n) (arrangeAll layout left cs)) (hf n)

theorem arrange_sendToSlot (left : K) (d : Diagram K) :
    arrange layout (sendToSlot layout left d) = sendToSlot layout left (arrange layout d) := by
  rw [sendToSlot, sendToSlot, value_arrange]
  refine arrange_modifyRoot (fun n => ?_) d
  rfl

theorem sendToSlot_sendToSlot (h : ¬ 0 < layout.glideVelocity) (left : K) (d : Diagram K) :
    sendToSlot layout left (sendToSlot layout left d) = sendToSlot layout left d := by
  obtain ⟨n, cs⟩ := d
  simp only [sendToSlot_of_still h]
  rfl

theorem arrange_arrange (h : ¬ 0 < layout.glideVelocity) (d : Diagram K) :
    arrange layout (arrange layout d) = arrange layout d := by
  have hall : ∀ cs : List (Diagram K),
      (∀ c ∈ cs, arrange layout (arrange layout c) = arrange layout c) → ∀ left,
        arrangeAll layout left (arrangeAll layout left cs) = arrangeAll layout left cs := by
    intro cs
    induction cs with
    | nil => intro _ left; rfl
    | cons c rest ih =>
        intro hcs left
        have hwidth : (sendToSlot layout left (arrange layout c)).value.treeWidth =
            c.value.treeWidth := by
          rw [sendToSlot, Tree.value_modifyRoot, value_arrange]
        rw [arrangeAll, arrangeAll, hwidth, arrange_sendToSlot, hcs c List.mem_cons_self,
          sendToSlot_sendToSlot h, ih fun b hb => hcs b (List.mem_cons_of_mem _ hb)]
  induction d using Tree.node_induction with
  | node n cs ih => rw [arrange, arrange, hall cs ih]

end Diagram

end SExprViewer
