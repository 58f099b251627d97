import SExprViewer.Diagram.Layout
import SExprViewer.Proofs.Expr.Atoms
import SExprViewer.Proofs.Tree.Path

/-! # The nodes of a diagram

What holds of every node that is made from items whose children have it already, holds of every
diagram that is built (`build_induction`).  Marking nodes, placing them and letting time pass
show in nothing else (`map_setActive`, `map_arrange`, `map_step`); the child with the index `i`
of an arranged diagram stands in the slot that begins at `slotLeft` (`getElem?_arrangeAll`). -/
set_option autoImplicit false

namespace SExprViewer.Diagram

open Scalar (ofNat)

variable {K : Type}

/-! ## Marking -/

theorem map_setActive {β : Type} {f : Node K → β} (hf : ∀ n b, f { n with active := b } = f n)
    (b : Bool) (p : Path) (d : Diagram K) : (setActive b p d).map f = d.map f := by
  refine Tree.map_modifyAt (fun t => ?_) p d
  rw [Tree.map_map]
  exact Tree.map_congr (fun n => hf n b) t

theorem map_setSelected {β : Type} {f : Node K → β} (hf : ∀ n b, f { n with selected := b } = f n)
    (b : Bool) (p : Path) (d : Diagram K) : (setSelected b p d).map f = d.map f := by
  refine Tree.map_modifyAt (fun t => ?_) p d
  obtain ⟨n, cs⟩ := t
  rw [Tree.modifyRoot, Tree.map_node, Tree.map_node, hf]

/-! ## Building -/

variable [Scalar K] {measure : TextMeasure K} {layout : LayoutSettings K}

theorem buildAll_induction {motive : Diagram K → Prop}
    (ofItems : ∀ items cs id, (∀ c ∈ cs, motive c) → motive (ofItems measure layout items cs id))
    (items : List Expr) : ∀ next, ∀ d ∈ (buildAll measure layout items next).1, motive d := by
  induction items using Expr.items_induction with
  | nil => intro next d hd; simp [buildAll] at hd
  | atom a rest ih => intro next d hd; exact ih next d hd
  | list inner rest ihInner ih =>
      intro next d hd
      simp only [buildAll, Expr.isList, if_true, List.mem_cons] at hd
      rcases hd with rfl | hd
      · exact ofItems inner _ _ (ihInner next)
      · exact ih _ d hd

theorem build_induction {motive : Diagram K → Prop}
    (ofItems : ∀ items cs id, (∀ c ∈ cs, motive c) → motive (ofItems measure layout items cs id))
    (e : Expr) (next : ObjectId) : motive (build measure layout e next).1 := by
  cases e with
  | list items => exact ofItems items _ _ (buildAll_induction ofItems items next)
  | atom a => exact ofItems [.atom a] [] next (by simp)

theorem all_build {P : Node K → Prop}
    (h : ∀ items cs id, P (ofItems measure layout items cs id).value) (e : Expr)
    (next : ObjectId) : (build measure layout e next).1.All P :=
  build_induction (fun items cs id hcs => Tree.all_node (h items cs id) hcs) e next

/-! ## Placing -/

/-- The left edge of what a node's subtree takes up, in the node's own space. -/
def reachLeft (n : Node K) : K := -n.treeWidth / ofNat 2 + n.width / ofNat 2

/-- The left edge of the slot of the child with an index, when the first begins at `left`. -/
def slotLeft (layout : LayoutSettings K) (left : K) : List (Diagram K) → Nat → K
  | c :: rest, i + 1 =>
    slotLeft layout (left + (c.value.treeWidth + layout.neighborSpacing)) rest i
  | _, _ => left

theorem getElem?_arrangeAll (cs : List (Diagram K)) : ∀ (left : K) (i : Nat),
    (arrangeAll layout left cs)[i]? =
      cs[i]?.map fun c => sendToSlot layout (slotLeft layout left cs i) (arrange layout c) := by
  induction cs with
  | nil => intro left i; rfl
  | cons c rest ih =>
      intro left i
      cases i with
      | zero => rfl
      | succ i => exact ih _ i

@[simp] theorem value_arrange (d : Diagram K) : (arrange layout d).value = d.value := by
  cases d
  rfl

theorem children_arrange (d : Diagram K) :
    (arrange layout d).children = arrangeAll layout (reachLeft d.value) d.children := by
  cases d
  rfl

theorem map_arrange {β : Type} {f : Node K → β}
    (hf : ∀ (n : Node K) place velocity,
      f { n with placement := n.placement.glideTo place velocity } = f n)
    (d : Diagram K) : (arrange layout d).map f = d.map f := by
  have hsend : ∀ left (d : Diagram K), (sendToSlot layout left d).map f = d.map f := by
    intro left d
    obtain ⟨n, cs⟩ := d
    rw [sendToSlot, Tree.modifyRoot, Tree.map_node, Tree.map_node, hf]
  induction d using Tree.node_induction with
  | node n cs ih =>
      rw [arrange, Tree.map_node, Tree.map_node]
      congr 1
      apply List.ext_getElem?
      intro i
      rw [List.getElem?_map, List.getElem?_map, getElem?_arrangeAll]
      cases hc : cs[i]? with
      | none => rfl
      | some c => simp [hsend, ih c (List.mem_of_getElem? hc)]

theorem map_step {β : Type} {f : Node K → β} {elapsed : K}
    (hf : ∀ n : Node K, f { n with placement := n.placement.step elapsed } = f n)
    (d : Diagram K) : (d.step elapsed).map f = d.map f := by
  rw [step, mapPlacement, Tree.map_map]
  exact Tree.map_congr hf d

end SExprViewer.Diagram
