import SExprViewer.Proofs.Diagram.Rows
import SExprViewer.Proofs.Diagram.Mirror

/-! # The least rectangle around a subtree

The width and the height that a node keeps for its subtree are not wider or higher than they have
to be: in an arranged diagram some box reaches each edge of the extent (`exists_boxAt?_left`,
`exists_boxAt?_right`, `exists_boxAt?_treeHeight`), so that the extent is the least rectangle
around the boxes of the node and everything below it (`extent_least`).  The height comes from how
deep the list nests (`treeHeight_build`). -/
set_option autoImplicit false

namespace SExprViewer

/-- What holds of every value of a tree holds of every value of a subtree. -/
theorem Tree.All.at? {α : Type} {P : α → Prop} (path : Path) : ∀ {t s : Tree α}, t.All P →
    t.at? path = some s → s.All P := by
  induction path with
  | nil => intro t s h hs; cases hs; exact h
  | cons i path ih =>
      intro t s h hs
      obtain ⟨c, hc, hs⟩ := Option.bind_eq_some_iff.mp hs
      exact ih (h.child hc) hs

namespace Diagram

open Scalar (ofNat)

section Definitions
variable {K : Type} [Scalar K]

/-- Whether a rectangle of a node's own space contains the boxes of the node and of everything
below it, each brought there by the maps along the path. -/
def Encloses (r : Rect K) (d : Diagram K) : Prop :=
  ∀ path n m, d.valueAt? path = some n → transformFrom? .identity d path = some m →
    ∀ q, n.box.Contains q → r.Contains (m.apply q)

/-- What a node keeps for itself and everything below it, in its own space: the width about the
middle of the box, the height from the upper edge of the box down. -/
def extent (n : Node K) : Rect K :=
  ⟨n.width / ofNat 2 - n.treeWidth / ofNat 2, -n.height / ofNat 2,
    n.width / ofNat 2 + n.treeWidth / ofNat 2, n.treeHeight - n.height / ofNat 2⟩

/-- What stands at a path of an arranged diagram is, but for the place of its root, what stands
there before, arranged on its own. -/
theorem at?_arrange {layout : LayoutSettings K} {d c : Diagram K} {path : Path}
    (h : (arrange layout d).at? path = some c) : ∃ b, d.at? path = some b ∧
      c.value.shape = b.value.shape ∧ c.children = (arrange layout b).children := by
  have hchildren := children_at?_arrange layout path d
  have hvalue := Tree.valueAt?_map Node.shape (arrange layout d) path
  rw [map_arrange fun _ _ _ => rfl, Tree.valueAt?_map, Tree.valueAt?, Tree.valueAt?, h] at hvalue
  rw [h] at hchildren
  cases hb : d.at? path with
  | none => rw [hb] at hchildren; cases hchildren
  | some b =>
      rw [hb] at hchildren hvalue
      exact ⟨b, rfl, (Option.some.inj hvalue).symm, Option.some.inj hchildren⟩

end Definitions

variable {K : Type} [ExactScalar K] {layout : LayoutSettings K}

/-! ## Boxes in the space of a node -/

theorem mul_shift (u v : Vec K) :
    (Affine.shift u).mul (.shift v) = .shift ⟨v.x + u.x, v.y + u.y⟩ := by
  simp [Affine.shift, Affine.mul]

/-- Where no node is turned or scaled the maps along a path move the box there. -/
theorem transformFrom?_of_boxAt? (path : Path) : ∀ {v : Vec K} {d : Diagram K} {r : Rect K},
    d.Upright → boxAt? d path = some r → ∃ n u, d.valueAt? path = some n ∧
      transformFrom? (.shift v) d path = some (.shift u) ∧ r.moveBy v = n.box.moveBy u := by
  induction path with
  | nil =>
      intro v d r _ h
      rw [boxAt?_nil] at h
      cases h
      exact ⟨d.value, v, rfl, rfl, rfl⟩
  | cons i path ih =>
      intro v d r hd h
      rw [boxAt?_cons] at h
      obtain ⟨c, hc, h⟩ := Option.bind_eq_some_iff.mp h
      obtain ⟨s, hs, rfl⟩ := Option.map_eq_some_iff.mp h
      have hroot := transform_upright (hd.child hc).root
      obtain ⟨n, u, hn, hu, hbox⟩ := ih (v := ⟨c.value.placement.position.x + v.x,
        c.value.placement.position.y + v.y⟩) (hd.child hc) hs
      refine ⟨n, u, ?_, ?_, ?_⟩
      · rw [Tree.valueAt?_cons, hc, Option.bind_some, hn]
      · rw [transformFrom?, hc, Option.bind_some, hroot, mul_shift]
        exact hu
      · rw [← hbox]
        simp only [Rect.moveBy, Point.toVec, add_assoc]

theorem encloses_iff {r : Rect K} {d : Diagram K} (hd : d.Upright)
    (hbox : d.All fun n => 0 ≤ n.width ∧ 0 ≤ n.height) :
    Encloses r d ↔ ∀ path s, boxAt? d path = some s → s.Within r := by
  have hidentity : (Affine.identity : Affine K) = .shift .zero := rfl
  have hstay : ∀ s : Rect K, s.moveBy .zero = s := by
    intro s
    simp [Rect.moveBy, Vec.zero]
  have happly : ∀ (u : Vec K) (q : Point K), (Affine.shift u).apply q = ⟨q.x + u.x, q.y + u.y⟩ := by
    intro u q
    simp [Affine.apply, Affine.shift]
  constructor
  · intro h path s hs
    obtain ⟨n, u, hn, hu, heq⟩ := transformFrom?_of_boxAt? (v := .zero) path hd hs
    obtain ⟨hwidth, hheight⟩ := hbox path n hn
    have hhalf : -n.height / ofNat 2 ≤ n.height / ofNat 2 := by
      rw [ExactScalar.ofNat_eq_cast, Nat.cast_ofNat]
      linarith
    -- two opposite corners of the box tell where all of it is
    have hupper := h path n _ hn (hidentity ▸ hu) ⟨n.box.x0, n.box.y0⟩
      ⟨le_rfl, hwidth, le_rfl, hhalf⟩
    have hlower := h path n _ hn (hidentity ▸ hu) ⟨n.box.x1, n.box.y1⟩
      ⟨hwidth, le_rfl, hhalf, le_rfl⟩
    rw [happly] at hupper hlower
    rw [← hstay s, heq]
    exact ⟨hupper.1, hlower.2.1, hupper.2.2.1, hlower.2.2.2⟩
  · rintro h path n m hn hm q ⟨hleft, hright, htop, hbottom⟩
    have hsome : (boxAt? d path).isSome := by
      rw [isSome_boxAt?, ← Option.isSome_map (f := Tree.value)]
      exact Option.isSome_of_eq_some hn
    obtain ⟨s, hs⟩ := Option.isSome_iff_exists.mp hsome
    obtain ⟨n', u, hn', hu, heq⟩ := transformFrom?_of_boxAt? (v := .zero) path hd hs
    cases hn.symm.trans hn'
    cases hm.symm.trans (hidentity ▸ hu)
    rw [hstay] at heq
    obtain ⟨hwest, heast, hnorth, hsouth⟩ := heq ▸ h path s hs
    rw [happly]
    exact ⟨hwest.trans (add_le_add_left hleft _), (add_le_add_left hright _).trans heast,
      hnorth.trans (add_le_add_left htop _), (add_le_add_left hbottom _).trans hsouth⟩

/-! ## Edges that are reached -/

theorem slotLeft_zero (left : K) (cs : List (Diagram K)) : slotLeft layout left cs 0 = left := by
  cases cs <;> rfl

theorem exists_slotLeft_last (layout : LayoutSettings K) (cs : List (Diagram K)) :
    ∀ left : K, cs ≠ [] → ∃ i c, cs[i]? = some c ∧
      slotLeft layout left cs i + c.value.treeWidth = left + childrenWidth layout cs := by
  induction cs with
  | nil => intro left h; exact absurd rfl h
  | cons c cs ih =>
      intro left _
      cases cs with
      | nil => exact ⟨0, c, rfl, by rw [childrenWidth_singleton, slotLeft_zero]⟩
      | cons b cs =>
          obtain ⟨i, last, hlast, heq⟩ :=
            ih (left + (c.value.treeWidth + layout.neighborSpacing)) (List.cons_ne_nil b cs)
          refine ⟨i + 1, last, hlast, ?_⟩
          rw [slotLeft, heq, childrenWidth_cons_cons]
          ring

/-- Either the box of the root reaches both edges of what it takes up, or its children do. -/
theorem Measured.widest {n : Node K} {cs : List (Diagram K)} (h : Measured layout (.node n cs)) :
    n.treeWidth = n.width ∨ cs ≠ [] ∧ n.treeWidth = childrenWidth layout cs := by
  cases h with
  | node _ hwidth htree _ =>
      rcases max_choice n.width (childrenWidth layout cs) with hmax | hmax
      · exact .inl (htree.trans hmax)
      · cases cs with
        | nil => exact .inl (htree.trans (max_eq_left hwidth))
        | cons c cs => exact .inr ⟨List.cons_ne_nil c cs, htree.trans hmax⟩

theorem boxAt?_arrange_child (hstill : layout.glideVelocity = 0) {n : Node K}
    {cs : List (Diagram K)} {i : Nat} {c : Diagram K} {path : Path} {s : Rect K}
    (hc : cs[i]? = some c) (hs : boxAt? (arrange layout c) path = some s) :
    boxAt? (arrange layout (.node n cs)) (i :: path) =
      some (s.moveBy (slot layout (slotLeft layout (reachLeft n) cs i) c.value).toVec) := by
  rw [boxAt?_arrange_cons hstill, show (Tree.node n cs).children[i]? = some c from hc,
    Option.bind_some, hs]
  rfl

theorem exists_boxAt?_left (hstill : layout.glideVelocity = 0) {d : Diagram K}
    (hd : Measured layout d) : ∃ path r, boxAt? (arrange layout d) path = some r ∧
      r.x0 = reachLeft d.value := by
  induction d using Tree.node_induction with
  | node n cs ih =>
      rcases hd.widest with hown | ⟨hne, _⟩
      · refine ⟨[], n.box, rfl, ?_⟩
        rw [Tree.value, reachLeft, hown, neg_div, neg_add_cancel]
        rfl
      · obtain ⟨c, cs, rfl⟩ := List.exists_cons_of_ne_nil hne
        obtain ⟨path, s, hs, hleft⟩ := ih c List.mem_cons_self (hd.child (i := 0) rfl)
        refine ⟨0 :: path, _, boxAt?_arrange_child hstill rfl hs, ?_⟩
        have hslot := slot_add_reachLeft layout (reachLeft n) c.value
        rw [slotLeft_zero, Rect.moveBy, hleft, add_comm]
        exact hslot

theorem exists_boxAt?_right (hstill : layout.glideVelocity = 0) {d : Diagram K}
    (hd : Measured layout d) : ∃ path r, boxAt? (arrange layout d) path = some r ∧
      r.x1 = reachRight d.value := by
  induction d using Tree.node_induction with
  | node n cs ih =>
      rcases hd.widest with hown | ⟨hne, hchildren⟩
      · refine ⟨[], n.box, rfl, ?_⟩
        rw [Tree.value, reachRight, reachLeft, hown, neg_div, neg_add_cancel, zero_add]
        rfl
      · obtain ⟨i, c, hc, hlast⟩ := exists_slotLeft_last layout cs (reachLeft n) hne
        obtain ⟨path, s, hs, hright⟩ := ih c (List.mem_of_getElem? hc) (hd.child hc)
        refine ⟨i :: path, _, boxAt?_arrange_child hstill hc hs, ?_⟩
        have hslot := slot_add_reachRight layout (slotLeft layout (reachLeft n) cs i) c.value
        have hreach : reachRight n = reachLeft n + childrenWidth layout cs := by
          rw [reachRight, hchildren]
        rw [Tree.value, hreach, ← hlast, ← hslot, add_comm, ← hright]
        rfl

/-! ## Heights -/

theorem treeHeightOver_buildAll (hspacing : 0 ≤ layout.childSpacing) (measure : TextMeasure K)
    (items : List Expr) : ∀ (next : ObjectId) {height : K}, layout.minNodeHeight ≤ height →
      treeHeightOver layout height (buildAll measure layout items next).1 =
        max height (layout.minNodeHeight + layout.childSpacing * Expr.depthAll items) := by
  induction items using Expr.items_induction with
  | nil =>
      intro next height hheight
      rw [Expr.depthAll, Nat.cast_zero, mul_zero, add_zero, max_eq_left hheight]
      rfl
  | atom a rest ih =>
      intro next height hheight
      rw [Expr.depthAll, Expr.depth, Nat.zero_max]
      exact ih next hheight
  | list inner rest ihInner ih =>
      intro next height hheight
      have hinner := ihInner next (le_refl layout.minNodeHeight)
      have hdeep : layout.minNodeHeight ≤
          layout.minNodeHeight + layout.childSpacing * Expr.depthAll inner :=
        le_add_of_nonneg_right (mul_nonneg hspacing (Nat.cast_nonneg _))
      rw [max_eq_right hdeep] at hinner
      have hcons : treeHeightOver layout height
          (buildAll measure layout (.list inner :: rest) next).1 =
        treeHeightOver layout (max height (treeHeightOver layout layout.minNodeHeight
            (buildAll measure layout inner next).1 + layout.childSpacing))
          (buildAll measure layout rest (buildAll measure layout inner next).2.next).1 := rfl
      rw [hcons, ih _ (hheight.trans (le_max_left ..)), hinner, Expr.depthAll, Expr.depth,
        Nat.cast_max, mul_max_of_nonneg _ _ hspacing, ← max_add_add_left, max_assoc]
      push_cast
      ring_nf

theorem treeHeight_build (hspacing : 0 ≤ layout.childSpacing) (measure : TextMeasure K) (e : Expr)
    (next : ObjectId) : (build measure layout e next).1.value.treeHeight =
      layout.minNodeHeight + layout.childSpacing * ((Expr.list e.content).depth - 1) := by
  have hdepth : ((Expr.list e.content).depth : K) - 1 = Expr.depthAll e.content := by
    rw [Expr.depth]
    push_cast
    ring
  have hheight : (build measure layout e next).1.value.treeHeight =
      treeHeightOver layout layout.minNodeHeight (buildAll measure layout e.content next).1 := by
    rw [build_eq]
    rfl
  rw [hheight, treeHeightOver_buildAll hspacing measure e.content next le_rfl, hdepth]
  exact max_eq_right (le_add_of_nonneg_right (mul_nonneg hspacing (Nat.cast_nonneg _)))

/-! ## The extent -/

theorem extent_eq {d : Diagram K} (hd : Measured layout d) : extent d.value =
    ⟨reachLeft d.value, -layout.minNodeHeight / 2, reachRight d.value,
      d.value.treeHeight - layout.minNodeHeight / 2⟩ := by
  simp only [extent, reachRight, reachLeft, hd.height_eq, ExactScalar.ofNat_eq_cast,
    Nat.cast_ofNat, Rect.mk.injEq, true_and, and_true]
  constructor <;> ring

theorem boxAt?_congr {d d' : Diagram K} (hbox : d.value.box = d'.value.box)
    (hchildren : d.children = d'.children) (path : Path) : boxAt? d path = boxAt? d' path := by
  cases path with
  | nil => rw [boxAt?_nil, boxAt?_nil, hbox]
  | cons i path => rw [boxAt?_cons, boxAt?_cons, hchildren]

/-- A rectangle that all boxes of an arranged diagram lie in is one that the extent lies in. -/
theorem within_iff_extent_within (hmetrics : layout.Nonnegative)
    (hstill : layout.glideVelocity = 0) {d : Diagram K} (hd : Measured layout d)
    (hheight : Stacked layout d) (r : Rect K) :
    (∀ path s, boxAt? (arrange layout d) path = some s → s.Within r) ↔
      (extent d.value).Within r := by
  rw [extent_eq hd]
  constructor
  · intro h
    obtain ⟨p, s, hs, hleft⟩ := exists_boxAt?_left hstill hd
    obtain ⟨q, t, ht, hright⟩ := exists_boxAt?_right hstill hd
    obtain ⟨u, b, hb, hbottom⟩ := exists_boxAt?_treeHeight hstill hd hheight
    -- the box of the root is in the uppermost row
    have htop := (boxAt?_rows hstill [] d d.value.box hd (by rw [boxAt?_nil, value_arrange])).1
    have hroot := (h [] d.value.box (by rw [boxAt?_nil, value_arrange])).2.2.1
    rw [List.length_nil, Nat.cast_zero, zero_mul, zero_sub, ← neg_div] at htop
    exact ⟨(h p s hs).1.trans_eq hleft, hright ▸ (h q t ht).2.1, hroot.trans_eq htop,
      hbottom ▸ (h u b hb).2.2.2⟩
  · rintro ⟨hleft, hright, htop, hbottom⟩ path s hs
    obtain ⟨hwest, heast⟩ := boxAt?_within hmetrics.neighborSpacing hstill path d s hd hs
    have hnorth := (boxAt?_rows hstill path d s hd hs).1
    have hsouth := boxAt?_le_treeHeight hstill path d s hd hheight hs
    have hrows : 0 ≤ path.length * layout.childSpacing :=
      mul_nonneg (Nat.cast_nonneg _) hmetrics.childSpacing
    refine ⟨hleft.trans hwest, heast.trans hright, htop.trans ?_, hsouth.trans hbottom⟩
    rw [hnorth, neg_div]
    linarith

theorem nonempty_arrange_build (hmetrics : layout.Nonnegative) (measure : TextMeasure K) (e : Expr)
    (next : ObjectId) : (arrange layout (build measure layout e next).1).All
      fun n => 0 ≤ n.width ∧ 0 ≤ n.height := by
  have hbuild : (build measure layout e next).1.All fun n => 0 ≤ n.width ∧ 0 ≤ n.height :=
    all_build (fun _ _ _ => ⟨hmetrics.minNodeWidth.trans (le_max_left ..),
      hmetrics.minNodeHeight⟩) e next
  exact Tree.All.of_map_eq (P := fun size : K × K => 0 ≤ size.1 ∧ 0 ≤ size.2)
    (f := fun n : Node K => (n.width, n.height)) hbuild (map_arrange (fun _ _ _ => rfl) _)

/-- In the diagram of an expression, once it is arranged, the least rectangle around the boxes of a
node and everything below it is the extent that building has given the node, for every node, and
its height comes from how deep the list of the node nests. -/
theorem extent_least (hmetrics : layout.Nonnegative) (hstill : layout.glideVelocity = 0)
    (measure : TextMeasure K) (e : Expr) (next : ObjectId) {path : Path} {c : Diagram K}
    (hc : (arrange layout (build measure layout e next).1).at? path = some c) :
    Encloses (extent c.value) c ∧ (∀ r, Encloses r c → (extent c.value).Within r) ∧
    ∃ sub, e.listAt? path = some sub ∧ c.value.treeHeight =
      layout.minNodeHeight + layout.childSpacing * ((Expr.list sub.content).depth - 1) := by
  have hupright : c.Upright := (upright_arrange_build measure layout e next).at? path hc
  have hnonempty := (nonempty_arrange_build hmetrics measure e next).at? path hc
  obtain ⟨b, hb, hshape, hchildren⟩ := at?_arrange hc
  obtain ⟨next', hat⟩ := at?_build measure layout path e next
  obtain ⟨sub, hsub, rfl⟩ := Option.map_eq_some_iff.mp (hat.symm.trans hb)
  -- the subtree is, but for the place of its root, the diagram of the list arranged on its own
  have hboxes : ∀ path, boxAt? c path =
      boxAt? (arrange layout (build measure layout sub next').1) path := by
    refine boxAt?_congr ?_ hchildren
    rw [value_arrange]
    exact (congrArg Node.box hshape :)
  have hextent : extent c.value = extent (build measure layout sub next').1.value :=
    (congrArg extent hshape :)
  have hwithin : ∀ r, Encloses r c ↔ (extent c.value).Within r := by
    intro r
    rw [encloses_iff hupright hnonempty, hextent, ← within_iff_extent_within hmetrics hstill
      (measured_build hmetrics measure sub next') (stacked_build measure layout sub next')]
    simp only [hboxes]
  refine ⟨(hwithin _).mpr ⟨le_rfl, le_rfl, le_rfl, le_rfl⟩, fun r => (hwithin r).mp, sub, hsub, ?_⟩
  rw [show c.value.treeHeight = _ from (congrArg Node.treeHeight hshape :)]
  exact treeHeight_build hmetrics.childSpacing measure sub next'

theorem extent_least_nested :
    let layout : LayoutSettings ℝ := .standard
    let e : Expr := .list [.list [.list [], .list []], .list []]
    layout.Nonnegative ∧ layout.glideVelocity = 0 ∧
      ∃ c, (arrange layout (build (fun _ => 6) layout e .first).1).at? [0] = some c ∧
        Encloses (extent c.value) c ∧ (∀ r, Encloses r c → (extent c.value).Within r) ∧
        c.value.treeHeight = 125 / 2 := by
  intro layout e
  have hmetrics : layout.Nonnegative := LayoutSettings.standard_nonnegative
  have hstill : layout.glideVelocity = 0 := Nat.cast_zero
  have hsome : ((arrange layout (build (fun _ => 6) layout e .first).1).at? [0]).isSome := rfl
  obtain ⟨c, hc⟩ := Option.isSome_iff_exists.mp hsome
  obtain ⟨hencloses, hleast, sub, hsub, hheight⟩ :=
    extent_least hmetrics hstill (fun _ => 6) e .first hc
  refine ⟨hmetrics, hstill, c, hc, hencloses, hleast, hheight.trans ?_⟩
  cases hsub
  have hdepth : (Expr.list (Expr.list [.list [], .list []]).content).depth = 2 := rfl
  have hlayout : layout.minNodeHeight = (25 : ℕ) ∧ layout.childSpacing = (375 : ℕ) / 10 ^ 1 :=
    ⟨rfl, rfl⟩
  rw [hdepth, hlayout.1, hlayout.2]
  norm_num

end Diagram

end SExprViewer
