import SExprViewer.Proofs.Diagram.Gliding
import SExprViewer.Proofs.Diagram.Upright

/-! # Rows

The height of a diagram is that of everything which stands in its rows: no box goes below it
(`boxAt?_le_treeHeight`), and some box goes down all the way (`exists_boxAt?_treeHeight`).  Where
no node is turned or scaled, what is drawn are the boxes, moved to where the root stands
(`shows_iff_boxAt?`). -/
set_option autoImplicit false

namespace SExprViewer.Diagram

/-! ## Heights -/

section Definitions
variable {K : Type} [Scalar K]

/-- The height of every node reaches from its box over the rows below it. -/
inductive Stacked (layout : LayoutSettings K) : Diagram K → Prop
  | node {n : Node K} {cs : List (Diagram K)}
      (htree : n.treeHeight = treeHeightOver layout layout.minNodeHeight cs)
      (hcs : ∀ c ∈ cs, Stacked layout c) : Stacked layout (.node n cs)

theorem stacked_build (measure : TextMeasure K) (layout : LayoutSettings K) (e : Expr)
    (next : ObjectId) : Stacked layout (build measure layout e next).1 :=
  build_induction (fun _ _ _ hcs => .node rfl hcs) e next

theorem Stacked.treeHeight_eq {layout : LayoutSettings K} {d : Diagram K} (h : Stacked layout d) :
    d.value.treeHeight = treeHeightOver layout layout.minNodeHeight d.children := by
  cases h with
  | node htree _ => exact htree

theorem Stacked.child {layout : LayoutSettings K} {d c : Diagram K} (h : Stacked layout d) {i : Nat}
    (hc : d.children[i]? = some c) : Stacked layout c := by
  cases h with
  | node _ hcs => exact hcs c (List.mem_of_getElem? hc)

end Definitions

variable {K : Type} [ExactScalar K] {layout : LayoutSettings K}

theorem le_treeHeightOver (layout : LayoutSettings K) (cs : List (Diagram K)) : ∀ height : K,
    height ≤ treeHeightOver layout height cs := by
  induction cs with
  | nil => intro height; exact le_rfl
  | cons c rest ih => intro height; exact (le_max_left ..).trans (ih _)

theorem treeHeight_add_le_treeHeightOver (layout : LayoutSettings K) (cs : List (Diagram K)) :
    ∀ (height : K) {c : Diagram K}, c ∈ cs →
      c.value.treeHeight + layout.childSpacing ≤ treeHeightOver layout height cs := by
  induction cs with
  | nil => intro height c hc; cases hc
  | cons b rest ih =>
      intro height c hc
      rcases List.mem_cons.mp hc with rfl | hc
      · exact (le_max_right ..).trans (le_treeHeightOver layout rest _)
      · exact ih _ hc

theorem treeHeightOver_cases (layout : LayoutSettings K) (cs : List (Diagram K)) : ∀ height : K,
    treeHeightOver layout height cs = height ∨ ∃ (i : Nat) (c : Diagram K), cs[i]? = some c ∧
      treeHeightOver layout height cs = c.value.treeHeight + layout.childSpacing := by
  induction cs with
  | nil => intro height; exact .inl rfl
  | cons b rest ih =>
      intro height
      have hcons : treeHeightOver layout height (b :: rest) =
          treeHeightOver layout (max height (b.value.treeHeight + layout.childSpacing)) rest := rfl
      rcases ih (max height (b.value.treeHeight + layout.childSpacing)) with h | ⟨i, c, hc, h⟩
      · rcases max_choice height (b.value.treeHeight + layout.childSpacing) with hmax | hmax
        · exact .inl (hcons.trans (h.trans hmax))
        · exact .inr ⟨0, b, rfl, hcons.trans (h.trans hmax)⟩
      · exact .inr ⟨i + 1, c, hc, hcons.trans h⟩

/-- All boxes below a node are within its height. -/
theorem boxAt?_le_treeHeight (hstill : layout.glideVelocity = 0) (path : Path) :
    ∀ (d : Diagram K) (r : Rect K), Measured layout d → Stacked layout d →
      boxAt? (arrange layout d) path = some r →
      r.y1 ≤ d.value.treeHeight - layout.minNodeHeight / 2 := by
  induction path with
  | nil =>
      intro d r hd hheight h
      have hbottom := (boxAt?_rows hstill [] d r hd h).2
      have hown := le_treeHeightOver layout d.children layout.minNodeHeight
      rw [List.length_nil, Nat.cast_zero] at hbottom
      rw [hbottom, hheight.treeHeight_eq]
      linarith
  | cons i path ih =>
      intro d r hd hheight h
      obtain ⟨c, s, hc, hs, rfl⟩ := exists_boxAt?_of_cons hstill h
      have hbelow := ih c s (hd.child hc) (hheight.child hc) hs
      have hrow := treeHeight_add_le_treeHeightOver layout d.children
        layout.minNodeHeight (List.mem_of_getElem? hc)
      rw [hheight.treeHeight_eq]
      simp only [Rect.moveBy, slot, Point.toVec]
      linarith

theorem exists_boxAt?_treeHeight (hstill : layout.glideVelocity = 0) {d : Diagram K}
    (hd : Measured layout d) (hheight : Stacked layout d) :
    ∃ path r, boxAt? (arrange layout d) path = some r ∧
      r.y1 = d.value.treeHeight - layout.minNodeHeight / 2 := by
  induction d using Tree.node_induction with
  | node n cs ih =>
      have htree := hheight.treeHeight_eq
      rcases treeHeightOver_cases layout cs layout.minNodeHeight with
        hown | ⟨i, c, hc, hrow⟩
      · refine ⟨[], n.box, rfl, ?_⟩
        have hbottom := (boxAt?_rows hstill [] _ n.box hd rfl).2
        rw [hbottom, htree, show treeHeightOver _ _ (Tree.node n cs).children = _ from hown,
          List.length_nil, Nat.cast_zero]
        ring
      · obtain ⟨path, s, hs, hdeep⟩ :=
          ih c (List.mem_of_getElem? hc) (hd.child hc) (hheight.child hc)
        have hbox : boxAt? (arrange layout (.node n cs)) (i :: path) = some (s.moveBy
            (slot layout (slotLeft layout (reachLeft n) cs i) c.value).toVec) := by
          rw [boxAt?_arrange_cons hstill, show (Tree.node n cs).children[i]? = some c from hc,
            Option.bind_some, hs]
          rfl
        refine ⟨i :: path, _, hbox, ?_⟩
        rw [htree, show treeHeightOver _ _ (Tree.node n cs).children = _ from hrow]
        simp only [Rect.moveBy, slot, Point.toVec, hdeep]
        ring

theorem boxAt?_nonempty (hstill : layout.glideVelocity = 0) (hheight : 0 ≤ layout.minNodeHeight)
    (path : Path) : ∀ (d : Diagram K) (r : Rect K), Measured layout d →
      boxAt? (arrange layout d) path = some r → r.x0 ≤ r.x1 ∧ r.y0 ≤ r.y1 := by
  induction path with
  | nil =>
      intro d r hd h
      have hrow := boxAt?_rows hstill [] d r hd h
      rw [boxAt?_nil, value_arrange, Option.some.injEq] at h
      refine ⟨?_, by linarith⟩
      subst h
      cases hd with
      | node _ hwidth _ _ => exact hwidth
  | cons i path ih =>
      intro d r hd h
      obtain ⟨c, s, hc, hs, rfl⟩ := exists_boxAt?_of_cons hstill h
      obtain ⟨hx, hy⟩ := ih c s (hd.child hc) hs
      exact ⟨add_le_add_left hx _, add_le_add_left hy _⟩

/-- Where boxes stand in an arranged diagram comes from the shape alone. -/
theorem boxAt?_arrange_shape (hstill : layout.glideVelocity = 0) (path : Path) :
    ∀ d : Diagram K, boxAt? (arrange layout d.shape) path = boxAt? (arrange layout d) path := by
  induction path with
  | nil =>
      intro d
      rw [boxAt?_nil, boxAt?_nil, value_arrange, value_arrange, value_shape]
      rfl
  | cons i path ih =>
      intro d
      have hreach : reachLeft d.shape.value = reachLeft d.value := by
        rw [value_shape]
        rfl
      rw [boxAt?_arrange_cons hstill, boxAt?_arrange_cons hstill, hreach, children_shape,
        List.getElem?_map, slotLeft_shape]
      cases d.children[i]? with
      | none => rfl
      | some c =>
          rw [Option.map_some, Option.bind_some, Option.bind_some, ih c, value_shape]
          rfl

/-! ## What is drawn -/

theorem contains_moveBy_iff {m : Affine K} {r : Rect K} {v : Vec K} {p : Point K} :
    (∃ q, (r.moveBy v).Contains q ∧ m.apply q = p) ↔
      ∃ q, r.Contains q ∧ (m.mul (.shift v)).apply q = p := by
  have hshift : ∀ q : Point K, (Affine.shift v).apply q = ⟨q.x + v.x, q.y + v.y⟩ := by
    intro q
    simp [Affine.apply, Affine.shift]
  constructor
  · rintro ⟨⟨x, y⟩, ⟨h₁, h₂, h₃, h₄⟩, hp⟩
    dsimp only [Rect.moveBy] at h₁ h₂ h₃ h₄
    have hr : r.Contains ⟨x - v.x, y - v.y⟩ := by
      refine ⟨?_, ?_, ?_, ?_⟩ <;> linarith
    exact ⟨_, hr, by rw [Affine.mul_apply, hshift, sub_add_cancel, sub_add_cancel, hp]⟩
  · rintro ⟨q, ⟨h₁, h₂, h₃, h₄⟩, hp⟩
    rw [Affine.mul_apply, hshift] at hp
    have hr : (r.moveBy v).Contains ⟨q.x + v.x, q.y + v.y⟩ := by
      refine ⟨?_, ?_, ?_, ?_⟩ <;> dsimp only [Rect.moveBy] <;> linarith
    exact ⟨_, hr, hp⟩

theorem shows_iff_boxAt? (path : Path) : ∀ (m : Affine K) (d : Diagram K) (p : Point K), d.Upright →
    (Shows m d path p ↔ ∃ r, boxAt? d path = some r ∧
      ∃ q, (r.moveBy d.value.placement.position.toVec).Contains q ∧ m.apply q = p) := by
  induction path with
  | nil =>
      intro m d p hd
      rw [shows_nil, boxAt?_nil, transform_upright hd.root, ← contains_moveBy_iff]
      simp only [Option.some.injEq, exists_eq_left']
  | cons i path ih =>
      intro m d p hd
      rw [shows_cons, boxAt?_cons, transform_upright hd.root]
      cases hc : d.children[i]? with
      | none => simp
      | some c =>
          simp only [Option.some.injEq, exists_eq_left', Option.bind_some, Option.map_eq_some_iff,
            exists_exists_and_eq_and]
          rw [ih _ c p (hd.child hc)]
          exact exists_congr fun r => and_congr_right fun _ => contains_moveBy_iff.symm

end SExprViewer.Diagram
