import SExprViewer.Proofs.Geometry.Affine
import SExprViewer.Proofs.Diagram.Nodes

/-! # Boxes that keep their distance

In a diagram that is built and arranged, everything below a node stays within the width that the
node has reserved (`boxAt?_within`), every generation stands in a row of its own
(`boxAt?_rows`), and the slots of two children of one node are apart (`slotLeft_apart`).
So cousins are apart like siblings, however the tree branches (`boxes_apart`). -/
set_option autoImplicit false

namespace SExprViewer

/-- Every length of a layout is one; the speed of a glide is not a length. -/
structure LayoutSettings.Nonnegative {K : Type} [Scalar K] (layout : LayoutSettings K) : Prop where
  minNodeWidth : 0 ≤ layout.minNodeWidth
  minNodeHeight : 0 ≤ layout.minNodeHeight
  connectorSize : 0 ≤ layout.connectorSize
  neighborSpacing : 0 ≤ layout.neighborSpacing
  childSpacing : 0 ≤ layout.childSpacing
  segmentSpacing : 0 ≤ layout.segmentSpacing
  padding : 0 ≤ layout.padding

theorem LayoutSettings.standard_nonnegative {K : Type} [ExactScalar K] :
    (standard : LayoutSettings K).Nonnegative := by
  constructor <;>
    simp only [standard, ExactScalar.ofNat_eq_cast, ExactScalar.decimal_eq] <;> positivity

/-- One rectangle lies in another. -/
def Rect.Within {K : Type} [LE K] (r s : Rect K) : Prop :=
  s.x0 ≤ r.x0 ∧ r.x1 ≤ s.x1 ∧ s.y0 ≤ r.y0 ∧ r.y1 ≤ s.y1

/-- One box ends at least `gap` before the other begins, from left to right. -/
def Rect.LeftOf {K : Type} [Add K] [LE K] (gap : K) (r s : Rect K) : Prop := r.x1 + gap ≤ s.x0

/-- One box ends at least `gap` before the other begins, from top to bottom. -/
def Rect.Above {K : Type} [Add K] [LE K] (gap : K) (r s : Rect K) : Prop := r.y1 + gap ≤ s.y0

namespace Diagram

open Scalar (ofNat)

section Definitions
variable {K : Type} [Scalar K]

/-- The box of the node at a path, in the space of the root: positions along the path are
added up. -/
def boxAt? : Diagram K → Path → Option (Rect K)
  | d, [] => some d.value.box
  | d, i :: path => d.children[i]?.bind fun c =>
      (boxAt? c path).map (·.moveBy c.value.placement.position.toVec)

/-- The right edge of what a node's subtree takes up, in the node's own space. -/
def reachRight (n : Node K) : K := reachLeft n + n.treeWidth

/-- Every node is as high as all, and takes up its own width and that of its children. -/
inductive Measured (layout : LayoutSettings K) : Diagram K → Prop
  | node {n : Node K} {cs : List (Diagram K)} (hheight : n.height = layout.minNodeHeight)
      (hwidth : 0 ≤ n.width) (htree : n.treeWidth = max n.width (childrenWidth layout cs))
      (hcs : ∀ c ∈ cs, Measured layout c) : Measured layout (.node n cs)

end Definitions

variable {K : Type} [ExactScalar K] {layout : LayoutSettings K}

theorem measured_build (hmetrics : layout.Nonnegative) (measure : TextMeasure K) (e : Expr)
    (next : ObjectId) : Measured layout (build measure layout e next).1 := by
  refine build_induction (fun items cs id hcs => ?_) e next
  exact .node rfl (hmetrics.minNodeWidth.trans (le_max_left ..)) rfl hcs

namespace Measured

theorem width_le {d : Diagram K} (h : Measured layout d) : d.value.width ≤ d.value.treeWidth := by
  cases h with
  | node _ _ htree _ => exact htree ▸ le_max_left ..

theorem treeWidth_nonneg {d : Diagram K} (h : Measured layout d) : 0 ≤ d.value.treeWidth := by
  have hle := h.width_le
  cases h with
  | node _ hwidth _ _ => exact hwidth.trans hle

theorem height_eq {d : Diagram K} (h : Measured layout d) :
    d.value.height = layout.minNodeHeight := by
  cases h with
  | node hheight _ _ _ => exact hheight

theorem child {d c : Diagram K} (h : Measured layout d) {i : Nat} (hc : d.children[i]? = some c) :
    Measured layout c := by
  cases h with
  | node _ _ _ hcs => exact hcs c (List.mem_of_getElem? hc)

theorem childrenWidth_le {d : Diagram K} (h : Measured layout d) :
    childrenWidth layout d.children ≤ d.value.treeWidth := by
  cases h with
  | node _ _ htree _ => exact htree ▸ le_max_right ..

end Measured

/-! ## Slots -/

theorem foldl_treeWidth (cs : List (Diagram K)) : ∀ a : K,
    cs.foldl (fun sum c => sum + c.value.treeWidth) a =
      a + cs.foldl (fun sum c => sum + c.value.treeWidth) 0 := by
  induction cs with
  | nil => intro a; simp
  | cons c rest ih =>
      intro a
      rw [List.foldl_cons, List.foldl_cons, ih (a + _), ih (0 + _)]
      ring

theorem childrenWidth_singleton (c : Diagram K) :
    childrenWidth layout [c] = c.value.treeWidth := by
  simp [childrenWidth, ExactScalar.ofNat_eq_cast]

theorem childrenWidth_cons_cons (c d : Diagram K) (rest : List (Diagram K)) :
    childrenWidth layout (c :: d :: rest) =
      c.value.treeWidth + layout.neighborSpacing + childrenWidth layout (d :: rest) := by
  simp only [childrenWidth, List.isEmpty_cons, Bool.false_eq_true, if_false,
    ExactScalar.ofNat_eq_cast, List.length_cons, Nat.add_sub_cancel]
  rw [List.foldl_cons, foldl_treeWidth]
  push_cast
  ring

theorem le_slotLeft (hspacing : 0 ≤ layout.neighborSpacing) (cs : List (Diagram K)) :
    ∀ (left : K) (i : Nat), (∀ c ∈ cs, 0 ≤ c.value.treeWidth) →
      left ≤ slotLeft layout left cs i := by
  induction cs with
  | nil => intro left i _; exact le_rfl
  | cons c rest ih =>
      intro left i hcs
      cases i with
      | zero => exact le_rfl
      | succ i =>
          have hc := hcs c List.mem_cons_self
          have hrest := ih (left + (c.value.treeWidth + layout.neighborSpacing)) i
            fun d hd => hcs d (List.mem_cons_of_mem _ hd)
          exact le_trans (by linarith) hrest

theorem slotLeft_apart (hspacing : 0 ≤ layout.neighborSpacing) (cs : List (Diagram K)) :
    ∀ (left : K) (i j : Nat) (c : Diagram K), (∀ c ∈ cs, 0 ≤ c.value.treeWidth) → i < j →
      cs[i]? = some c →
      slotLeft layout left cs i + c.value.treeWidth + layout.neighborSpacing ≤
        slotLeft layout left cs j := by
  induction cs with
  | nil => intro left i j c _ _ hc; cases hc
  | cons d rest ih =>
      intro left i j c hcs hij hc
      have hrest : ∀ c ∈ rest, 0 ≤ c.value.treeWidth :=
        fun c hc => hcs c (List.mem_cons_of_mem _ hc)
      obtain ⟨j, rfl⟩ : ∃ k, j = k + 1 := ⟨j - 1, by omega⟩
      cases i with
      | zero =>
          cases hc
          exact le_trans (le_of_eq (add_assoc ..)) (le_slotLeft hspacing rest _ j hrest)
      | succ i => exact ih _ i j c hrest (by omega) hc

theorem slotLeft_add_le (hspacing : 0 ≤ layout.neighborSpacing) (cs : List (Diagram K)) :
    ∀ (left : K) (i : Nat) (c : Diagram K), (∀ c ∈ cs, 0 ≤ c.value.treeWidth) →
      cs[i]? = some c →
      slotLeft layout left cs i + c.value.treeWidth ≤ left + childrenWidth layout cs := by
  induction cs with
  | nil => intro left i c _ hc; cases hc
  | cons d rest ih =>
      intro left i c hcs hc
      have hrest : ∀ c ∈ rest, 0 ≤ c.value.treeWidth :=
        fun c hc => hcs c (List.mem_cons_of_mem _ hc)
      cases rest with
      | nil =>
          cases i with
          | zero => cases hc; rw [childrenWidth_singleton]; exact le_rfl
          | succ i => cases hc
      | cons d' rest =>
          rw [childrenWidth_cons_cons]
          cases i with
          | zero =>
              cases hc
              -- what follows the first slot is not narrower than nothing
              have hfollow := ih left 0 d' hrest rfl
              have hd' := hrest d' List.mem_cons_self
              simp only [slotLeft] at hfollow ⊢
              linarith
          | succ i =>
              have h := ih (left + (d.value.treeWidth + layout.neighborSpacing)) i c hrest hc
              simp only [slotLeft] at h ⊢
              linarith

/-! ## Boxes -/

theorem boxAt?_nil (d : Diagram K) : boxAt? d [] = some d.value.box := by
  rw [boxAt?]

theorem boxAt?_cons (d : Diagram K) (i : Nat) (path : Path) :
    boxAt? d (i :: path) = d.children[i]?.bind fun c =>
      (boxAt? c path).map (·.moveBy c.value.placement.position.toVec) := by
  rw [boxAt?]

theorem boxAt?_modifyRoot {f : Node K → Node K} (d : Diagram K) (hf : (f d.value).box = d.value.box)
    (path : Path) : boxAt? (d.modifyRoot f) path = boxAt? d path := by
  cases path with
  | nil => rw [boxAt?_nil, boxAt?_nil, Tree.value_modifyRoot, hf]
  | cons i path => rw [boxAt?_cons, boxAt?_cons, Tree.children_modifyRoot]

theorem isSome_boxAt? (path : Path) : ∀ d : Diagram K,
    (boxAt? d path).isSome = (d.at? path).isSome := by
  induction path with
  | nil => intro d; rw [boxAt?_nil, Tree.at?_nil]; rfl
  | cons i path ih =>
      intro d
      rw [boxAt?_cons, Tree.at?_cons]
      cases d.children[i]? with
      | none => rfl
      | some c => simp [ih c]

/-- The place of a child whose subtree begins at `left`. -/
def slot (layout : LayoutSettings K) (left : K) (n : Node K) : Point K :=
  ⟨left + n.treeWidth / ofNat 2 - n.width / ofNat 2, layout.childSpacing⟩

theorem slot_add_reachLeft (layout : LayoutSettings K) (left : K) (n : Node K) :
    (slot layout left n).x + reachLeft n = left := by
  simp only [slot, reachLeft]
  ring

theorem slot_add_reachRight (layout : LayoutSettings K) (left : K) (n : Node K) :
    (slot layout left n).x + reachRight n = left + n.treeWidth := by
  rw [reachRight, ← add_assoc, slot_add_reachLeft]

theorem position_sendToSlot (hstill : layout.glideVelocity = 0) (left : K) (d : Diagram K) :
    (sendToSlot layout left d).value.placement.position = slot layout left d.value := by
  rw [sendToSlot, Tree.value_modifyRoot, hstill, Placement.glideTo, if_neg (by simp)]
  rfl

theorem boxAt?_arrange_cons (hstill : layout.glideVelocity = 0) (d : Diagram K) (i : Nat)
    (path : Path) : boxAt? (arrange layout d) (i :: path) = d.children[i]?.bind fun c =>
      (boxAt? (arrange layout c) path).map (·.moveBy
        (slot layout (slotLeft layout (reachLeft d.value) d.children i) c.value).toVec) := by
  rw [boxAt?_cons, children_arrange, getElem?_arrangeAll]
  cases d.children[i]? with
  | none => rfl
  | some c =>
      simp only [Option.map_some, Option.bind_some]
      rw [position_sendToSlot hstill, value_arrange, sendToSlot, boxAt?_modifyRoot _ rfl]

theorem exists_boxAt?_of_cons (hstill : layout.glideVelocity = 0) {d : Diagram K} {i : Nat}
    {path : Path} {r : Rect K} (h : boxAt? (arrange layout d) (i :: path) = some r) :
    ∃ c s, d.children[i]? = some c ∧ boxAt? (arrange layout c) path = some s ∧
        r = s.moveBy
          (slot layout (slotLeft layout (reachLeft d.value) d.children i) c.value).toVec := by
  rw [boxAt?_arrange_cons hstill] at h
  obtain ⟨c, hc, h⟩ := Option.bind_eq_some_iff.mp h
  obtain ⟨s, hs, rfl⟩ := Option.map_eq_some_iff.mp h
  exact ⟨c, s, hc, hs, rfl⟩

theorem Measured.children_nonneg {d : Diagram K} (h : Measured layout d) :
    ∀ c ∈ d.children, 0 ≤ c.value.treeWidth := by
  intro c hc
  obtain ⟨i, hi⟩ := List.getElem?_of_mem hc
  exact (h.child hi).treeWidth_nonneg

/-- All boxes below a node are within the width that it takes up. -/
theorem boxAt?_within (hspacing : 0 ≤ layout.neighborSpacing) (hstill : layout.glideVelocity = 0)
    (path : Path) : ∀ (d : Diagram K) (r : Rect K), Measured layout d →
      boxAt? (arrange layout d) path = some r →
      reachLeft d.value ≤ r.x0 ∧ r.x1 ≤ reachRight d.value := by
  induction path with
  | nil =>
      intro d r hd h
      rw [boxAt?_nil, value_arrange, Option.some.injEq] at h
      subst h
      have hwidth := hd.width_le
      simp only [reachLeft, reachRight, Node.box, ExactScalar.ofNat_eq_cast, Nat.cast_ofNat]
      constructor <;> linarith
  | cons i path ih =>
      intro d r hd h
      obtain ⟨c, s, hc, hs, rfl⟩ := exists_boxAt?_of_cons hstill h
      obtain ⟨hleft, hright⟩ := ih c s (hd.child hc) hs
      have hfirst := le_slotLeft hspacing d.children (reachLeft d.value) i hd.children_nonneg
      have hlast := slotLeft_add_le hspacing d.children (reachLeft d.value) i c
        hd.children_nonneg hc
      have hwide := hd.childrenWidth_le
      generalize slotLeft layout (reachLeft d.value) d.children i = left at hfirst hlast ⊢
      have hslotLeft := slot_add_reachLeft layout left c.value
      have hslotRight := slot_add_reachRight layout left c.value
      rw [reachRight]
      simp only [Rect.moveBy, Point.toVec]
      constructor <;> linarith

theorem boxAt?_rows (hstill : layout.glideVelocity = 0) (path : Path) :
    ∀ (d : Diagram K) (r : Rect K), Measured layout d →
      boxAt? (arrange layout d) path = some r →
      r.y0 = path.length * layout.childSpacing - layout.minNodeHeight / 2 ∧
        r.y1 = path.length * layout.childSpacing + layout.minNodeHeight / 2 := by
  induction path with
  | nil =>
      intro d r hd h
      rw [boxAt?_nil, value_arrange, Option.some.injEq] at h
      subst h
      simp only [Node.box, hd.height_eq, ExactScalar.ofNat_eq_cast, List.length_nil]
      constructor <;> push_cast <;> ring
  | cons i path ih =>
      intro d r hd h
      obtain ⟨c, s, hc, hs, rfl⟩ := exists_boxAt?_of_cons hstill h
      obtain ⟨htop, hbottom⟩ := ih c s (hd.child hc) hs
      simp only [Rect.moveBy, slot, Point.toVec, htop, hbottom, List.length_cons]
      constructor <;> push_cast <;> ring

/-- In one row boxes stand in the order of the source. -/
theorem boxAt?_ordered (hspacing : 0 ≤ layout.neighborSpacing)
    (hstill : layout.glideVelocity = 0) (p : Path) : ∀ (q : Path) (d : Diagram K) (r s : Rect K),
      Measured layout d → p.length = q.length → p < q →
      boxAt? (arrange layout d) p = some r → boxAt? (arrange layout d) q = some s →
      Rect.LeftOf layout.neighborSpacing r s := by
  induction p with
  | nil =>
      intro q d r s _ hlength hlt _ _
      rw [List.eq_nil_of_length_eq_zero hlength.symm] at hlt
      cases hlt
  | cons i p ih =>
      intro q d r s hd hlength hlt hr hs
      cases q with
      | nil => cases hlength
      | cons j q =>
          obtain ⟨c, r, hc, hr', rfl⟩ := exists_boxAt?_of_cons hstill hr
          obtain ⟨b, s, hb, hs', rfl⟩ := exists_boxAt?_of_cons hstill hs
          rcases List.cons_lt_cons_iff.mp hlt with hij | ⟨rfl, hlt'⟩
          · -- the paths part here: each box stays in the slot of its branch
            have hright := (boxAt?_within hspacing hstill p c r (hd.child hc) hr').2
            have hleft := (boxAt?_within hspacing hstill q b s (hd.child hb) hs').1
            have hapart := slotLeft_apart hspacing d.children (reachLeft d.value) i j c
              hd.children_nonneg hij hc
            have hslotRight := slot_add_reachRight layout
              (slotLeft layout (reachLeft d.value) d.children i) c.value
            have hslotLeft := slot_add_reachLeft layout
              (slotLeft layout (reachLeft d.value) d.children j) b.value
            simp only [Rect.LeftOf, Rect.moveBy, Point.toVec]
            linarith
          · obtain rfl : c = b := Option.some.inj (hc.symm.trans hb)
            have h := ih q c r s (hd.child hc) (Nat.succ.inj hlength) hlt' hr' hs'
            simp only [Rect.LeftOf, Rect.moveBy] at h ⊢
            linarith

theorem boxAt?_above (hspacing : 0 ≤ layout.childSpacing) (hstill : layout.glideVelocity = 0)
    {p q : Path} {d : Diagram K} {r s : Rect K} (hd : Measured layout d)
    (hlength : p.length < q.length) (hr : boxAt? (arrange layout d) p = some r)
    (hs : boxAt? (arrange layout d) q = some s) :
    Rect.Above (layout.childSpacing - layout.minNodeHeight) r s := by
  have hbottom := (boxAt?_rows hstill p d r hd hr).2
  have htop := (boxAt?_rows hstill q d s hd hs).1
  have hnext : (p.length : K) + 1 ≤ q.length := by exact_mod_cast hlength
  have hrows : ((p.length : K) + 1) * layout.childSpacing ≤ q.length * layout.childSpacing :=
    mul_le_mul_of_nonneg_right hnext hspacing
  rw [Rect.Above, hbottom, htop]
  linarith

/-- The boxes of two nodes of an arranged diagram are apart: in one row by the gap of
neighbours, in the order of the source, and otherwise by what a row leaves free.  The widths
of texts and the order of the metrics do not matter. -/
theorem boxes_apart (hmetrics : layout.Nonnegative) (hstill : layout.glideVelocity = 0)
    (measure : TextMeasure K) (e : Expr) (next : ObjectId) {p q : Path} (hne : p ≠ q)
    (hp : ((arrange layout (build measure layout e next).1).at? p).isSome)
    (hq : ((arrange layout (build measure layout e next).1).at? q).isSome) :
    ∃ r s, boxAt? (arrange layout (build measure layout e next).1) p = some r ∧
      boxAt? (arrange layout (build measure layout e next).1) q = some s ∧
      (p.length = q.length ∧ (p < q ∧ Rect.LeftOf layout.neighborSpacing r s ∨
          q < p ∧ Rect.LeftOf layout.neighborSpacing s r) ∨
        p.length < q.length ∧ Rect.Above (layout.childSpacing - layout.minNodeHeight) r s ∨
        q.length < p.length ∧ Rect.Above (layout.childSpacing - layout.minNodeHeight) s r) := by
  have hd := measured_build hmetrics measure e next
  rw [← isSome_boxAt?] at hp hq
  obtain ⟨r, hr⟩ := Option.isSome_iff_exists.mp hp
  obtain ⟨s, hs⟩ := Option.isSome_iff_exists.mp hq
  refine ⟨r, s, hr, hs, ?_⟩
  have hneighbors := hmetrics.neighborSpacing
  rcases lt_trichotomy p.length q.length with hlt | heq | hgt
  · exact .inr (.inl ⟨hlt, boxAt?_above hmetrics.childSpacing hstill hd hlt hr hs⟩)
  · left
    refine ⟨heq, ?_⟩
    rcases lt_or_gt_of_ne hne with hlt | hgt
    · exact .inl ⟨hlt, boxAt?_ordered hneighbors hstill p q _ r s hd heq hlt hr hs⟩
    · exact .inr ⟨hgt, boxAt?_ordered hneighbors hstill q p _ s r hd heq.symm hgt hs hr⟩
  · exact .inr (.inr ⟨hgt, boxAt?_above hmetrics.childSpacing hstill hd hgt hs hr⟩)

theorem boxes_apart_cousins :
    let layout : LayoutSettings ℝ := .standard
    let d := arrange layout (build (fun _ => 6) layout
      (.list [.list [.list []], .list [.list []]]) .first).1
    layout.Nonnegative ∧ layout.glideVelocity = 0 ∧ (d.at? [0, 0]).isSome ∧ (d.at? [1, 0]).isSome ∧
      ∃ r s, boxAt? d [0, 0] = some r ∧ boxAt? d [1, 0] = some s ∧
        Rect.LeftOf layout.neighborSpacing r s := by
  intro layout d
  have hmetrics : layout.Nonnegative := LayoutSettings.standard_nonnegative
  have hstill : layout.glideVelocity = 0 := Nat.cast_zero
  have hp : (d.at? [0, 0]).isSome := rfl
  have hq : (d.at? [1, 0]).isSome := rfl
  obtain ⟨r, s, hr, hs, hapart⟩ :=
    boxes_apart hmetrics hstill (fun _ => 6) (.list [.list [.list []], .list [.list []]]) .first
      (by decide : ([0, 0] : Path) ≠ [1, 0]) hp hq
  refine ⟨hmetrics, hstill, hp, hq, r, s, hr, hs, ?_⟩
  rcases hapart with ⟨_, ⟨_, h⟩ | ⟨hlt, _⟩⟩ | ⟨hlt, _⟩ | ⟨hlt, _⟩
  · exact h
  · exact absurd hlt (by decide)
  · exact absurd hlt (by decide)
  · exact absurd hlt (by decide)

end Diagram

end SExprViewer
