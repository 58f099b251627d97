import SExprViewer.Proofs.Diagram.Rows
import SExprViewer.Proofs.Diagram.Mirror
import SExprViewer.Proofs.Diagram.RowWidth
import SExprViewer.Proofs.Expr.Insertion

/-! # Growth

No size of a node gets smaller when lengths of the layout or labels get larger (`atMost_build`), or
when an item is put into a list below it (`atMost_build_insertAt`).  A node is compared by its
body and its children alone (`atMost_ofItems`), so that along a path only the list with the new item
has to be looked at. -/
set_option autoImplicit false

namespace SExprViewer

/-- Every length of a layout is at most that of another; the speed of a glide is not a length. -/
structure LayoutSettings.AtMost {K : Type} [LE K] (layout layout' : LayoutSettings K) : Prop where
  minNodeWidth : layout.minNodeWidth ≤ layout'.minNodeWidth
  minNodeHeight : layout.minNodeHeight ≤ layout'.minNodeHeight
  connectorSize : layout.connectorSize ≤ layout'.connectorSize
  neighborSpacing : layout.neighborSpacing ≤ layout'.neighborSpacing
  childSpacing : layout.childSpacing ≤ layout'.childSpacing
  segmentSpacing : layout.segmentSpacing ≤ layout'.segmentSpacing
  padding : layout.padding ≤ layout'.padding

/-- A node and its subtree are at most as large as another with its own. -/
structure Node.AtMost {K : Type} [LE K] (n n' : Node K) : Prop where
  width : n.width ≤ n'.width
  height : n.height ≤ n'.height
  treeWidth : n.treeWidth ≤ n'.treeWidth
  treeHeight : n.treeHeight ≤ n'.treeHeight

theorem LayoutSettings.AtMost.refl {K : Type} [ExactScalar K] (layout : LayoutSettings K) :
    layout.AtMost layout :=
  ⟨le_rfl, le_rfl, le_rfl, le_rfl, le_rfl, le_rfl, le_rfl⟩

namespace Diagram

/-! ## Bodies -/

section Bodies
variable {K : Type}

/-- The root of a diagram and its subtree are at most as large as those of another. -/
def RootAtMost [LE K] (d d' : Diagram K) : Prop := d.value.AtMost d'.value

/-- The width of an item in a body. -/
def itemWidth (measure : TextMeasure K) (connectorSize : K) : Expr → K
  | .atom a => measure (String.ofList a.label)
  | .list _ => connectorSize

theorem map_segmentWidth_segments [Scalar K] (measure : TextMeasure K) (connectorSize : K)
    (items : List Expr) : ∀ k, (segments measure k items).map (segmentWidth connectorSize) =
      items.map (itemWidth measure connectorSize) := by
  induction items with
  | nil => intro k; rfl
  | cons item rest ih =>
      intro k
      rw [segments_cons, List.map_cons, List.map_cons, ih]
      cases item <;> rfl

theorem map_itemWidth_modifyNthList (measure : TextMeasure K) (connectorSize : K)
    {f : Expr → Expr} (hf : ∀ e, (f e).isList = e.isList) (items : List Expr) : ∀ i,
    (Expr.modifyNthList f i items).map (itemWidth measure connectorSize) =
      items.map (itemWidth measure connectorSize) := by
  have hwidth : ∀ inner, itemWidth measure connectorSize (f (.list inner)) = connectorSize := by
    intro inner
    have hlist := hf (.list inner)
    cases hinner : f (.list inner) with
    | atom a => rw [hinner] at hlist; cases hlist
    | list _ => rfl
  induction items with
  | nil => intro i; rfl
  | cons item rest ih =>
      intro i
      cases item with
      | atom a => exact congrArg (_ :: ·) (ih i)
      | list inner =>
          cases i with
          | zero => exact congrArg (· :: _) (hwidth inner)
          | succ i => exact congrArg (_ :: ·) (ih i)

end Bodies

variable {K : Type} [ExactScalar K] {layout layout' : LayoutSettings K}

/-! ## Children -/

section Children
variable {cs cs' : List (Diagram K)}

theorem childrenWidth_mono (hgap : layout.neighborSpacing ≤ layout'.neighborSpacing)
    (h : List.Forall₂ RootAtMost cs cs') :
    childrenWidth layout cs ≤ childrenWidth layout' cs' := by
  rw [childrenWidth_eq, childrenWidth_eq]
  refine rowWidth_mono hgap ?_
  rw [List.forall₂_map_left_iff, List.forall₂_map_right_iff]
  exact h.imp fun _ _ hc => hc.treeWidth

theorem childrenWidth_sublist (hgap : 0 ≤ layout.neighborSpacing) (h : cs.Sublist cs')
    (hcs : ∀ c ∈ cs', 0 ≤ c.value.treeWidth) :
    childrenWidth layout cs ≤ childrenWidth layout cs' := by
  rw [childrenWidth_eq, childrenWidth_eq]
  refine rowWidth_sublist hgap (h.map _) fun w hw => ?_
  obtain ⟨c, hc, rfl⟩ := List.mem_map.mp hw
  exact hcs c hc

theorem treeHeightOver_mono (hspacing : layout.childSpacing ≤ layout'.childSpacing)
    (h : List.Forall₂ RootAtMost cs cs') : ∀ {height height' : K}, height ≤ height' →
      treeHeightOver layout height cs ≤ treeHeightOver layout' height' cs' := by
  induction h with
  | nil => exact fun hheight => hheight
  | cons hc _ ih =>
      intro height height' hheight
      exact ih (max_le_max hheight (add_le_add hc.treeHeight hspacing))

theorem treeHeightOver_sublist (h : cs.Sublist cs') (height : K) :
    treeHeightOver layout height cs ≤ treeHeightOver layout height cs' := by
  rcases treeHeightOver_cases layout cs height with hown | ⟨i, c, hc, hchild⟩
  · exact hown.trans_le (le_treeHeightOver layout cs' height)
  · exact hchild.trans_le
      (treeHeight_add_le_treeHeightOver layout cs' height (h.subset (List.mem_of_getElem? hc)))

end Children

/-! ## Nodes -/

section Nodes
variable {measure measure' : TextMeasure K} {items items' : List Expr} {cs cs' : List (Diagram K)}
  {id id' : ObjectId}

/-- Of two nodes the one with the wider body and the wider and higher children is the larger. -/
theorem atMost_ofItems (hlayout : layout.AtMost layout')
    (hbody : rowWidth layout.segmentSpacing (items.map (itemWidth measure layout.connectorSize)) ≤
      rowWidth layout'.segmentSpacing (items'.map (itemWidth measure' layout'.connectorSize)))
    (hwide : childrenWidth layout cs ≤ childrenWidth layout' cs')
    (hhigh : treeHeightOver layout layout.minNodeHeight cs ≤
      treeHeightOver layout' layout'.minNodeHeight cs') :
    RootAtMost (ofItems measure layout items cs id) (ofItems measure' layout' items' cs' id') := by
  have htext : bodyWidth layout.connectorSize layout.segmentSpacing 0 (segments measure 0 items) ≤
      bodyWidth layout'.connectorSize layout'.segmentSpacing 0 (segments measure' 0 items') := by
    rw [bodyWidth_eq, bodyWidth_eq, map_segmentWidth_segments, map_segmentWidth_segments]
    exact add_le_add_right hbody 0
  have hwidth := max_le_max hlayout.minNodeWidth (add_le_add htext hlayout.padding)
  exact ⟨hwidth, hlayout.minNodeHeight, max_le_max hwidth hwide, hhigh⟩

theorem atMost_of_children (hlayout : layout.AtMost layout')
    (hlabels : ∀ text ∈ Expr.labelsAll items, measure text ≤ measure' text)
    (hcs : List.Forall₂ RootAtMost cs cs') :
    RootAtMost (ofItems measure layout items cs id) (ofItems measure' layout' items cs' id') := by
  refine atMost_ofItems hlayout (rowWidth_mono hlayout.segmentSpacing ?_)
    (childrenWidth_mono hlayout.neighborSpacing hcs)
    (treeHeightOver_mono hlayout.childSpacing hcs hlayout.minNodeHeight)
  rw [List.forall₂_map_left_iff, List.forall₂_map_right_iff, List.forall₂_same]
  intro item hitem
  cases item with
  | atom a =>
      exact hlabels _ (Expr.mem_labelsAll.mpr ⟨_, hitem, List.mem_singleton_self _⟩)
  | list inner => exact hlayout.connectorSize

/-! ## Larger settings -/

theorem forall₂_buildAll (hlayout : layout.AtMost layout') (items : List Expr) :
    (∀ text ∈ Expr.labelsAll items, measure text ≤ measure' text) → ∀ next next',
      List.Forall₂ RootAtMost (buildAll measure layout items next).1
        (buildAll measure' layout' items next').1 := by
  induction items using Expr.items_induction with
  | nil => exact fun _ next next' => .nil
  | atom a rest ih =>
      intro hlabels next next'
      exact ih (fun text htext => hlabels text (List.mem_append_right _ htext)) next next'
  | list inner rest ihInner ih =>
      intro hlabels next next'
      have hinner : ∀ text ∈ Expr.labelsAll inner, measure text ≤ measure' text :=
        fun text htext => hlabels text (List.mem_append_left _ htext)
      exact .cons (atMost_of_children hlayout hinner (ihInner hinner next next'))
        (ih (fun text htext => hlabels text (List.mem_append_right _ htext)) _ _)

theorem atMost_build (hlayout : layout.AtMost layout') {e : Expr}
    (hlabels : ∀ text ∈ e.labels, measure text ≤ measure' text) (next next' : ObjectId) :
    RootAtMost (build measure layout e next).1 (build measure' layout' e next').1 := by
  rw [build_eq, build_eq]
  rw [← Expr.labelsAll_content] at hlabels
  exact atMost_of_children hlayout hlabels (forall₂_buildAll hlayout e.content hlabels next next')

/-! ## One more item -/

/-- Identities do not matter. -/
theorem forall₂_buildAll_self (measure : TextMeasure K) (layout : LayoutSettings K)
    (items : List Expr) (next next' : ObjectId) : List.Forall₂ RootAtMost
      (buildAll measure layout items next).1 (buildAll measure layout items next').1 :=
  forall₂_buildAll (.refl layout) items (fun _ _ => le_rfl) next next'

theorem atMost_build_self (measure : TextMeasure K) (layout : LayoutSettings K) (e : Expr)
    (next next' : ObjectId) :
    RootAtMost (build measure layout e next).1 (build measure layout e next').1 :=
  atMost_build (.refl layout) (fun _ _ => le_rfl) next next'

theorem sublistForall₂_buildAll_insertIdx (measure : TextMeasure K) (layout : LayoutSettings K)
    (item : Expr) (items : List Expr) : ∀ (place : Nat) (next next' : ObjectId),
    List.SublistForall₂ RootAtMost (buildAll measure layout items next).1
      (buildAll measure layout (items.insertIdx place item) next').1 := by
  have hsame : ∀ items next next', List.SublistForall₂ RootAtMost
      (buildAll measure layout items next).1 (buildAll measure layout items next').1 :=
    fun items next next' => List.sublistForall₂_iff.mpr
      ⟨_, forall₂_buildAll_self measure layout items next next', .refl _⟩
  induction items with
  | nil => exact fun place next next' => .nil
  | cons x rest ih =>
      intro place next next'
      cases place with
      | zero =>
          cases item with
          | atom a => exact hsame _ next next'
          | list inner => exact .cons_right (hsame _ next _)
      | succ place =>
          cases x with
          | atom a => exact ih place next next'
          | list inner =>
              exact .cons (atMost_build_self measure layout (.list inner) next next') (ih place _ _)

theorem treeWidth_nonneg_buildAll (hmetrics : layout.Nonnegative) (measure : TextMeasure K)
    (items : List Expr) (next : ObjectId) :
    ∀ c ∈ (buildAll measure layout items next).1, 0 ≤ c.value.treeWidth :=
  buildAll_induction (fun _ _ _ _ =>
    hmetrics.minNodeWidth.trans ((le_max_left ..).trans (le_max_left ..))) items next

theorem atMost_build_insertIdx (hmetrics : layout.Nonnegative) {item : Expr}
    (hitem : ∀ text ∈ item.labels, 0 ≤ measure text)
    (hlabels : ∀ text ∈ Expr.labelsAll items, 0 ≤ measure text) (place : Nat)
    (next next' : ObjectId) : RootAtMost (build measure layout (.list items) next).1
      (build measure layout (.list (items.insertIdx place item)) next').1 := by
  obtain ⟨cs, hcs, hsub⟩ := List.sublistForall₂_iff.mp
    (sublistForall₂_buildAll_insertIdx measure layout item items place next next')
  have hwidths : ∀ w ∈ (items.insertIdx place item).map (itemWidth measure layout.connectorSize),
      0 ≤ w := by
    intro w hw
    obtain ⟨x, hx, rfl⟩ := List.mem_map.mp hw
    cases x with
    | list inner => exact hmetrics.connectorSize
    | atom a =>
        have hlabel : String.ofList a.label ∈ (Expr.atom a).labels := List.mem_singleton_self _
        rcases List.eq_or_mem_of_mem_insertIdx hx with rfl | hx
        · exact hitem _ hlabel
        · exact hlabels _ (Expr.mem_labelsAll.mpr ⟨_, hx, hlabel⟩)
  rw [build_eq, build_eq]
  refine atMost_ofItems (.refl layout)
    (rowWidth_sublist hmetrics.segmentSpacing ((List.sublist_insertIdx ..).map _) hwidths) ?_ ?_
  · exact (childrenWidth_mono le_rfl hcs).trans (childrenWidth_sublist hmetrics.neighborSpacing hsub
      (treeWidth_nonneg_buildAll hmetrics measure _ next'))
  · exact (treeHeightOver_mono le_rfl hcs le_rfl).trans (treeHeightOver_sublist hsub _)

/-! ## Along the path -/

theorem forall₂_buildAll_modifyNthList (measure : TextMeasure K) (layout : LayoutSettings K)
    {f : Expr → Expr} (hf : ∀ e, (f e).isList = e.isList) (items : List Expr) :
    (∀ e ∈ items, ∀ next next',
        RootAtMost (build measure layout e next).1 (build measure layout (f e) next').1) →
      ∀ i next next', List.Forall₂ RootAtMost (buildAll measure layout items next).1
        (buildAll measure layout (Expr.modifyNthList f i items) next').1 := by
  induction items with
  | nil => exact fun _ i next next' => .nil
  | cons item rest ih =>
      intro h i next next'
      have hrest := ih fun e he => h e (List.mem_cons_of_mem item he)
      cases item with
      | atom a => exact hrest i next next'
      | list inner =>
          have hbuildAll : ∀ (e : Expr) (items : List Expr) (next : ObjectId), e.isList = true →
              (buildAll measure layout (e :: items) next).1 = (build measure layout e next).1 ::
                (buildAll measure layout items (build measure layout e next).2).1 :=
            fun e items next he => by rw [buildAll, if_pos he]
          cases i with
          | zero =>
              rw [Expr.modifyNthList, hbuildAll _ _ _ rfl, hbuildAll _ _ _ (hf (.list inner))]
              exact .cons (h _ List.mem_cons_self next next')
                (forall₂_buildAll_self measure layout rest _ _)
          | succ i =>
              exact .cons (atMost_build_self measure layout (.list inner) next next') (hrest i _ _)

theorem atMost_build_insertAt (hmetrics : layout.Nonnegative) {item : Expr}
    (hitem : ∀ text ∈ item.labels, 0 ≤ measure text) (place : Nat) (path : Path) :
    ∀ e : Expr, (∀ text ∈ e.labels, 0 ≤ measure text) → ∀ next next',
      RootAtMost (build measure layout e next).1
        (build measure layout (e.insertAt item place path) next').1 := by
  induction path with
  | nil =>
      intro e hlabels next next'
      cases e with
      | atom a => exact atMost_build_self measure layout (.atom a) next next'
      | list items => exact atMost_build_insertIdx hmetrics hitem hlabels place next next'
  | cons i path ih =>
      intro e hlabels next next'
      cases e with
      | atom a => exact atMost_build_self measure layout (.atom a) next next'
      | list items =>
          have hlist := Expr.isList_modifyListAt (·.insertIdx place item) path
          have hcs := forall₂_buildAll_modifyNthList measure layout hlist items
            (fun e he => ih e fun text htext =>
              hlabels text (Expr.mem_labelsAll.mpr ⟨e, he, htext⟩)) i next next'
          have hbody := map_itemWidth_modifyNthList measure layout.connectorSize hlist items i
          rw [Expr.insertAt, Expr.modifyListAt, build_eq, build_eq]
          exact atMost_ofItems (.refl layout) (le_of_eq (congrArg _ hbody.symm))
            (childrenWidth_mono le_rfl hcs) (treeHeightOver_mono le_rfl hcs le_rfl)

end Nodes

/-! ## Every node -/

theorem valueAt?_build (measure : TextMeasure K) (layout : LayoutSettings K) (e : Expr)
    (next : ObjectId) (path : Path) : ∃ next', (build measure layout e next).1.valueAt? path =
      (e.listAt? path).map fun sub => (build measure layout sub next').1.value := by
  obtain ⟨next', hat⟩ := at?_build measure layout path e next
  refine ⟨next', ?_⟩
  rw [Tree.valueAt?, hat, Option.map_map]
  rfl

/-- Under larger lengths and labels there are the same nodes, none of them smaller; and one more
item in a list of the expression makes neither the node of the list nor any above it smaller, if
lengths and labels are not negative. -/
theorem sizes_monotone (e : Expr) :
    (∀ (measure measure' : TextMeasure K) (layout layout' : LayoutSettings K)
      (next next' : ObjectId), layout.AtMost layout' →
      (∀ text ∈ e.labels, measure text ≤ measure' text) → ∀ path,
        Option.Rel Node.AtMost ((build measure layout e next).1.valueAt? path)
          ((build measure' layout' e next').1.valueAt? path)) ∧
    ∀ (measure : TextMeasure K) (layout : LayoutSettings K) (next next' : ObjectId) (item : Expr),
      layout.Nonnegative → (∀ text ∈ e.labels ++ item.labels, 0 ≤ measure text) →
        ∀ (path : Path) (place : Nat) (above : Path), above <+: path →
          Option.Rel Node.AtMost ((build measure layout e next).1.valueAt? above)
            ((build measure layout (e.insertAt item place path) next').1.valueAt? above) := by
  constructor
  · intro measure measure' layout layout' next next' hlayout hlabels path
    obtain ⟨i, hi⟩ := valueAt?_build measure layout e next path
    obtain ⟨j, hj⟩ := valueAt?_build measure' layout' e next' path
    rw [hi, hj]
    cases hsub : e.listAt? path with
    | none => exact .none
    | some sub =>
        exact .some (atMost_build hlayout
          (fun text htext => hlabels text (Expr.labels_of_listAt? path hsub htext)) i j)
  · intro measure layout next next' item hmetrics hlabels path place above habove
    obtain ⟨below, rfl⟩ := habove
    obtain ⟨i, hi⟩ := valueAt?_build measure layout e next above
    obtain ⟨j, hj⟩ :=
      valueAt?_build measure layout (e.insertAt item place (above ++ below)) next' above
    rw [hi, hj, Expr.insertAt, Expr.listAt?_modifyListAt]
    cases hsub : e.listAt? above with
    | none => exact .none
    | some sub =>
        have hitem : ∀ text ∈ item.labels, 0 ≤ measure text :=
          fun text htext => hlabels text (List.mem_append_right _ htext)
        exact .some (atMost_build_insertAt hmetrics hitem place below sub (fun text htext =>
          hlabels text (List.mem_append_left _ (Expr.labels_of_listAt? above hsub htext))) i j)

theorem sizes_monotone_nested :
    let e : Expr := .list [.atom (.symbol ⟨"a"⟩), .list [.atom (.symbol ⟨"b"⟩)]]
    let item : Expr := .list [.atom (.symbol ⟨"c"⟩)]
    let layout : LayoutSettings ℝ := .standard
    let layout' : LayoutSettings ℝ := { layout with childSpacing := layout.childSpacing + 10 }
    layout.AtMost layout' ∧ (∀ text ∈ e.labels, (6 : ℝ) ≤ 7) ∧
      Option.Rel Node.AtMost ((build (fun _ => 6) layout e .first).1.valueAt? [0])
        ((build (fun _ => 7) layout' e .first).1.valueAt? [0]) ∧
      layout.Nonnegative ∧ (∀ text ∈ e.labels ++ item.labels, (0 : ℝ) ≤ 6) ∧
      ∃ n n', (build (fun _ => 6) layout e .first).1.valueAt? [] = some n ∧
        (build (fun _ => 6) layout (e.insertAt item 0 [0]) .first).1.valueAt? [] = some n' ∧
        n.AtMost n' := by
  intro e item layout layout'
  have hmetrics : layout.Nonnegative := LayoutSettings.standard_nonnegative
  have hlayout : layout.AtMost layout' :=
    { LayoutSettings.AtMost.refl layout with childSpacing := le_add_of_nonneg_right (by norm_num) }
  have hlabels : ∀ text ∈ e.labels, (6 : ℝ) ≤ 7 := fun _ _ => by norm_num
  have hnonneg : ∀ text ∈ e.labels ++ item.labels, (0 : ℝ) ≤ 6 := fun _ _ => by norm_num
  obtain ⟨hlarger, hinserted⟩ := sizes_monotone (K := ℝ) e
  refine ⟨hlayout, hlabels, hlarger _ _ _ _ _ _ hlayout hlabels [0], hmetrics, hnonneg, ?_⟩
  have hroot := hinserted _ _ .first .first item hmetrics hnonneg [0] 0 [] List.nil_prefix
  cases hroot with
  | some h => exact ⟨_, _, rfl, rfl, h⟩

end Diagram

end SExprViewer
