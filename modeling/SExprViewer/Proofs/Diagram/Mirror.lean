import SExprViewer.Proofs.Diagram.Body
import SExprViewer.Proofs.Diagram.Shape

/-! # Diagrams mirror expressions

Where a path leads to a list of an expression it leads to a node of the diagram, and nowhere else;
what stands there is the diagram of that list built with other identities (`at?_build`).  Placed
in the whole diagram and placed on its own it has the same nodes below it, identities apart
(`anonymous_children_arrange`). -/
set_option autoImplicit false

namespace SExprViewer

variable {K : Type}

/-- The node without its identity. -/
def Node.anonymous (n : Node K) : Node K := { n with id := .first }

namespace Diagram

def anonymous (d : Diagram K) : Diagram K := d.map Node.anonymous

theorem children_anonymous (d : Diagram K) : d.anonymous.children = d.children.map anonymous :=
  Tree.children_map ..

/-- The body and the children of a node are those of an expression: an atom stands there with its
label, measured, and a list with a link to the child that has the number of lists before it.  The
links count the children, and every link leads to a child of its own. -/
structure Mirrors (measure : TextMeasure K) (e : Expr) (d : Diagram K) : Prop where
  body : ∀ i, d.value.body[i]? =
    e.content[i]?.map (segmentOf measure ((e.content.take i).countP Expr.isList))
  links : d.value.body.filterMap Segment.link? = List.range d.children.length
  child : ∀ k < d.children.length, (d.child? (.link k)).isSome = true
  distinct : ∀ k k' c c', d.child? (.link k) = some c → d.child? (.link k') = some c' →
    c.value.id = c'.value.id → k = k'

variable [Scalar K] {measure : TextMeasure K} {layout : LayoutSettings K}

theorem mirrors_build (e : Expr) (next : ObjectId) :
    Mirrors measure e (build measure layout e next).1 where
  body i := by
    rw [build_eq, ofItems, Tree.value, getElem?_segments, Nat.zero_add]
  links := by
    rw [children_build, length_buildAll, List.range_eq_range', build_eq,
      ← links_segments e.content 0]
    rfl
  child k hk := by
    rw [child?, List.getElem?_eq_getElem hk]
    rfl
  distinct k k' c c' hc hc' hid := by
    rw [child?, children_build] at hc hc'
    obtain ⟨_, _, hascend⟩ := ids_buildAll measure layout e.content next
    obtain ⟨hk, rfl⟩ := List.getElem?_eq_some_iff.mp hc
    obtain ⟨hk', rfl⟩ := List.getElem?_eq_some_iff.mp hc'
    have hnumber := congrArg ObjectId.number hid
    -- of two different children the one before has the smaller identity
    have hbefore := List.pairwise_iff_getElem.mp hascend
    rcases Nat.lt_trichotomy k k' with hlt | heq | hlt
    · exact absurd hnumber (Nat.ne_of_lt (hbefore k k' hk hk' hlt))
    · exact heq
    · exact absurd hnumber.symm (Nat.ne_of_lt (hbefore k' k hk' hk hlt))

/-! ## The diagram of a list in the diagram of an expression -/

theorem at?_build (measure : TextMeasure K) (layout : LayoutSettings K) (path : Path) :
    ∀ (e : Expr) (next : ObjectId), ∃ next', (build measure layout e next).1.at? path =
      (e.listAt? path).map fun sub => (build measure layout sub next').1 := by
  induction path with
  | nil => intro e next; exact ⟨next, rfl⟩
  | cons i path ih =>
      intro e next
      obtain ⟨next', hchild⟩ := getElem?_buildAll measure layout e.content next i
      rw [Tree.at?_cons, Expr.listAt?_cons, children_build, hchild, Expr.sublists]
      cases (e.content.filter Expr.isList)[i]? with
      | none => exact ⟨next, rfl⟩
      | some c => exact ih c next'

theorem anonymous_build (e : Expr) (next next' : ObjectId) :
    (build measure layout e next).1.anonymous = (build measure layout e next').1.anonymous := by
  -- nothing has been placed or marked yet, so that the shape has all but the identities
  have hshape : ∀ next, (build measure layout e next).1.anonymous =
      (build measure layout e next).1.shape := fun next =>
    Tree.map_congr_of_all (all_build (fun _ _ _ => rfl) e next)
  rw [hshape, hshape, shape_build e next next']

/-! ## Placing -/

theorem arrange_map {f : Node K → Node K} (htree : ∀ n, (f n).treeWidth = n.treeWidth)
    (hwidth : ∀ n, (f n).width = n.width)
    (hglide : ∀ n place velocity, f { n with placement := n.placement.glideTo place velocity } =
      { f n with placement := (f n).placement.glideTo place velocity }) (d : Diagram K) :
    (arrange layout d).map f = arrange layout (d.map f) := by
  have hsend : ∀ left (d : Diagram K), (sendToSlot layout left d).map f =
      sendToSlot layout left (d.map f) := by
    intro left d
    obtain ⟨n, cs⟩ := d
    rw [Tree.map_node]
    simp only [sendToSlot, Tree.modifyRoot, Tree.value, htree, hwidth, Tree.map_node, hglide]
  have hall : ∀ cs : List (Diagram K), (∀ c ∈ cs, (arrange layout c).map f =
      arrange layout (c.map f)) → ∀ left, (arrangeAll layout left cs).map (Tree.map f) =
        arrangeAll layout left (cs.map (Tree.map f)) := by
    intro cs
    induction cs with
    | nil => intro _ left; rfl
    | cons c rest ih =>
        intro hcs left
        rw [arrangeAll, List.map_cons, List.map_cons, arrangeAll, hsend, Tree.value_map, htree,
          hcs c List.mem_cons_self, ih fun b hb => hcs b (List.mem_cons_of_mem _ hb)]
  induction d using Tree.node_induction with
  | node n cs ih =>
      rw [arrange, Tree.map_node, Tree.map_node, arrange, hall cs ih, htree, hwidth]

theorem anonymous_arrange (d : Diagram K) :
    (arrange layout d).anonymous = arrange layout d.anonymous :=
  arrange_map (f := Node.anonymous) (fun _ => rfl) (fun _ => rfl) (fun _ _ _ => rfl) d

/-- Placing a diagram places every part of it, the root of the part apart. -/
theorem children_at?_arrange (layout : LayoutSettings K) (path : Path) : ∀ d : Diagram K,
    ((arrange layout d).at? path).map Tree.children =
      (d.at? path).map fun c => (arrange layout c).children := by
  induction path with
  | nil => intro d; rfl
  | cons i path ih =>
      intro d
      rw [Tree.at?_cons, Tree.at?_cons, children_arrange, getElem?_arrangeAll]
      cases d.children[i]? with
      | none => rfl
      | some c =>
          rw [Option.map_some, Option.bind_some, Option.bind_some, ← ih c]
          -- the slot of the child shows in its root alone
          cases path with
          | nil => exact congrArg some (Tree.children_modifyRoot ..)
          | cons j path => rw [Tree.at?_cons, sendToSlot, Tree.children_modifyRoot, ← Tree.at?_cons]

theorem anonymous_children_arrange (e : Expr) (next next' : ObjectId) :
    (arrange layout (build measure layout e next).1).children.map anonymous =
      (arrange layout (build measure layout e next').1).children.map anonymous := by
  rw [← children_anonymous, ← children_anonymous, anonymous_arrange, anonymous_arrange,
    anonymous_build e next next']

/-- The diagram of an expression has a node for each list in it, an atom being taken for a list of
one item, with the segments of the list's items.  It has as many nodes as there are lists, and its
source text is the written expression without the quotes around texts.  What stands at a path is,
identities apart, the diagram of the list there, and after placing the whole everything below the
path is where it is after placing this diagram on its own. -/
theorem build_mirrors (measure : TextMeasure K) (layout : LayoutSettings K) (e : Expr)
    (next : ObjectId) :
    let d := (build measure layout e next).1
    (∀ path, (d.at? path).isSome = (e.listAt? path).isSome) ∧
    (∀ path sub (c : Diagram K), e.listAt? path = some sub → d.at? path = some c →
      Mirrors measure sub c) ∧
    (e.isList = true → d.size = e.listCount) ∧
    d.source = (Expr.list e.content).unquoted.render ∧
    (∀ path sub (c : Diagram K) own, e.listAt? path = some sub → d.at? path = some c →
      c.anonymous = (build measure layout sub own).1.anonymous) ∧
    ∀ path sub (c : Diagram K) own, e.listAt? path = some sub →
      (arrange layout d).at? path = some c → c.children.map anonymous =
        (arrange layout (build measure layout sub own).1).children.map anonymous := by
  intro d
  have hat : ∀ path sub, e.listAt? path = some sub →
      ∃ next', d.at? path = some (build measure layout sub next').1 := by
    intro path sub hsub
    obtain ⟨next', heq⟩ := at?_build measure layout path e next
    exact ⟨next', heq.trans (by rw [hsub]; rfl)⟩
  refine ⟨fun path => ?_, ?_, fun hlist => ?_, source_build e next, ?_, ?_⟩
  · obtain ⟨next', heq⟩ := at?_build measure layout path e next
    rw [heq, Option.isSome_map]
  · intro path sub c hsub hc
    obtain ⟨next', heq⟩ := hat path sub hsub
    cases hc.symm.trans heq
    exact mirrors_build sub next'
  · cases e with
    | atom a => cases hlist
    | list items => exact congrArg (1 + ·) (sizeAll_buildAll items next)
  · intro path sub c own hsub hc
    obtain ⟨next', heq⟩ := hat path sub hsub
    cases hc.symm.trans heq
    exact anonymous_build sub next' own
  · intro path sub c own hsub hc
    obtain ⟨next', heq⟩ := hat path sub hsub
    have hchildren := children_at?_arrange layout path d
    rw [hc, heq] at hchildren
    rw [show c.children = _ from Option.some.inj hchildren]
    exact anonymous_children_arrange sub next' own

end Diagram

end SExprViewer
