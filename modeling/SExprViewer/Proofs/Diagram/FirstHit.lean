import SExprViewer.Proofs.Diagram.Hit
import SExprViewer.Proofs.Diagram.Mirror
import SExprViewer.Proofs.Tree.Preorder

/-! # The first node at a point

The search for the node at a point takes the paths of a diagram in document order and answers with
the first whose box covers the point (`hit?_eq_find?`), where whole subtrees overlap as well.  Over
exact scalars that is the first whose map leads back from the point into the box
(`hit?_iff_first`).  The search for the subtree at a point answers with what stands at that path,
and not with another subtree that is equal to it (`under?_iff_hit?`). -/
set_option autoImplicit false

namespace SExprViewer.Diagram

section Search
variable {K : Type} [Scalar K]

/-! ## Document order -/

theorem hitAll?_eq_find? {q : Point K} {covers : Path → Bool} (cs : List (Diagram K)) : ∀ k,
    (∀ i c, cs[i]? = some c → hit? q c = c.paths.find? fun path => covers ((k + i) :: path)) →
      hitAll? q k cs = (Tree.pathsAll k cs).find? covers := by
  induction cs with
  | nil => intro k _; rfl
  | cons c cs ih =>
      intro k h
      have hrest := ih (k + 1) fun i b hb => by
        rw [Nat.add_right_comm, Nat.add_assoc]
        exact h (i + 1) b hb
      rw [hitAll?, Tree.pathsAll, List.find?_append, List.find?_map, h 0 c rfl, hrest]
      cases hfind : c.paths.find? (fun path => covers ((k + 0) :: path)) with
      | none =>
          rw [show c.paths.find? (covers ∘ (k :: ·)) = none from hfind]
          rfl
      | some path =>
          rw [show c.paths.find? (covers ∘ (k :: ·)) = some path from hfind]
          rfl

open Classical in
theorem hit?_eq_find? (d : Diagram K) : ∀ p,
    hit? p d = d.paths.find? fun path => decide (CoversAt p d path) := by
  induction d using Tree.node_induction with
  | node n cs ih =>
      intro p
      rw [hit?, Tree.paths]
      by_cases hn : n.covers (toLocal n p) = true
      · have hroot : CoversAt p (.node n cs) [] := hn
        simp only [if_pos hn, List.find?_cons, hroot, decide_true]
      · have hroot : ¬ CoversAt p (.node n cs) [] := hn
        simp only [if_neg hn, List.find?_cons, hroot, decide_false]
        refine hitAll?_eq_find? cs 0 fun i c hc => ?_
        rw [ih c (List.mem_of_getElem? hc), Nat.zero_add]
        congr 1
        funext path
        have hchild : CoversAt p (.node n cs) (i :: path) ↔ CoversAt (toLocal n p) c path := by
          simp [CoversAt, Tree.children, Tree.value, hc]
        exact (decide_eq_decide.mpr hchild).symm

theorem hit?_eq_some_iff_first {p : Point K} {d : Diagram K} {path : Path} :
    hit? p d = some path ↔ ∃ before after, d.paths = before ++ path :: after ∧
      CoversAt p d path ∧ ∀ q ∈ before, ¬ CoversAt p d q := by
  classical
  rw [hit?_eq_find?, List.find?_eq_some_iff_append]
  simp only [decide_eq_true_eq, Bool.not_eq_true', decide_eq_false_iff_not]
  constructor
  · rintro ⟨hcovers, before, after, hpaths, hbefore⟩
    exact ⟨before, after, hpaths, hcovers, hbefore⟩
  · rintro ⟨before, after, hpaths, hcovers, hbefore⟩
    exact ⟨hcovers, before, after, hpaths, hbefore⟩

/-! ## The subtree at a point -/

theorem underAll?_cases {p : Point K} (cs : List (Diagram K))
    (hcs : ∀ c ∈ cs, under? p c = (hit? p c).bind c.at?) : ∀ k,
    (hitAll? p k cs = none ∧ underAll? p cs = none) ∨ ∃ i c path, cs[i]? = some c ∧
      hitAll? p k cs = some ((k + i) :: path) ∧ underAll? p cs = c.at? path := by
  induction cs with
  | nil => intro k; exact .inl ⟨rfl, rfl⟩
  | cons c cs ih =>
      intro k
      have hc := hcs c List.mem_cons_self
      rw [hitAll?, underAll?]
      cases hhit : hit? p c with
      | none =>
          rw [hhit] at hc
          rw [show under? p c = none from hc]
          rcases ih (fun b hb => hcs b (List.mem_cons_of_mem _ hb)) (k + 1) with
            hnone | ⟨i, b, path, hb, hsome, hunder⟩
          · exact .inl hnone
          · refine .inr ⟨i + 1, b, path, hb, ?_, hunder⟩
            rw [← Nat.add_assoc, Nat.add_right_comm]
            exact hsome
      | some path =>
          rw [hhit] at hc
          obtain ⟨s, hs⟩ := Option.isSome_iff_exists.mp
            (isSome_at?_of_coversAt path p c (covers_of_hit? path p c hhit))
          rw [show under? p c = c.at? path from hc, hs]
          exact .inr ⟨0, c, path, rfl, rfl, hs.symm⟩

theorem under?_eq_bind (d : Diagram K) : ∀ p, under? p d = (hit? p d).bind d.at? := by
  induction d using Tree.node_induction with
  | node n cs ih =>
      intro p
      rw [hit?, under?]
      by_cases hn : n.covers (toLocal n p) = true
      · rw [if_pos hn, if_pos hn]
        rfl
      · rw [if_neg hn, if_neg hn]
        rcases underAll?_cases cs (fun c hc => ih c hc _) 0 with
          ⟨hnone, hunder⟩ | ⟨i, c, path, hc, hsome, hunder⟩
        · rw [hnone, hunder]
          rfl
        · rw [hsome, hunder, Nat.zero_add, Option.bind_some, Tree.at?_cons]
          exact (congrArg (Option.bind · (·.at? path)) hc).symm

/-- The diagram with an identity for every node, told by the path to it. -/
def named (name : Path → ObjectId) (d : Diagram K) : Diagram K :=
  d.mapPath fun path n => { n with id := name path }

theorem hit?_named (name : Path → ObjectId) (d : Diagram K) (p : Point K) :
    hit? p (d.named name) = hit? p d := by
  have hanonymous : (d.named name).map Node.anonymous = d.map Node.anonymous :=
    Tree.map_mapPath d fun _ _ => rfl
  rw [← hit?_map (f := Node.anonymous) (fun _ _ => rfl) (fun _ => rfl), hanonymous,
    hit?_map (f := Node.anonymous) (fun _ _ => rfl) fun _ => rfl]

/-- The two searches fail for the same points, and otherwise the path that one finds leads to what
the other finds.  That is the very node and not one that looks like it: whatever identities the
nodes are given by their paths, the node that is found has the one of the path. -/
theorem under?_iff_hit? (p : Point K) (d : Diagram K) :
    (hit? p d = none ↔ under? p d = none) ∧
    ∀ path, hit? p d = some path → (∃ s, d.at? path = some s ∧ under? p d = some s) ∧
      ∀ name : Path → ObjectId,
        (under? p (d.named name)).map (·.value.id) = some (name path) := by
  have hfound : ∀ path, hit? p d = some path →
      ∃ s, d.at? path = some s ∧ under? p d = some s := by
    intro path h
    obtain ⟨s, hs⟩ := Option.isSome_iff_exists.mp
      (isSome_at?_of_coversAt path p d (covers_of_hit? path p d h))
    exact ⟨s, hs, by rw [under?_eq_bind, h, Option.bind_some, hs]⟩
  refine ⟨⟨fun h => ?_, fun h => ?_⟩, fun path h => ⟨hfound path h, fun name => ?_⟩⟩
  · rw [under?_eq_bind, h]
    rfl
  · cases hhit : hit? p d with
    | none => rfl
    | some path =>
        obtain ⟨s, _, hs⟩ := hfound path hhit
        cases h.symm.trans hs
  · obtain ⟨s, hs, _⟩ := hfound path h
    have hvalue : ((d.named name).at? path).map Tree.value =
        some { s.value with id := name path } := by
      change (d.named name).valueAt? path = _
      rw [named, Tree.valueAt?_mapPath, Tree.valueAt?, hs]
      rfl
    obtain ⟨s', hs', hvalue⟩ := Option.map_eq_some_iff.mp hvalue
    rw [under?_eq_bind, hit?_named, h, Option.bind_some, hs', Option.map_some, hvalue]

end Search

/-! ## Back along the whole map -/

variable {K : Type} [ExactScalar K]

/-- Whether the map of the node at a path leads back from a point into the box of the node. -/
def BoxCovers (p : Point K) (d : Diagram K) (path : Path) : Prop :=
  ∃ n m, d.valueAt? path = some n ∧ transformAt? d path = some m ∧
    n.box.Contains (m.inverse.apply p)

theorem determinant_transform (p : Placement K) :
    p.transform.determinant = p.scale * p.scale := by
  rw [Placement.transform, Affine.determinant_mul, Affine.determinant_mul,
    Affine.determinant_shift, Affine.determinant_scale, Affine.determinant_rotate, one_mul, mul_one]

theorem invertible_of_scale {d : Diagram K} (h : d.All fun n => n.placement.scale ≠ 0) :
    d.Invertible := by
  intro path n hn
  have hscale := h path n hn
  rw [Node.transform, determinant_transform]
  exact mul_ne_zero hscale hscale

theorem determinant_transformFrom? (path : Path) : ∀ {m a : Affine K} {d : Diagram K},
    d.Invertible → m.determinant ≠ 0 → transformFrom? m d path = some a → a.determinant ≠ 0 := by
  induction path with
  | nil =>
      intro m a d _ hm h
      cases h
      exact hm
  | cons i path ih =>
      intro m a d hd hm h
      obtain ⟨c, hc, h⟩ := Option.bind_eq_some_iff.mp h
      refine ih (hd.child hc) ?_ h
      rw [Affine.determinant_mul]
      exact mul_ne_zero hm (hd.child hc).root

theorem coversAt_iff_boxCovers {d : Diagram K} (hd : d.Invertible) (p : Point K) (path : Path) :
    CoversAt p d path ↔ BoxCovers p d path := by
  have hidentity : ∀ q : Point K, Affine.identity.apply q = q := by
    intro q
    simp [Affine.identity, Affine.apply]
  have hdet : (Affine.identity : Affine K).determinant ≠ 0 := by
    simp [Affine.identity, Affine.determinant]
  rw [coversAt_iff_shows path .identity p p d hd hdet (hidentity p), Shows, BoxCovers]
  refine exists_congr fun n => exists_congr fun a => ?_
  constructor
  · rintro ⟨q, hn, ha, hq, hp⟩
    have hroot : d.value.transform.determinant ≠ 0 := hd.root
    rw [Affine.mul_apply, hidentity] at hp
    rw [(Affine.inverse_apply_eq_iff (determinant_transformFrom? path hd hroot ha)).mpr hp]
    exact ⟨hn, ha, hq⟩
  · rintro ⟨hn, ha, hq⟩
    have hroot : d.value.transform.determinant ≠ 0 := hd.root
    refine ⟨_, hn, ha, hq, ?_⟩
    rw [Affine.mul_apply, hidentity]
    exact (Affine.inverse_apply_eq_iff (determinant_transformFrom? path hd hroot ha)).mp rfl

/-- The node at a point is the first in document order whose map leads back from the point into its
box, however the nodes are placed, turned and scaled and whatever boxes lie over each other. -/
theorem hit?_iff_first {d : Diagram K} (hscale : d.All fun n => n.placement.scale ≠ 0)
    (p : Point K) :
    (∀ path, hit? p d = some path ↔ ∃ before after, d.paths = before ++ path :: after ∧
      BoxCovers p d path ∧ ∀ q ∈ before, ¬ BoxCovers p d q) ∧
    (hit? p d = none ↔ ∀ path, ¬ BoxCovers p d path) := by
  have hcovers := coversAt_iff_boxCovers (invertible_of_scale hscale) p
  refine ⟨fun path => ?_, ?_⟩
  · simp only [hit?_eq_some_iff_first, hcovers]
  · simp only [hit?_eq_none_iff, hcovers]

/-- A root drawn twice as large, and two children that are turned, mirrored and lie over each
other. -/
theorem hit?_iff_first_overlap :
    let n : Placement ℝ → Node ℝ := fun placement =>
      ⟨.first, placement, [], 1, 1, 2, 1, 2, 0, 0, false, false⟩
    let child := Tree.node (n ⟨⟨5, 0⟩, Real.pi / 2, -1, none, 0⟩) []
    let d : Diagram ℝ := .node (n ⟨⟨10, 0⟩, 0, 2, none, 0⟩) [child, child]
    (d.All fun n => n.placement.scale ≠ 0) ∧ hit? ⟨20, -1⟩ d = some [0] := by
  intro n child d
  have hchild : child.All fun n => n.placement.scale ≠ 0 :=
    Tree.all_node (by norm_num [n]) nofun
  have hscale : d.All fun n => n.placement.scale ≠ 0 := by
    refine Tree.all_node (by norm_num [n]) fun c hc => ?_
    obtain rfl : c = child := by simpa using hc
    exact hchild
  have hroot : d.value.transform = ⟨2, 0, 0, 2, 10, 0⟩ := by
    norm_num [d, n, Tree.value, Node.transform, Placement.transform, Affine.rotate, Affine.scale,
      Affine.mul, Affine.shift, Point.toVec, ExactScalar.cos_zero, ExactScalar.sin_zero]
  have hturned : child.value.transform = ⟨0, -1, 1, 0, 5, 0⟩ := by
    have hcos : Scalar.cos (Real.pi / 2) = 0 := Real.cos_pi_div_two
    have hsin : Scalar.sin (Real.pi / 2) = 1 := Real.sin_pi_div_two
    norm_num [child, n, Tree.value, Node.transform, Placement.transform, Affine.rotate,
      Affine.scale, Affine.mul, Affine.shift, Point.toVec, hcos, hsin]
  refine ⟨hscale, ((hit?_iff_first hscale _).1 [0]).mpr ⟨[[]], [[1]], rfl, ?_, ?_⟩⟩
  · refine ⟨child.value, _, rfl, rfl, ?_⟩
    rw [hroot, hturned]
    norm_num [child, n, Tree.value, Rect.Contains, Node.box, Affine.inverse, Affine.mul,
      Affine.determinant, Affine.apply, ExactScalar.ofNat_eq_cast]
  · rintro q hq ⟨m, a, hm, ha, hbox⟩
    cases List.mem_singleton.mp hq
    cases hm
    cases ha
    rw [hroot] at hbox
    norm_num [d, n, Tree.value, Rect.Contains, Node.box, Affine.inverse, Affine.determinant,
      Affine.apply, ExactScalar.ofNat_eq_cast] at hbox

end SExprViewer.Diagram
