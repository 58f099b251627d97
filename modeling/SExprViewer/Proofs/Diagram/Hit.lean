import SExprViewer.Proofs.Geometry.Affine
import SExprViewer.Diagram.Hit
import SExprViewer.Proofs.Tree.Path

/-! # The node at a point

A search answers with a path whose box covers the point (`covers_of_hit?`), and fails only where
no box does (`not_covers_of_hit?_eq_none`).  Over exact scalars a box covers a point when the
map from the node's space brings some point of the box there (`coversAt_iff`). -/
set_option autoImplicit false

namespace SExprViewer.Diagram

open Scalar (ofNat)

section Search
variable {K : Type} [Scalar K]

/-- Whether the box of the node at a path covers a point, which is taken from space to space
along the path. -/
def CoversAt : Point K → Diagram K → Path → Prop
  | p, d, [] => d.value.covers (toLocal d.value p) = true
  | p, d, i :: path => ∃ c, d.children[i]? = some c ∧ CoversAt (toLocal d.value p) c path

/-- An answer counted from `k` is the path of a child counted from there. -/
theorem hitAll?_eq_some {p : Point K} {path : Path} (cs : List (Diagram K)) : ∀ k,
    hitAll? p k cs = some path →
      ∃ i c rest, path = (k + i) :: rest ∧ cs[i]? = some c ∧ hit? p c = some rest := by
  induction cs with
  | nil => intro k h; cases h
  | cons c cs ih =>
      intro k h
      rw [hitAll?] at h
      cases hc : hit? p c with
      | some rest =>
          rw [hc] at h
          cases h
          exact ⟨0, c, rest, rfl, rfl, hc⟩
      | none =>
          rw [hc] at h
          obtain ⟨i, b, rest, rfl, hb, hrest⟩ := ih (k + 1) h
          exact ⟨i + 1, b, rest, by rw [Nat.add_right_comm, Nat.add_assoc], hb, hrest⟩

theorem hitAll?_eq_none {p : Point K} (cs : List (Diagram K)) : ∀ k,
    hitAll? p k cs = none → ∀ c ∈ cs, hit? p c = none := by
  induction cs with
  | nil => intro k _ c hc; cases hc
  | cons b cs ih =>
      intro k h c hc
      rw [hitAll?] at h
      cases hb : hit? p b with
      | some rest => rw [hb] at h; cases h
      | none =>
          rw [hb] at h
          rcases List.mem_cons.mp hc with rfl | hc
          · exact hb
          · exact ih (k + 1) h c hc

theorem covers_of_hit? (path : Path) : ∀ (p : Point K) (d : Diagram K),
    hit? p d = some path → CoversAt p d path := by
  induction path with
  | nil =>
      intro p d h
      obtain ⟨n, cs⟩ := d
      rw [hit?] at h
      by_cases hn : n.covers (toLocal n p) = true
      · exact hn
      · rw [if_neg hn] at h
        obtain ⟨i, c, rest, hpath, _, _⟩ := hitAll?_eq_some cs 0 h
        cases hpath
  | cons i path ih =>
      intro p d h
      obtain ⟨n, cs⟩ := d
      rw [hit?] at h
      by_cases hn : n.covers (toLocal n p) = true
      · rw [if_pos hn] at h
        cases h
      · rw [if_neg hn] at h
        obtain ⟨j, c, rest, hpath, hc, hrest⟩ := hitAll?_eq_some cs 0 h
        rw [Nat.zero_add] at hpath
        cases hpath
        exact ⟨c, hc, ih _ c hrest⟩

theorem not_covers_of_hit?_eq_none (path : Path) : ∀ (p : Point K) (d : Diagram K),
    hit? p d = none → ¬ CoversAt p d path := by
  induction path with
  | nil =>
      intro p d h hcovers
      obtain ⟨n, cs⟩ := d
      have hn : n.covers (toLocal n p) = true := hcovers
      rw [hit?, if_pos hn] at h
      cases h
  | cons i path ih =>
      intro p d h hcovers
      obtain ⟨n, cs⟩ := d
      obtain ⟨c, hc, hcovers⟩ := hcovers
      rw [hit?] at h
      by_cases hn : n.covers (toLocal n p) = true
      · rw [if_pos hn] at h
        cases h
      · rw [if_neg hn] at h
        exact ih _ c (hitAll?_eq_none cs 0 h c (List.mem_of_getElem? hc)) hcovers

theorem hitAll?_congr {p : Point K} {f : Diagram K → Diagram K} (cs : List (Diagram K)) :
    ∀ k, (∀ c ∈ cs, ∀ q, hit? q (f c) = hit? q c) → hitAll? p k (cs.map f) = hitAll? p k cs := by
  induction cs with
  | nil => intro k _; rfl
  | cons c cs ih =>
      intro k h
      rw [List.map_cons, hitAll?, hitAll?, h c List.mem_cons_self,
        ih (k + 1) fun b hb => h b (List.mem_cons_of_mem _ hb)]

/-- The search looks at the boxes and the transforms alone. -/
theorem hit?_map {f : Node K → Node K} (hcovers : ∀ n q, (f n).covers q = n.covers q)
    (htransform : ∀ n, (f n).transform = n.transform) (d : Diagram K) :
    ∀ p, hit? p (d.map f) = hit? p d := by
  induction d using Tree.node_induction with
  | node n cs ih =>
      intro p
      have hlocal : toLocal (f n) p = toLocal n p := by rw [toLocal, htransform, toLocal]
      rw [Tree.map_node, hit?, hit?]
      simp only [hlocal, hcovers, hitAll?_congr cs 0 ih]

theorem isSome_at?_of_coversAt (path : Path) : ∀ (p : Point K) (d : Diagram K),
    CoversAt p d path → (d.at? path).isSome := by
  induction path with
  | nil => intro p d _; rfl
  | cons i path ih =>
      intro p d h
      obtain ⟨c, hc, h⟩ := h
      rw [Tree.at?_cons, hc]
      exact ih _ c h

/-- Where at most one box covers a point, the search finds it whatever the order. -/
theorem hit?_eq_some_iff {p : Point K} {d : Diagram K}
    (hunique : ∀ path path', CoversAt p d path → CoversAt p d path' → path = path')
    {path : Path} : hit? p d = some path ↔ CoversAt p d path := by
  refine ⟨covers_of_hit? path p d, fun h => ?_⟩
  cases hhit : hit? p d with
  | none => exact absurd h (not_covers_of_hit?_eq_none path p d hhit)
  | some found => rw [hunique found path (covers_of_hit? found p d hhit) h]

theorem hit?_eq_none_iff {p : Point K} {d : Diagram K} :
    hit? p d = none ↔ ∀ path, ¬ CoversAt p d path := by
  refine ⟨fun h path => not_covers_of_hit?_eq_none path p d h, fun h => ?_⟩
  cases hhit : hit? p d with
  | none => rfl
  | some found => exact absurd (covers_of_hit? found p d hhit) (h found)

end Search

/-! ## Boxes on the way to the root -/

variable {K : Type} [ExactScalar K]

theorem covers_iff (n : Node K) (p : Point K) : n.covers p = true ↔ n.box.Contains p := by
  simp only [Node.covers, Node.box, Rect.Contains, Bool.and_eq_true, decide_eq_true_eq, neg_div]
  exact ⟨fun ⟨⟨⟨h₁, h₂⟩, h₃⟩, h₄⟩ => ⟨h₁, h₂, h₃, h₄⟩, fun ⟨h₁, h₂, h₃, h₄⟩ => ⟨⟨⟨h₁, h₂⟩, h₃⟩, h₄⟩⟩

theorem apply_toLocal {n : Node K} (h : n.transform.determinant ≠ 0) (p : Point K) :
    n.transform.apply (toLocal n p) = p := (Affine.inverse_apply_eq_iff h).mp rfl

/-- Whether every node can be led back from where it is placed. -/
def Invertible (d : Diagram K) : Prop := d.All fun n => n.transform.determinant ≠ 0

theorem transformFrom?_mul (m : Affine K) (path : Path) : ∀ (a : Affine K) (d : Diagram K),
    transformFrom? (m.mul a) d path = (transformFrom? a d path).map m.mul := by
  induction path with
  | nil => intro a d; rfl
  | cons i path ih =>
      intro a d
      rw [transformFrom?, transformFrom?]
      cases d.children[i]? with
      | none => rfl
      | some c => simp only [Option.bind_some, Affine.mul_assoc, ih]

/-- Whether the box of the node at a path lies over a point when it is drawn through `m`. -/
def Shows (m : Affine K) (d : Diagram K) (path : Path) (p : Point K) : Prop :=
  ∃ n a q, d.valueAt? path = some n ∧ transformAt? d path = some a ∧ n.box.Contains q ∧
    (m.mul a).apply q = p

theorem shows_nil {m : Affine K} {d : Diagram K} {p : Point K} :
    Shows m d [] p ↔ ∃ q, d.value.box.Contains q ∧ (m.mul d.value.transform).apply q = p := by
  constructor
  · rintro ⟨n, a, q, hn, ha, hq, hp⟩
    cases hn
    cases ha
    exact ⟨q, hq, hp⟩
  · rintro ⟨q, hq, hp⟩
    exact ⟨d.value, d.value.transform, q, rfl, rfl, hq, hp⟩

theorem shows_cons {m : Affine K} {d : Diagram K} {i : Nat} {path : Path} {p : Point K} :
    Shows m d (i :: path) p ↔
      ∃ c, d.children[i]? = some c ∧ Shows (m.mul d.value.transform) c path p := by
  simp only [Shows, transformAt?, transformFrom?, Tree.valueAt?_cons]
  cases d.children[i]? with
  | none => simp
  | some c =>
      simp only [Option.bind_some, transformFrom?_mul, Option.some.injEq, exists_eq_left',
        Option.map_eq_some_iff, Affine.mul_assoc]
      constructor
      · rintro ⟨n, _, q, hn, ⟨a, ha, rfl⟩, hq, hp⟩
        exact ⟨n, a, q, hn, ha, hq, hp⟩
      · rintro ⟨n, a, q, hn, ha, hq, hp⟩
        exact ⟨n, _, q, hn, ⟨a, ha, rfl⟩, hq, hp⟩

theorem coversAt_iff_shows (path : Path) : ∀ (m : Affine K) (p q : Point K) (d : Diagram K),
    d.Invertible → m.determinant ≠ 0 → m.apply q = p →
      (CoversAt q d path ↔ Shows m d path p) := by
  -- on the way down `m` takes up the maps that were passed, and `q` is the point seen from there
  induction path with
  | nil =>
      intro m p q d hd hm hq
      have hroot : d.value.transform.determinant ≠ 0 := hd.root
      have hdet : (m.mul d.value.transform).determinant ≠ 0 := by
        rw [Affine.determinant_mul]
        exact mul_ne_zero hm hroot
      have hlocal : (m.mul d.value.transform).apply (toLocal d.value q) = p := by
        rw [Affine.mul_apply, apply_toLocal hroot, hq]
      rw [shows_nil, CoversAt, covers_iff]
      constructor
      · intro h
        exact ⟨_, h, hlocal⟩
      · rintro ⟨r, hr, hp⟩
        rwa [Affine.apply_injective hdet (hlocal.trans hp.symm)]
  | cons i path ih =>
      intro m p q d hd hm hq
      have hroot : d.value.transform.determinant ≠ 0 := hd.root
      rw [shows_cons, CoversAt]
      refine exists_congr fun c => and_congr_right fun hc => ih _ p _ c (hd.child hc) ?_ ?_
      · rw [Affine.determinant_mul]
        exact mul_ne_zero hm hroot
      · rw [Affine.mul_apply, apply_toLocal hroot, hq]

end SExprViewer.Diagram
