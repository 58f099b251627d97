import Mathlib.Data.List.Nodup
import Mathlib.Data.List.Perm.Basic
import SExprViewer.Diagram.Basic
import SExprViewer.Proofs.Tree.Preorder

/-! # The cascade of a mark

A mark is set at a node and everything below it with a work stack: a turn takes a node from the
top, changes it, and puts its children on the stack, so that the last child comes next.  The
nodes already visited and those at and below what waits on the stack are, at every turn, the
nodes to be visited, each of them once (`Partway`).  There are fewer of them on the stack after a
turn, so the loop comes to its end, and by then every one has been visited once
(`finish_partway`); the tree is the one that the recursion of `Tree.map` makes
(`tree_finish`). -/
set_option autoImplicit false

namespace SExprViewer

namespace Tree

variable {α β : Type}

/-! ## Nodes at and below a path -/

/-- The paths to the children of the node at a path, from left to right. -/
def childPaths (t : Tree α) (p : Path) : List Path :=
  (List.range ((t.at? p).elim 0 (·.children.length))).map fun i => p ++ [i]

/-- The paths at and below a path in document order; a path to no node stands for itself. -/
def pathsFrom (t : Tree α) (p : Path) : List Path :=
  ((t.at? p).elim [[]] paths).map fun q => p ++ q

/-- A node stands before what is below its children. -/
theorem pathsFrom_eq (t : Tree α) (p : Path) :
    t.pathsFrom p = p :: (t.childPaths p).flatMap t.pathsFrom := by
  rw [pathsFrom, childPaths, List.flatMap_map]
  cases hc : t.at? p with
  | none => simp
  | some c =>
      rw [Option.elim_some, Option.elim_some, paths_eq, pathsAll_eq, List.map_cons,
        List.append_nil, List.map_flatMap]
      congr 1
      refine List.flatMap_congr fun i _ => ?_
      rw [pathsFrom, at?_append, hc, Option.bind_some, at?_cons, List.map_map]
      cases c.children[i]? with
      | none => simp
      | some c => simp [Function.comp_def]

theorem mem_pathsFrom {t : Tree α} {p : Path} (hp : (t.at? p).isSome) (q : Path) :
    q ∈ t.pathsFrom p ↔ p <+: q ∧ (t.at? q).isSome := by
  obtain ⟨c, hc⟩ := Option.isSome_iff_exists.mp hp
  rw [pathsFrom, hc, Option.elim_some, List.mem_map]
  constructor
  · rintro ⟨r, hr, rfl⟩
    rw [at?_append, hc, Option.bind_some]
    exact ⟨List.prefix_append p r, (mem_paths r c).mp hr⟩
  · rintro ⟨⟨r, rfl⟩, hq⟩
    rw [at?_append, hc, Option.bind_some] at hq
    exact ⟨r, (mem_paths r c).mpr hq, rfl⟩

theorem pathsFrom_nodup (t : Tree α) (p : Path) : (t.pathsFrom p).Nodup := by
  refine List.Nodup.map (fun q r h => List.append_cancel_left h) ?_
  cases t.at? p with
  | none => exact List.nodup_singleton []
  | some c =>
      refine (paths_ascend c).imp fun {q r} hlt heq => ?_
      exact List.lt_irrefl r (heq ▸ hlt)

theorem pathsFrom_map (f : α → β) (t : Tree α) (p : Path) :
    (t.map f).pathsFrom p = t.pathsFrom p := by
  rw [pathsFrom, pathsFrom, at?_map]
  cases t.at? p with
  | none => rfl
  | some c => rw [Option.map_some, Option.elim_some, paths_map]; rfl

/-! ## The loop -/

/-- A tree that is changed node by node: what waits, the top of the stack first, and what has been
visited, the first first. -/
structure Walk (α : Type) where
  tree : Tree α
  stack : List Path
  visited : List Path

namespace Walk

variable {f : α → α}

/-- A turn: the node at the path, just taken from the stack, is changed, and its children are put
on the stack from left to right. -/
def visit (f : α → α) (p : Path) (rest : List Path) (w : Walk α) : Walk α where
  tree := w.tree.modifyAt (modifyRoot f) p
  stack := (w.tree.childPaths p).reverse ++ rest
  visited := w.visited ++ [p]

/-- The nodes still to be visited. -/
def pending (w : Walk α) : List Path := w.stack.flatMap w.tree.pathsFrom

theorem pathsFrom_visit (f : α → α) (p : Path) (rest : List Path) (w : Walk α) (q : Path) :
    (w.visit f p rest).tree.pathsFrom q = w.tree.pathsFrom q := by
  have hshape : (w.visit f p rest).tree.map (fun _ => ()) = w.tree.map fun _ => () :=
    map_modifyAt (fun t => by cases t; rfl) p w.tree
  rw [← pathsFrom_map (fun _ => ()), hshape, pathsFrom_map]

/-- A turn takes one node from those still to be visited. -/
theorem pending_visit (f : α → α) {p : Path} {rest : List Path} {w : Walk α}
    (hstack : w.stack = p :: rest) : w.pending.Perm (p :: (w.visit f p rest).pending) := by
  have hpending : (w.visit f p rest).pending =
      (w.tree.childPaths p).reverse.flatMap w.tree.pathsFrom ++ rest.flatMap w.tree.pathsFrom := by
    rw [pending, funext (pathsFrom_visit f p rest w), visit, List.flatMap_append]
  rw [pending, hstack, List.flatMap_cons, pathsFrom_eq, hpending]
  exact (((List.reverse_perm _).symm.flatMap_right _).append_right _).cons p

def finish (f : α → α) (w : Walk α) : Walk α :=
  match _ : w.stack with
  | [] => w
  | p :: rest => finish f (w.visit f p rest)
termination_by w.pending.length
decreasing_by
  rw [(pending_visit f ‹w.stack = p :: rest›).length_eq, List.length_cons]
  exact Nat.lt_succ_self _

/-- What a walk over the nodes at and below a path has done, and what it has left to do. -/
structure Partway (f : α → α) (t : Tree α) (p : Path) (w : Walk α) : Prop where
  parted : (w.visited ++ w.pending).Perm (t.pathsFrom p)
  valueAt?_eq : ∀ q, w.tree.valueAt? q =
    if q ∈ w.visited then (t.valueAt? q).map f else t.valueAt? q

theorem Partway.start (f : α → α) (t : Tree α) (p : Path) : Partway f t p ⟨t, [p], []⟩ where
  parted := by rw [pending, List.nil_append, List.flatMap_singleton]
  valueAt?_eq q := (if_neg List.not_mem_nil).symm

theorem Partway.visit {t : Tree α} {p q : Path} {rest : List Path} {w : Walk α}
    (h : Partway f t p w) (hstack : w.stack = q :: rest) : Partway f t p (w.visit f q rest) := by
  have hparted : (w.visited ++ q :: (w.visit f q rest).pending).Perm (t.pathsFrom p) :=
    ((pending_visit f hstack).symm.append_left _).trans h.parted
  have hnew : q ∉ w.visited := by
    intro hq
    exact (List.nodup_append.mp (hparted.nodup_iff.mpr (pathsFrom_nodup t p))).2.2 q hq q
      List.mem_cons_self rfl
  refine ⟨?_, fun r => ?_⟩
  · rw [show (w.visit f q rest).visited = w.visited ++ [q] from rfl, List.append_assoc]
    exact hparted
  · rw [show (w.visit f q rest).tree = w.tree.modifyAt (modifyRoot f) q from rfl,
      valueAt?_modifyAt_modifyRoot, h.valueAt?_eq]
    by_cases hr : r = q
    · subst hr
      simp [Walk.visit, hnew]
    · simp [Walk.visit, hr]

theorem finish_partway {t : Tree α} {p : Path} (w : Walk α) (h : Partway f t p w) :
    Partway f t p (w.finish f) ∧ (w.finish f).stack = [] := by
  fun_induction finish f w with
  | case1 w hstack => exact ⟨h, hstack⟩
  | case2 w q rest hstack ih => exact ih (h.visit hstack)

theorem visited_finish (f : α → α) (t : Tree α) (p : Path) :
    (finish f ⟨t, [p], []⟩).visited.Perm (t.pathsFrom p) := by
  obtain ⟨hpartway, hstack⟩ := finish_partway _ (Partway.start f t p)
  have hparted := hpartway.parted
  rwa [pending, hstack, List.flatMap_nil, List.append_nil] at hparted

end Walk

/-- The loop from one node makes the change that the recursion makes there. -/
theorem tree_finish (f : α → α) {t : Tree α} {p : Path} (hp : (t.at? p).isSome) :
    (Walk.finish f ⟨t, [p], []⟩).tree = t.modifyAt (map f) p := by
  obtain ⟨hpartway, hstack⟩ := Walk.finish_partway _ (Walk.Partway.start f t p)
  refine ext_valueAt? _ fun q => ?_
  rw [hpartway.valueAt?_eq, valueAt?_modifyAt_map]
  by_cases hq : (t.at? q).isSome
  · congr 1
    rw [(Walk.visited_finish f t p).mem_iff, mem_pathsFrom hp, and_iff_left hq]
  · rw [valueAt?, Option.not_isSome_iff_eq_none.mp hq]
    simp

end Tree

namespace Diagram

variable {K : Type}

/-- The node at a path is looked up, and the mark set there with a work stack. -/
def cascade (active : Bool) (p : Path) (d : Diagram K) : Tree.Walk (Node K) :=
  if (d.at? p).isSome then Tree.Walk.finish (fun n => { n with active := active }) ⟨d, [p], []⟩
  else ⟨d, [], []⟩

theorem tree_cascade (active : Bool) (p : Path) (d : Diagram K) :
    (d.cascade active p).tree = d.setActive active p := by
  rw [cascade, setActive]
  split
  case isTrue hp => exact Tree.tree_finish _ hp
  case isFalse hp =>
    refine Tree.ext_valueAt? _ fun q => ?_
    rw [Tree.valueAt?_modifyAt_map]
    split
    case isTrue hq =>
      rw [Tree.valueAt?, Tree.at?_eq_none_below hp hq]
      rfl
    case isFalse => rfl

/-- The mark is set at the node and below it, and nothing else changes; the loop gets there in
one visit to each of these nodes. -/
theorem cascade_marks (active : Bool) (p : Path) (d : Diagram K) :
    (∀ q, (d.cascade active p).tree.valueAt? q =
      if p <+: q then (d.valueAt? q).map fun n => { n with active := active }
      else d.valueAt? q) ∧
    (d.cascade active p).tree = d.setActive active p ∧
    (d.cascade active p).stack = [] ∧
    (d.cascade active p).visited.Nodup ∧
    (∀ q, q ∈ (d.cascade active p).visited ↔ p <+: q ∧ (d.at? q).isSome) ∧
    (d.cascade active p).visited.length = (d.at? p).elim 0 Tree.size := by
  refine ⟨fun q => ?_, tree_cascade active p d, ?_⟩
  · rw [tree_cascade, setActive, Tree.valueAt?_modifyAt_map]
  rw [cascade]
  split
  case isTrue hp =>
    have hvisited := Tree.Walk.visited_finish (fun n : Node K => { n with active := active }) d p
    refine ⟨(Tree.Walk.finish_partway _ (Tree.Walk.Partway.start _ d p)).2,
      hvisited.nodup_iff.mpr (Tree.pathsFrom_nodup d p), fun q => ?_, ?_⟩
    · rw [hvisited.mem_iff, Tree.mem_pathsFrom hp]
    · rw [hvisited.length_eq, Tree.pathsFrom, List.length_map]
      obtain ⟨c, hc⟩ := Option.isSome_iff_exists.mp hp
      rw [hc, Option.elim_some, Option.elim_some, Tree.length_paths]
  case isFalse hp =>
    rw [Option.not_isSome_iff_eq_none.mp hp]
    refine ⟨rfl, List.nodup_nil, fun q => iff_of_false List.not_mem_nil ?_, rfl⟩
    rintro ⟨hbelow, hq⟩
    rw [Tree.at?_eq_none_below hp hbelow] at hq
    cases hq

end Diagram

end SExprViewer
