import SExprViewer.Proofs.Tree.Path

/-! # Document order

The paths of a tree in document order, every node before its children and these from left to
right: there is one for each node (`mem_paths`), and they ascend (`paths_ascend`).  The values in
this order are put together in the same way, child by child (`preorderAll_eq`). -/
set_option autoImplicit false

namespace SExprViewer.Tree

variable {α β : Type}

mutual

def paths : Tree α → List Path
  | .node _ cs => [] :: pathsAll 0 cs

/-- The paths into some children, counted from `i`. -/
def pathsAll (i : Nat) : List (Tree α) → List Path
  | [] => []
  | t :: rest => t.paths.map (i :: ·) ++ pathsAll (i + 1) rest

end

theorem paths_eq (t : Tree α) : t.paths = [] :: pathsAll 0 t.children := by
  cases t
  rfl

theorem mem_pathsAll (cs : List (Tree α)) : ∀ {k : Nat} {path : Path}, path ∈ pathsAll k cs ↔
    ∃ i c rest, path = (k + i) :: rest ∧ cs[i]? = some c ∧ rest ∈ c.paths := by
  induction cs with
  | nil => intro k path; simp [pathsAll]
  | cons t cs ih =>
      intro k path
      rw [pathsAll, List.mem_append, List.mem_map, ih]
      constructor
      · rintro (⟨rest, hrest, rfl⟩ | ⟨i, c, rest, rfl, hc, hrest⟩)
        · exact ⟨0, t, rest, rfl, rfl, hrest⟩
        · exact ⟨i + 1, c, rest, by rw [Nat.add_right_comm, Nat.add_assoc], hc, hrest⟩
      · rintro ⟨i, c, rest, rfl, hc, hrest⟩
        cases i with
        | zero =>
            cases hc
            exact .inl ⟨rest, hrest, rfl⟩
        | succ i => exact .inr ⟨i, c, rest, by rw [Nat.add_right_comm, Nat.add_assoc], hc, hrest⟩

theorem mem_paths (path : Path) : ∀ t : Tree α, path ∈ t.paths ↔ (t.at? path).isSome := by
  induction path with
  | nil => intro t; simp [paths_eq]
  | cons i path ih =>
      intro t
      rw [paths_eq, List.mem_cons, mem_pathsAll, at?_cons]
      cases hc : t.children[i]? with
      | none => simp [hc]
      | some c => simp [hc, ih]

theorem pathsAll_ascend {cs : List (Tree α)} (hcs : ∀ c ∈ cs, c.paths.Pairwise (· < ·)) :
    ∀ k, (pathsAll k cs).Pairwise (· < ·) := by
  induction cs with
  | nil => intro k; exact .nil
  | cons t cs ih =>
      intro k
      rw [pathsAll, List.pairwise_append, List.pairwise_map]
      refine ⟨?_, ih (fun c hc => hcs c (List.mem_cons_of_mem _ hc)) (k + 1), ?_⟩
      · exact (hcs t List.mem_cons_self).imp fun h => List.cons_lt_cons_iff.mpr (.inr ⟨rfl, h⟩)
      · intro p hp q hq
        obtain ⟨p, _, rfl⟩ := List.mem_map.mp hp
        obtain ⟨i, _, q, rfl, _⟩ := (mem_pathsAll cs).mp hq
        exact List.cons_lt_cons_iff.mpr (.inl (by omega))

theorem paths_ascend (t : Tree α) : t.paths.Pairwise (· < ·) := by
  induction t using node_induction with
  | node a cs ih =>
      refine List.pairwise_cons.mpr ⟨fun p hp => ?_, pathsAll_ascend ih 0⟩
      obtain ⟨i, _, q, rfl, _⟩ := (mem_pathsAll cs).mp hp
      exact List.nil_lt_cons _ _

theorem pathsAll_eq (cs : List (Tree α)) : ∀ k, pathsAll k cs =
    (List.range cs.length).flatMap fun i => (cs[i]?.elim [[]] paths).map ((k + i) :: ·) := by
  induction cs with
  | nil => intro k; rfl
  | cons c cs ih =>
      intro k
      rw [pathsAll, ih, List.length_cons, List.range_succ_eq_map, List.flatMap_cons,
        List.flatMap_map]
      congr 1
      refine List.flatMap_congr fun i _ => ?_
      rw [List.getElem?_cons_succ, Nat.add_right_comm, Nat.add_assoc]

mutual

theorem length_paths : ∀ t : Tree α, t.paths.length = t.size
  | .node _ cs => by rw [paths, List.length_cons, length_pathsAll 0 cs, size, Nat.add_comm]

theorem length_pathsAll : ∀ (k : Nat) (cs : List (Tree α)), (pathsAll k cs).length = sizeAll cs
  | _, [] => rfl
  | k, c :: cs => by
      rw [pathsAll, List.length_append, List.length_map, length_paths c, length_pathsAll (k + 1) cs,
        sizeAll]

end

mutual

theorem paths_map (f : α → β) : ∀ t : Tree α, (t.map f).paths = t.paths
  | .node _ cs => congrArg ([] :: ·) (pathsAll_mapAll f 0 cs)

theorem pathsAll_mapAll (f : α → β) : ∀ (k : Nat) (cs : List (Tree α)),
    pathsAll k (mapAll f cs) = pathsAll k cs
  | _, [] => rfl
  | k, c :: cs => by rw [mapAll, pathsAll, pathsAll, paths_map f c, pathsAll_mapAll f (k + 1) cs]

end

/-- What is put together along the paths into some children, child by child. -/
theorem flatMap_pathsAll {f : Path → List β} {g : Tree α → Path → List β} (cs : List (Tree α)) :
    ∀ k, (∀ i c path, cs[i]? = some c → f ((k + i) :: path) = g c path) →
      (pathsAll k cs).flatMap f = cs.flatMap fun c => c.paths.flatMap (g c) := by
  induction cs with
  | nil => intro k _; rfl
  | cons t cs ih =>
      intro k hf
      have hrest : ∀ i c path, cs[i]? = some c → f ((k + 1 + i) :: path) = g c path := by
        intro i c path hc
        rw [Nat.add_right_comm, Nat.add_assoc]
        exact hf (i + 1) c path hc
      rw [pathsAll, List.flatMap_append, List.flatMap_cons, ih (k + 1) hrest, List.flatMap_map]
      congr 1
      exact List.flatMap_congr fun path _ => hf 0 t path rfl

/-! ## The values -/

theorem preorderAll_eq (cs : List (Tree α)) : preorderAll cs = cs.flatMap preorder := by
  induction cs with
  | nil => rfl
  | cons c cs ih => rw [preorderAll, ih, List.flatMap_cons]

theorem preorder_map (f : α → β) (t : Tree α) : (t.map f).preorder = t.preorder.map f := by
  induction t using node_induction with
  | node a cs ih =>
      rw [map_node, preorder, preorder, preorderAll_eq, preorderAll_eq, List.flatMap_map,
        List.map_cons, List.map_flatMap]
      congr 1
      exact List.flatMap_congr ih

end SExprViewer.Tree
