import SExprViewer.Proofs.Diagram.Body

/-! # Identities in post-order

A diagram takes its identities from the counter in post-order, every node behind its children and
these from left to right: one for each node, with no gap between them (`numbers_build`).  What
ascends along the post-order of some trees ascends along the post-order of the paths into them
(`rel_of_precedes`), so that it tells the nodes apart. -/
set_option autoImplicit false

namespace SExprViewer

/-- The post-order of paths: whatever is below a node comes before it. -/
def Path.Precedes : Path → Path → Prop
  | [], _ => False
  | _ :: _, [] => True
  | i :: p, j :: q => i < j ∨ i = j ∧ Path.Precedes p q

theorem Path.precedes_or_eq (p : Path) : ∀ q : Path, Precedes p q ∨ p = q ∨ Precedes q p := by
  induction p with
  | nil =>
      intro q
      cases q with
      | nil => exact .inr (.inl rfl)
      | cons j q => exact .inr (.inr trivial)
  | cons i p ih =>
      intro q
      cases q with
      | nil => exact .inl trivial
      | cons j q =>
          rcases Nat.lt_trichotomy i j with hlt | rfl | hlt
          · exact .inl (.inl hlt)
          · rcases ih q with h | rfl | h
            · exact .inl (.inr ⟨rfl, h⟩)
            · exact .inr (.inl rfl)
            · exact .inr (.inr (.inr ⟨rfl, h⟩))
          · exact .inr (.inr (.inl hlt))

theorem Path.precedes_of_below (q : Path) : ∀ {p : Path}, q <+: p → p ≠ q → Precedes p q := by
  induction q with
  | nil =>
      intro p _ hne
      cases p with
      | nil => exact absurd rfl hne
      | cons i p => trivial
  | cons j q ih =>
      rintro p ⟨r, rfl⟩ hne
      exact .inr ⟨rfl, ih (List.prefix_append q r) fun h => hne (congrArg (j :: ·) h)⟩

namespace Tree

variable {α : Type}

mutual

/-- The values, every node behind its children and these from left to right. -/
def postorder : Tree α → List α
  | .node a cs => postorderAll cs ++ [a]

def postorderAll : List (Tree α) → List α
  | [] => []
  | t :: rest => t.postorder ++ postorderAll rest

end

theorem postorder_eq (t : Tree α) : t.postorder = postorderAll t.children ++ [t.value] := by
  cases t
  rfl

theorem postorderAll_eq (cs : List (Tree α)) : postorderAll cs = cs.flatMap postorder := by
  induction cs with
  | nil => rfl
  | cons c cs ih => rw [postorderAll, ih, List.flatMap_cons]

theorem mem_postorder {a : α} (p : Path) : ∀ {t : Tree α}, t.valueAt? p = some a →
    a ∈ t.postorder := by
  induction p with
  | nil =>
      intro t ha
      cases ha
      rw [postorder_eq]
      exact List.mem_append_right _ List.mem_cons_self
  | cons i p ih =>
      intro t ha
      rw [valueAt?_cons] at ha
      obtain ⟨c, hc, ha⟩ := Option.bind_eq_some_iff.mp ha
      rw [postorder_eq, postorderAll_eq]
      exact List.mem_append_left _
        (List.mem_flatMap.mpr ⟨c, List.mem_of_getElem? hc, ih ha⟩)

theorem postorderAll_concat (ts : List (Tree α)) (t : Tree α) :
    postorderAll (ts ++ [t]) = postorderAll ts ++ t.postorder := by
  rw [postorderAll_eq, postorderAll_eq, List.flatMap_append, List.flatMap_singleton]

/-- The value at a path in one of some trees. -/
def among? (ts : List (Tree α)) (i : Nat) (p : Path) : Option α := ts[i]?.bind (·.valueAt? p)

theorem among?_root {ts : List (Tree α)} {i : Nat} {t : Tree α} (ht : ts[i]? = some t) :
    among? ts i [] = some t.value := by
  rw [among?, ht]
  rfl

theorem mem_postorderAll {ts : List (Tree α)} {i : Nat} {p : Path} {a : α}
    (ha : among? ts i p = some a) : a ∈ postorderAll ts := by
  obtain ⟨t, ht, ha⟩ := Option.bind_eq_some_iff.mp ha
  rw [postorderAll_eq]
  exact List.mem_flatMap.mpr ⟨t, List.mem_of_getElem? ht, mem_postorder p ha⟩

section Order
variable {R : α → α → Prop} {ts : List (Tree α)} {i j : Nat} {a b : α}

theorem rel_of_lt (h : (postorderAll ts).Pairwise R) {p q : Path} (hlt : i < j)
    (ha : among? ts i p = some a) (hb : among? ts j q = some b) : R a b := by
  obtain ⟨t, ht, ha⟩ := Option.bind_eq_some_iff.mp ha
  obtain ⟨t', ht', hb⟩ := Option.bind_eq_some_iff.mp hb
  obtain ⟨hi, rfl⟩ := List.getElem?_eq_some_iff.mp ht
  obtain ⟨hj, rfl⟩ := List.getElem?_eq_some_iff.mp ht'
  rw [postorderAll_eq, List.pairwise_flatMap] at h
  exact List.pairwise_iff_getElem.mp h.2 i j hi hj hlt a (mem_postorder p ha) b
    (mem_postorder q hb)

theorem pairwise_postorder {t : Tree α} (h : (postorderAll ts).Pairwise R) (ht : ts[i]? = some t) :
    t.postorder.Pairwise R := by
  rw [postorderAll_eq, List.pairwise_flatMap] at h
  exact h.1 t (List.mem_of_getElem? ht)

end Order

/-- What relates the values one after the other relates them by the post-order of their paths. -/
theorem rel_of_precedes {R : α → α → Prop} {a b : α} (p : Path) : ∀ {ts : List (Tree α)},
    (postorderAll ts).Pairwise R → ∀ {i j : Nat} {q : Path}, among? ts i p = some a →
      among? ts j q = some b → Path.Precedes (i :: p) (j :: q) → R a b := by
  induction p with
  | nil =>
      rintro ts h i j q ha hb (hlt | ⟨_, hpq⟩)
      · exact rel_of_lt h hlt ha hb
      · exact hpq.elim
  | cons k p ih =>
      rintro ts h i j q ha hb (hlt | ⟨rfl, hpq⟩)
      · exact rel_of_lt h hlt ha hb
      -- both are in one tree, whose children come before its root
      obtain ⟨t, ht, ha⟩ := Option.bind_eq_some_iff.mp ha
      obtain ⟨t', ht', hb⟩ := Option.bind_eq_some_iff.mp hb
      cases ht.symm.trans ht'
      have htree := pairwise_postorder h ht
      rw [postorder_eq, List.pairwise_append] at htree
      obtain ⟨hchildren, _, hroot⟩ := htree
      rw [valueAt?_cons] at ha
      cases q with
      | nil =>
          cases hb
          exact hroot a (mem_postorderAll ha) t.value List.mem_cons_self
      | cons l q =>
          rw [valueAt?_cons] at hb
          exact ih hchildren ha hb hpq

end Tree

namespace Diagram

variable {K : Type}

/-- The numbers of the identities in some diagrams, in post-order. -/
def numbersAll (ds : List (Diagram K)) : List Nat :=
  (Tree.postorderAll ds).map fun n => n.id.number

def numbers (d : Diagram K) : List Nat := d.postorder.map fun n => n.id.number

/-- Some diagrams have used up the identities between two, in post-order. -/
structure Numbered (next : ObjectId) (built : List (Diagram K) × ObjectId) : Prop where
  numbersAll_eq : numbersAll built.1 = List.range' next.number (Tree.sizeAll built.1)
  number_eq : built.2.number = next.number + Tree.sizeAll built.1

variable [Scalar K] {measure : TextMeasure K} {layout : LayoutSettings K}

theorem Numbered.build {e : Expr} {next : ObjectId}
    (h : Numbered next (buildAll measure layout e.content next)) :
    (build measure layout e next).1.numbers =
        List.range' next.number (build measure layout e next).1.size ∧
      (build measure layout e next).2.number =
        next.number + (build measure layout e next).1.size := by
  obtain ⟨hnumbers, hnumber⟩ := h
  rw [build_eq]
  generalize buildAll measure layout e.content next = built at hnumbers hnumber
  have hsize : (ofItems measure layout e.content built.1 built.2).size =
      Tree.sizeAll built.1 + 1 := Nat.add_comm _ _
  have hlist : (ofItems measure layout e.content built.1 built.2).numbers =
      numbersAll built.1 ++ [built.2.number] := List.map_append
  constructor
  · rw [hlist, hsize, hnumbers, hnumber, List.range'_concat, Nat.one_mul]
  · rw [hsize, ← Nat.add_assoc, ← hnumber]
    rfl

theorem numbered_buildAll (items : List Expr) : ∀ next,
    Numbered next (buildAll measure layout items next) := by
  induction items using Expr.items_induction with
  | nil => intro next; exact ⟨rfl, rfl⟩
  | atom a rest ih => intro next; exact ih next
  | list inner rest ihInner ih =>
      intro next
      obtain ⟨hfirst, hfirstNext⟩ := Numbered.build (e := .list inner) (ihInner next)
      obtain ⟨hrest, hrestNext⟩ := ih (build measure layout (.list inner) next).2
      have hsize : Tree.sizeAll (buildAll measure layout (.list inner :: rest) next).1 =
          (build measure layout (.list inner) next).1.size + Tree.sizeAll
            (buildAll measure layout rest (build measure layout (.list inner) next).2).1 := rfl
      have hlist : numbersAll (buildAll measure layout (.list inner :: rest) next).1 =
          (build measure layout (.list inner) next).1.numbers ++ numbersAll
            (buildAll measure layout rest (build measure layout (.list inner) next).2).1 :=
        List.map_append
      constructor
      · rw [hlist, hsize, hfirst, hrest, hfirstNext, List.range'_append_1]
      · rw [hsize, ← Nat.add_assoc, ← hfirstNext, ← hrestNext]
        rfl

/-- A diagram is numbered in post-order from the next identity on, without gaps. -/
theorem numbers_build (measure : TextMeasure K) (layout : LayoutSettings K) (e : Expr)
    (next : ObjectId) :
    (build measure layout e next).1.numbers =
        List.range' next.number (build measure layout e next).1.size ∧
      (build measure layout e next).2.number =
        next.number + (build measure layout e next).1.size :=
  (numbered_buildAll e.content next).build

theorem ascend_build (measure : TextMeasure K) (layout : LayoutSettings K) (e : Expr)
    (next : ObjectId) : (build measure layout e next).1.postorder.Pairwise fun n n' =>
      n.id.number < n'.id.number := by
  rw [← List.pairwise_map, ← numbers, (numbers_build measure layout e next).1]
  exact List.pairwise_lt_range'

/-- Every identity of a diagram was handed out while it was built. -/
theorem number_mem_build {e : Expr} {next : ObjectId} {n : Node K}
    (hn : n ∈ (build measure layout e next).1.postorder) :
    next.number ≤ n.id.number ∧ n.id.number < (build measure layout e next).2.number := by
  obtain ⟨hnumbers, hnumber⟩ := numbers_build measure layout e next
  have hmem : n.id.number ∈ (build measure layout e next).1.numbers := List.mem_map_of_mem hn
  rwa [hnumbers, List.mem_range'_1, ← hnumber] at hmem

end Diagram

end SExprViewer
