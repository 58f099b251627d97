import Mathlib.Data.List.Basic
import SExprViewer.Tree.Basic

/-! # Nodes by their paths

A tree is told by its values at all paths (`ext_valueAt?`).  What a change at a path does to them
shows at the paths that go on from there (`valueAt?_modifyAt_append`) and at no other
(`valueAt?_modifyAt_of_not_prefix`): a changed value at this path alone
(`valueAt?_modifyAt_modifyRoot`), a map at all of them (`valueAt?_modifyAt_map`).  `All P` says
that every value has the property `P`; `mapPath` changes every value by the path to it. -/
set_option autoImplicit false

namespace SExprViewer.Tree

variable {α β : Type}

@[elab_as_elim]
theorem node_induction {motive : Tree α → Prop}
    (node : ∀ a cs, (∀ c ∈ cs, motive c) → motive (.node a cs)) : ∀ t, motive t
  | .node a cs => node a cs fun c _ => node_induction node c

/-! ## Values and children -/

theorem mapAll_eq_map (f : α → β) : ∀ cs : List (Tree α), mapAll f cs = cs.map (map f) := by
  intro cs
  induction cs with
  | nil => rfl
  | cons c rest ih => rw [mapAll, ih, List.map_cons]

theorem map_node (f : α → β) (a : α) (cs : List (Tree α)) :
    (Tree.node a cs).map f = .node (f a) (cs.map (map f)) := by
  rw [map, mapAll_eq_map]

@[simp] theorem value_map (f : α → β) (t : Tree α) : (t.map f).value = f t.value := by
  cases t
  rfl

@[simp] theorem children_map (f : α → β) (t : Tree α) :
    (t.map f).children = t.children.map (map f) := by
  cases t
  exact mapAll_eq_map f _

@[simp] theorem value_modifyRoot (f : α → α) (t : Tree α) :
    (t.modifyRoot f).value = f t.value := by
  cases t
  rfl

@[simp] theorem children_modifyRoot (f : α → α) (t : Tree α) :
    (t.modifyRoot f).children = t.children := by
  cases t
  rfl

theorem children_modifyAt_cons (f : Tree α → Tree α) (i : Nat) (path : Path) (t : Tree α) :
    (t.modifyAt f (i :: path)).children = t.children.modify i (modifyAt f path) := by
  cases t
  rfl

/-! ## The subtree at a path -/

@[simp] theorem at?_nil (t : Tree α) : t.at? [] = some t := rfl

theorem at?_cons (t : Tree α) (i : Nat) (path : Path) :
    t.at? (i :: path) = t.children[i]?.bind (·.at? path) := rfl

theorem at?_map (f : α → β) (path : Path) :
    ∀ t : Tree α, (t.map f).at? path = (t.at? path).map (map f) := by
  induction path with
  | nil => intro t; rfl
  | cons i path ih =>
      intro t
      rw [at?_cons, at?_cons, children_map, List.getElem?_map]
      cases t.children[i]? with
      | none => rfl
      | some c => exact ih c

theorem at?_append (p q : Path) : ∀ t : Tree α, t.at? (p ++ q) = (t.at? p).bind (·.at? q) := by
  induction p with
  | nil => intro t; rfl
  | cons i p ih =>
      intro t
      rw [List.cons_append, at?_cons, at?_cons, Option.bind_assoc]
      congr 1
      funext c
      exact ih c

/-- Below a path to no node there is no node. -/
theorem at?_eq_none_below {t : Tree α} {p q : Path} (hp : ¬ (t.at? p).isSome)
    (hq : p <+: q) : t.at? q = none := by
  obtain ⟨r, rfl⟩ := hq
  rw [at?_append, Option.not_isSome_iff_eq_none.mp hp]
  rfl

def valueAt? (t : Tree α) (path : Path) : Option α := (t.at? path).map value

theorem valueAt?_cons (t : Tree α) (i : Nat) (path : Path) :
    t.valueAt? (i :: path) = t.children[i]?.bind (·.valueAt? path) := by
  rw [valueAt?, at?_cons]
  cases t.children[i]? <;> rfl

theorem valueAt?_map (f : α → β) (t : Tree α) (path : Path) :
    (t.map f).valueAt? path = (t.valueAt? path).map f := by
  rw [valueAt?, valueAt?, at?_map, Option.map_map, Option.map_map]
  congr 1
  funext s
  exact value_map f s

/-- A tree is told by its values. -/
theorem ext_valueAt? (t : Tree α) :
    ∀ {t' : Tree α}, (∀ q, t.valueAt? q = t'.valueAt? q) → t = t' := by
  induction t using node_induction with
  | node a cs ih =>
      intro t' h
      obtain ⟨a', cs'⟩ := t'
      have hroot : a = a' := Option.some.inj (h [])
      have hchild : ∀ i : Nat, cs[i]? = cs'[i]? := by
        intro i
        have hi : ∀ q, cs[i]?.bind (·.valueAt? q) = cs'[i]?.bind (·.valueAt? q) := by
          intro q
          have hq := h (i :: q)
          rwa [valueAt?_cons, valueAt?_cons] at hq
        cases hc : cs[i]? with
        | none =>
            cases hc' : cs'[i]? with
            | none => rfl
            | some c' =>
                rw [hc, hc'] at hi
                cases hi []
        | some c =>
            cases hc' : cs'[i]? with
            | none =>
                rw [hc, hc'] at hi
                cases hi []
            | some c' =>
                rw [hc, hc'] at hi
                rw [ih c (List.mem_of_getElem? hc) hi]
      rw [hroot, List.ext_getElem? hchild]

/-! ## A change at a path -/

theorem valueAt?_modifyAt_of_not_prefix (g : Tree α → Tree α) (p : Path) : ∀ (t : Tree α)
    (q : Path), ¬ p <+: q → (t.modifyAt g p).valueAt? q = t.valueAt? q := by
  induction p with
  | nil => intro t q hq; exact absurd List.nil_prefix hq
  | cons i p ih =>
      intro t q hq
      cases q with
      | nil => cases t; rfl
      | cons j q =>
          rw [valueAt?_cons, valueAt?_cons, children_modifyAt_cons, List.getElem?_modify]
          by_cases hij : i = j
          · subst hij
            rw [List.prefix_cons_inj] at hq
            cases t.children[i]? with
            | none => rfl
            | some c => simpa using ih c q hq
          · simp [hij]

/-- At and below the path the change shows as it does in the tree that stands there. -/
theorem valueAt?_modifyAt_append {g : Tree α → Tree α} {F : Option α → Option α}
    (hnone : F none = none) {r : Path} (hg : ∀ t, (g t).valueAt? r = F (t.valueAt? r))
    (p : Path) : ∀ t : Tree α, (t.modifyAt g p).valueAt? (p ++ r) = F (t.valueAt? (p ++ r)) := by
  induction p with
  | nil => intro t; cases t; exact hg _
  | cons i p ih =>
      intro t
      rw [List.cons_append, valueAt?_cons, valueAt?_cons, children_modifyAt_cons,
        List.getElem?_modify]
      cases t.children[i]? with
      | none => simp [hnone]
      | some c => simpa using ih c

theorem valueAt?_modifyRoot_nil (f : α → α) (t : Tree α) :
    (t.modifyRoot f).valueAt? [] = (t.valueAt? []).map f := by
  cases t
  rfl

theorem valueAt?_modifyRoot_cons (f : α → α) (i : Nat) (path : Path) (t : Tree α) :
    (t.modifyRoot f).valueAt? (i :: path) = t.valueAt? (i :: path) := by
  rw [valueAt?_cons, valueAt?_cons, children_modifyRoot]

theorem valueAt?_modifyAt_modifyRoot (f : α → α) (t : Tree α) (p q : Path) :
    (t.modifyAt (modifyRoot f) p).valueAt? q =
      if q = p then (t.valueAt? q).map f else t.valueAt? q := by
  by_cases hprefix : p <+: q
  · obtain ⟨r, rfl⟩ := hprefix
    cases r with
    | nil =>
        rw [valueAt?_modifyAt_append rfl (valueAt?_modifyRoot_nil f), if_pos (List.append_nil p)]
    | cons i r =>
        rw [valueAt?_modifyAt_append (F := id) rfl (valueAt?_modifyRoot_cons f i r),
          if_neg (by simp)]
        rfl
  · have hne : q ≠ p := by
      rintro rfl
      exact hprefix (List.prefix_refl q)
    rw [if_neg hne, valueAt?_modifyAt_of_not_prefix _ p t q hprefix]

theorem valueAt?_modifyAt_map (f : α → α) (t : Tree α) (p q : Path) :
    (t.modifyAt (map f) p).valueAt? q =
      if p <+: q then (t.valueAt? q).map f else t.valueAt? q := by
  by_cases hprefix : p <+: q
  · rw [if_pos hprefix]
    obtain ⟨r, rfl⟩ := hprefix
    exact valueAt?_modifyAt_append rfl (valueAt?_map f · r) p t
  · rw [if_neg hprefix, valueAt?_modifyAt_of_not_prefix _ p t q hprefix]

theorem map_modifyAt {f : α → β} {g : Tree α → Tree α} (hg : ∀ t, (g t).map f = t.map f)
    (p : Path) : ∀ t : Tree α, (t.modifyAt g p).map f = t.map f := by
  induction p with
  | nil => intro t; cases t; exact hg _
  | cons i p ih =>
      intro t
      obtain ⟨a, cs⟩ := t
      rw [modifyAt, map_node, map_node]
      congr 1
      apply List.ext_getElem?
      intro j
      rw [List.getElem?_map, List.getElem?_map, List.getElem?_modify]
      by_cases hij : i = j
      · cases cs[j]? with
        | none => simp
        | some c => simp [hij, ih c]
      · simp [hij]

/-! ## Every value -/

def All (P : α → Prop) (t : Tree α) : Prop := ∀ path a, t.valueAt? path = some a → P a

theorem All.root {P : α → Prop} {t : Tree α} (h : t.All P) : P t.value := h [] t.value rfl

theorem All.child {P : α → Prop} {t c : Tree α} (h : t.All P) {i : Nat}
    (hc : t.children[i]? = some c) : c.All P := by
  intro path a ha
  exact h (i :: path) a (by rw [valueAt?_cons, hc]; exact ha)

theorem all_node {P : α → Prop} {a : α} {cs : List (Tree α)} (ha : P a)
    (hcs : ∀ c ∈ cs, All P c) : (Tree.node a cs).All P := by
  intro path b hb
  cases path with
  | nil => cases hb; exact ha
  | cons i path =>
      rw [valueAt?_cons] at hb
      obtain ⟨c, hc, hb⟩ := Option.bind_eq_some_iff.mp hb
      exact hcs c (List.mem_of_getElem? hc) path b hb

/-- What can be told from `f` holds of trees that are alike under `f`. -/
theorem All.of_map_eq {P : β → Prop} {f : α → β} {t t' : Tree α} (h : t'.All fun a => P (f a))
    (hmap : t.map f = t'.map f) : t.All fun a => P (f a) := by
  intro path a ha
  have hvalue := valueAt?_map f t path
  rw [hmap, valueAt?_map, ha] at hvalue
  obtain ⟨a', ha', heq⟩ := Option.map_eq_some_iff.mp hvalue
  exact heq ▸ h path a' ha'

theorem All.map {P : α → Prop} {Q : β → Prop} {f : α → β} {t : Tree α} (h : t.All P)
    (hf : ∀ a, P a → Q (f a)) : (t.map f).All Q := by
  intro path b hb
  rw [valueAt?_map] at hb
  obtain ⟨a, ha, rfl⟩ := Option.map_eq_some_iff.mp hb
  exact hf a (h path a ha)

/-! ## Maps one after the other -/

theorem map_map {γ : Type} (g : β → γ) (f : α → β) (t : Tree α) :
    (t.map f).map g = t.map (g ∘ f) := by
  induction t using node_induction with
  | node a cs ih =>
      rw [map_node, map_node, map_node, List.map_map]
      congr 1
      exact List.map_congr_left ih

theorem map_congr {f g : α → β} (h : ∀ a, f a = g a) (t : Tree α) : t.map f = t.map g := by
  rw [funext h]

theorem map_congr_of_all {f g : α → β} {t : Tree α} (h : t.All fun a => f a = g a) :
    t.map f = t.map g := by
  induction t using node_induction with
  | node a cs ih =>
      rw [map_node, map_node, show f a = g a from h.root]
      congr 1
      refine List.map_congr_left fun c hc => ih c hc ?_
      obtain ⟨i, hi⟩ := List.mem_iff_getElem?.mp hc
      exact h.child hi

/-! ## Values changed by their paths -/

mutual

/-- The tree with every value changed, given the path to it. -/
def mapPath (f : Path → α → β) : Tree α → Tree β
  | .node a cs => .node (f [] a) (mapPathAll f 0 cs)

/-- The same for some children, counted from `i`. -/
def mapPathAll (f : Path → α → β) (i : Nat) : List (Tree α) → List (Tree β)
  | [] => []
  | t :: rest => t.mapPath (fun path => f (i :: path)) :: mapPathAll f (i + 1) rest

end

theorem getElem?_mapPathAll (f : Path → α → β) (cs : List (Tree α)) : ∀ k i,
    (mapPathAll f k cs)[i]? = cs[i]?.map (mapPath fun path => f ((k + i) :: path)) := by
  induction cs with
  | nil => intro k i; rfl
  | cons c cs ih =>
      intro k i
      cases i with
      | zero => rfl
      | succ i =>
          rw [mapPathAll, List.getElem?_cons_succ, List.getElem?_cons_succ, ih, Nat.add_right_comm,
            Nat.add_assoc]

theorem valueAt?_mapPath (path : Path) : ∀ (f : Path → α → β) (t : Tree α),
    (t.mapPath f).valueAt? path = (t.valueAt? path).map (f path) := by
  induction path with
  | nil => intro f t; cases t; rfl
  | cons i path ih =>
      intro f t
      obtain ⟨a, cs⟩ := t
      rw [valueAt?_cons, valueAt?_cons, mapPath, children, children, getElem?_mapPathAll,
        Nat.zero_add]
      cases cs[i]? with
      | none => rfl
      | some c => exact ih (fun path => f (i :: path)) c

/-- What does not depend on the path stays. -/
theorem map_mapPath {γ : Type} {g : β → γ} {h : α → γ} (t : Tree α) : ∀ {f : Path → α → β},
    (∀ path a, g (f path a) = h a) → (t.mapPath f).map g = t.map h := by
  induction t using node_induction with
  | node a cs ih =>
      intro f hf
      rw [mapPath, map_node, map_node, hf]
      congr 1
      apply List.ext_getElem?
      intro i
      rw [List.getElem?_map, List.getElem?_map, getElem?_mapPathAll]
      cases hc : cs[i]? with
      | none => rfl
      | some c =>
          exact congrArg some (ih c (List.mem_of_getElem? hc) fun path => hf ((0 + i) :: path))

end SExprViewer.Tree
