import SExprViewer.Proofs.Diagram.Nodes
import SExprViewer.Proofs.Expr.Sublists

/-! # Bodies and items

A body has one segment for every item, in their order: the label of an atom, and for a list the
link to the child with the number of lists before it (`getElem?_segments`).  So the links count the
children (`links_segments`), of which there is one for every list (`getElem?_buildAll`), and
put together along the bodies the labels are the written expression without its quotes
(`sourceChars_build`). -/
set_option autoImplicit false

namespace SExprViewer

variable {K : Type}

def Segment.link? : Segment K → Option Nat
  | .link k => some k
  | .label _ _ => none

namespace Diagram

section Segments
variable {measure : TextMeasure K}

/-- What stands for an item in a body, behind `lists` lists. -/
def segmentOf (measure : TextMeasure K) (lists : Nat) : Expr → Segment K
  | .atom a => .label (String.ofList a.label) (measure (String.ofList a.label))
  | .list _ => .link lists

theorem segments_cons (k : Nat) (e : Expr) (rest : List Expr) :
    segments measure k (e :: rest) =
      segmentOf measure k e :: segments measure (if e.isList then k + 1 else k) rest := by
  cases e <;> rfl

theorem getElem?_segments (items : List Expr) : ∀ k i, (segments measure k items)[i]? =
    items[i]?.map (segmentOf measure (k + (items.take i).countP Expr.isList)) := by
  induction items with
  | nil => intro k i; rfl
  | cons e rest ih =>
      intro k i
      rw [segments_cons]
      cases i with
      | zero => rfl
      | succ i =>
          rw [List.getElem?_cons_succ, List.getElem?_cons_succ, ih, List.take_succ_cons,
            List.countP_cons]
          cases e.isList <;> simp [Nat.add_assoc, Nat.add_comm 1]

theorem links_segments (items : List Expr) : ∀ k,
    (segments measure k items).filterMap Segment.link? =
      List.range' k (items.countP Expr.isList) := by
  induction items with
  | nil => intro k; rfl
  | cons e rest ih =>
      intro k
      rw [segments_cons]
      cases e with
      | atom a =>
          rw [List.filterMap_cons_none rfl, List.countP_cons_of_neg Bool.false_ne_true]
          exact ih k
      | list inner =>
          have hlink : (segmentOf measure k (.list inner)).link? = some k := rfl
          rw [List.filterMap_cons_some hlink, List.countP_cons_of_pos rfl, List.range'_succ]
          exact congrArg (k :: ·) (ih (k + 1))

end Segments

variable [Scalar K] {measure : TextMeasure K} {layout : LayoutSettings K}

/-! ## Children and lists -/

theorem build_eq (e : Expr) (next : ObjectId) :
    let built := buildAll measure layout e.content next
    build measure layout e next =
      (ofItems measure layout e.content built.1 built.2, built.2.next) := by
  cases e <;> rfl

theorem children_build (e : Expr) (next : ObjectId) :
    (build measure layout e next).1.children = (buildAll measure layout e.content next).1 := by
  rw [build_eq]
  rfl

theorem getElem?_buildAll (measure : TextMeasure K) (layout : LayoutSettings K)
    (items : List Expr) : ∀ (next : ObjectId) (i : Nat), ∃ next',
    (buildAll measure layout items next).1[i]? =
      (items.filter Expr.isList)[i]?.map fun e => (build measure layout e next').1 := by
  induction items with
  | nil => intro next i; exact ⟨next, rfl⟩
  | cons e rest ih =>
      intro next i
      by_cases hlist : e.isList = true
      · rw [buildAll, if_pos hlist, List.filter_cons_of_pos hlist]
        cases i with
        | zero => exact ⟨next, rfl⟩
        | succ i => exact ih _ i
      · rw [buildAll, if_neg hlist, List.filter_cons_of_neg hlist]
        exact ih next i

theorem length_buildAll (items : List Expr) : ∀ next,
    (buildAll measure layout items next).1.length = items.countP Expr.isList := by
  induction items with
  | nil => intro next; rfl
  | cons e rest ih =>
      intro next
      by_cases hlist : e.isList = true
      · rw [buildAll, if_pos hlist, List.countP_cons_of_pos hlist]
        exact congrArg Nat.succ (ih _)
      · rw [buildAll, if_neg hlist, List.countP_cons_of_neg hlist]
        exact ih next

theorem sizeAll_buildAll (items : List Expr) : ∀ next,
    Tree.sizeAll (buildAll measure layout items next).1 = Expr.listCountAll items := by
  induction items using Expr.items_induction with
  | nil => intro next; rfl
  | atom a rest ih =>
      intro next
      rw [Expr.listCountAll, Expr.listCount, Nat.zero_add]
      exact ih next
  | list inner rest ihInner ih =>
      intro next
      simp only [buildAll, Expr.isList, if_true, Tree.sizeAll, build_eq, ofItems, Tree.size,
        Expr.content, Expr.listCountAll, Expr.listCount, ihInner, ih]

/-! ## Identities -/

/-- The children of a node have identities in ascending order, all of them handed out while the
node is built. -/
theorem ids_buildAll (measure : TextMeasure K) (layout : LayoutSettings K)
    (items : List Expr) : ∀ next,
    let built := buildAll measure layout items next
    next.number ≤ built.2.number ∧
    (∀ d ∈ built.1, next.number ≤ d.value.id.number ∧ d.value.id.number < built.2.number) ∧
    built.1.Pairwise fun d d' => d.value.id.number < d'.value.id.number := by
  induction items using Expr.items_induction with
  | nil => intro next; exact ⟨Nat.le_refl _, nofun, .nil⟩
  | atom a rest ih => intro next; exact ih next
  | list inner rest ihInner ih =>
      intro next
      obtain ⟨hinner, _⟩ := ihInner next
      obtain ⟨hrest, hids, hascend⟩ := ih (build measure layout (.list inner) next).2
      -- the child takes the identity next to those below it, and the others come behind
      have hid : (build measure layout (.list inner) next).1.value.id =
          (buildAll measure layout inner next).2 := rfl
      have hnext : (build measure layout (.list inner) next).2.number =
          (buildAll measure layout inner next).2.number + 1 := rfl
      rw [hnext] at hrest hids
      simp only [buildAll, Expr.isList, if_true]
      refine ⟨by omega, ?_, ?_⟩
      · intro d hd
        rcases List.mem_cons.mp hd with rfl | hd
        · rw [hid]
          omega
        · have hbounds := hids d hd
          omega
      · refine List.pairwise_cons.mpr ⟨fun d hd => ?_, hascend⟩
        have hbounds := hids d hd
        rw [hid]
        omega

/-! ## Source texts -/

/-- What stands for a segment in a source text, given the texts of the children. -/
def segmentSource (texts : List (List Char)) : Segment K → List Char
  | .label text _ => text.toList
  | .link k => texts[k]?.getD []

omit [Scalar K] in
theorem bodySource_singleton (texts : List (List Char)) (s : Segment K) :
    bodySource texts [s] = segmentSource texts s ++ [')'] := by
  cases s <;> rfl

omit [Scalar K] in
theorem bodySource_cons_cons (texts : List (List Char)) (s s' : Segment K)
    (rest : List (Segment K)) : bodySource texts (s :: s' :: rest) =
      segmentSource texts s ++ ' ' :: bodySource texts (s' :: rest) := by
  cases s <;> rfl

omit [Scalar K] in
theorem bodySource_segments {texts : List (List Char)} (items : List Expr) : ∀ k,
    (∀ i, texts[k + i]? = ((items.filter Expr.isList).map fun e => e.unquoted.write)[i]?) →
      bodySource texts (segments measure k items) = Expr.writeItems (Expr.unquotedAll items) := by
  induction items with
  | nil => intro k _; rfl
  | cons e rest ih =>
      intro k htexts
      have hrest : bodySource texts (segments measure (if e.isList then k + 1 else k) rest) =
          Expr.writeItems (Expr.unquotedAll rest) := by
        refine ih _ fun i => ?_
        cases e with
        | atom a => exact htexts i
        | list inner =>
            exact (congrArg (texts[·]?) (Nat.add_right_comm k 1 i)).trans (htexts (i + 1))
      have hhead : segmentSource texts (segmentOf measure k e) = e.unquoted.write := by
        cases e with
        | atom a => exact (String.toList_ofList).trans (Expr.write_atom_unquoted a).symm
        | list inner => exact congrArg (Option.getD · []) (htexts 0)
      rw [segments_cons]
      cases rest with
      | nil => rw [segments, bodySource_singleton, hhead]; rfl
      | cons next rest =>
          rw [segments_cons] at hrest ⊢
          rw [bodySource_cons_cons, hhead, hrest]
          rfl

theorem sourceCharsAll_buildAll (measure : TextMeasure K) (layout : LayoutSettings K)
    (items : List Expr) : ∀ next,
    sourceCharsAll (buildAll measure layout items next).1 =
      (items.filter Expr.isList).map fun e => e.unquoted.write := by
  induction items using Expr.items_induction with
  | nil => intro next; rfl
  | atom a rest ih => intro next; exact ih next
  | list inner rest ihInner ih =>
      intro next
      have hhead : sourceChars (build measure layout (.list inner) next).1 =
          (Expr.list inner).unquoted.write := by
        rw [build_eq, ofItems, sourceChars, Expr.unquoted, Expr.write]
        exact congrArg _ (bodySource_segments inner 0 fun i => by
          rw [Nat.zero_add, ← ihInner next]
          rfl)
      rw [List.filter_cons_of_pos rfl, List.map_cons, ← hhead, ← ih]
      rfl

theorem source_build (e : Expr) (next : ObjectId) :
    (build measure layout e next).1.source = (Expr.list e.content).unquoted.render := by
  have htexts := sourceCharsAll_buildAll measure layout e.content next
  rw [source, build_eq, ofItems, sourceChars, Expr.render, Expr.unquoted, Expr.write,
    bodySource_segments e.content 0 fun i => by rw [Nat.zero_add, htexts]]

end Diagram

end SExprViewer
