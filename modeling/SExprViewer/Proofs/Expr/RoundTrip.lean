import SExprViewer.Expr.Printer
import SExprViewer.Proofs.Expr.Atoms
import SExprViewer.Proofs.Expr.Grammar
import SExprViewer.Proofs.Expr.Label

/-! # Reading what was written

Symbols that are words and no numerals, texts without one of the two quotes, and all numbers
are legible: written, they are read as one atom each.  A finite number is read as an equal
number, any other one as a symbol.  So a written list is read back as the same expression
just when its atoms are legible and its numbers finite, and the limit lets it nest
(`exists_parse_render_same_iff`). -/
set_option autoImplicit false

namespace SExprViewer

open SExprViewer.Expr

/-- The text of the atom is that of one atom. -/
def Atom.Legible : Atom → Prop
  | .symbol s => IsWord s.name.toList ∧ ∀ d, ¬ IsNumeral s.name.toList d
  | .number _ => True
  | .text s => ¬ ('"' ∈ s.toList ∧ '\'' ∈ s.toList)

/-- A number is finite. -/
def Atom.Finite : Atom → Prop
  | .number x => x.isFinite = true
  | _ => True

theorem Atom.Legible.of_same {x a : Atom} (hx : x.Legible) (h : x.same a = true) :
    a.Legible := by
  cases x <;> cases a <;> simp only [Atom.same, decide_eq_true_eq, Bool.false_eq_true] at h
  · exact h ▸ hx
  · trivial
  · exact h ▸ hx

namespace Expr

theorem legible_of_sameAll (xs : List Expr) : ∀ ys, sameAll xs ys = true →
    (∀ a ∈ atomsAll xs, a.Legible) → ∀ a ∈ atomsAll ys, a.Legible := by
  induction xs using items_induction with
  | nil =>
      intro ys h hx
      rw [sameAll_nil_iff.mp h]
      exact hx
  | atom x xs ih =>
      intro ys h hx
      obtain ⟨b, rest, rfl, hsame, hrest⟩ := exists_of_sameAll_atom h
      simp only [mem_atomsAll_atom, forall_eq_or_imp] at hx ⊢
      exact ⟨hx.1.of_same hsame, ih rest hrest hx.2⟩
  | list inner xs ihInner ih =>
      intro ys h hx
      obtain ⟨items, rest, rfl, hitems, hrest⟩ := exists_of_sameAll_list h
      simp only [mem_atomsAll_list, or_imp, forall_and] at hx ⊢
      exact ⟨ihInner items hitems hx.1, ih rest hrest hx.2⟩

/-! ## What is read is legible -/

theorem IsAtom.legible {a : List Char} {x : Atom} (ha : IsWord a) (hx : IsAtom a x) :
    x.Legible := by
  cases hx with
  | number hd => trivial
  | symbol hd =>
      simp only [Atom.Legible, String.toList_ofList]
      exact ⟨ha, hd⟩

theorem legible_text {t : List Char} {q : Char} (hq : isQuote q = true) (ht : q ∉ t) :
    (Atom.text (String.ofList t)).Legible := by
  simp only [Atom.Legible, String.toList_ofList]
  rintro ⟨hdouble, hsingle⟩
  rcases isQuote_eq hq with rfl | rfl
  · exact ht hdouble
  · exact ht hsingle

theorem IsItems.legible {body : List Char} {items : List Expr} (h : IsItems body items) :
    ∀ a ∈ atomsAll items, a.Legible := by
  induction h with
  | close hw => simp [atomsAll]
  | list hw hinner hrest ihInner ihRest =>
      simp only [mem_atomsAll_list, or_imp, forall_and]
      exact ⟨ihInner, ihRest⟩
  | text hw hq ht hrest ih =>
      simp only [mem_atomsAll_atom, forall_eq_or_imp]
      exact ⟨legible_text hq ht, ih⟩
  | word hw ha hx hend hrest ih =>
      simp only [mem_atomsAll_atom, forall_eq_or_imp]
      exact ⟨hx.legible ha, ih⟩

/-! ## What is legible is read -/

theorem IsItems.gap {gap body : List Char} {items : List Expr} (hgap : Blank gap)
    (h : IsItems body items) : IsItems (gap ++ body) items := by
  have hblank : ∀ {w : List Char}, Blank w → Blank (gap ++ w) := by
    intro w hw c hc
    exact (List.mem_append.mp hc).elim (hgap c) (hw c)
  cases h with
  | close hw =>
      rw [← List.append_assoc]
      exact IsItems.close (hblank hw)
  | list hw hinner hrest =>
      rw [← List.append_assoc]
      exact IsItems.list (hblank hw) hinner hrest
  | text hw hq ht hrest =>
      rw [← List.append_assoc]
      exact IsItems.text (hblank hw) hq ht hrest
  | word hw ha hx hend hrest =>
      rw [← List.append_assoc]
      exact IsItems.word (hblank hw) ha hx hend hrest

/-- A legible atom is read as one atom, which is the same if it is no infinite number. -/
theorem exists_isItems_write {a : Atom} (ha : a.Legible) : ∃ x : Atom,
    (x.same a = true ↔ a.Finite) ∧ ∀ rest items, EndsWord rest → IsItems rest items →
      IsItems (a.write ++ rest) (.atom x :: items) := by
  cases a with
  | symbol s =>
      refine ⟨.symbol s, by simp [Atom.same, Atom.Finite], ?_⟩
      intro rest items hend hrest
      have hatom := IsAtom.symbol ha.2
      rw [String.ofList_toList] at hatom
      exact IsItems.word blank_nil ha.1 hatom hend hrest
  | number x =>
      by_cases hx : x.isFinite = true
      · obtain ⟨d, hd, heq⟩ := exists_isNumeral_label hx
        refine ⟨.number d.toFloat, by simp [Atom.same, Atom.Finite, heq, hx], ?_⟩
        intro rest items hend hrest
        exact IsItems.word blank_nil hd.isWord (IsAtom.number hd) hend hrest
      · obtain ⟨hword, hnone⟩ := label_of_not_finite hx
        have hnumeral : ∀ d, ¬ IsNumeral (Atom.label (.number x)) d := by
          intro d hd
          rw [numeral?_eq_some_iff.mpr hd] at hnone
          cases hnone
        refine ⟨.symbol ⟨String.ofList (Atom.label (.number x))⟩,
          by simp [Atom.same, Atom.Finite, hx], ?_⟩
        intro rest items hend hrest
        exact IsItems.word blank_nil hword (IsAtom.symbol hnumeral) hend hrest
  | text s =>
      refine ⟨.text s, by simp [Atom.same, Atom.Finite], ?_⟩
      intro rest items _ hrest
      obtain ⟨q, hq, hmem, hwrite⟩ : ∃ q, isQuote q = true ∧ q ∉ s.toList ∧
          (Atom.text s).write = q :: (s.toList ++ [q]) := by
        by_cases hdouble : '"' ∈ s.toList
        · exact ⟨'\'', by decide, fun hsingle => ha ⟨hdouble, hsingle⟩, by
            simp [Atom.write, hdouble]⟩
        · exact ⟨'"', by decide, hdouble, by simp [Atom.write, hdouble]⟩
      have h := IsItems.text blank_nil hq hmem hrest
      rw [String.ofList_toList] at h
      rw [hwrite]
      simpa using h

/-- Behind a written item stands a gap that no word goes over. -/
theorem writeItems_cons (e : Expr) (rest : List Expr) : ∃ gap, Blank gap ∧
    writeItems (e :: rest) = e.write ++ (gap ++ writeItems rest) ∧
      EndsWord (gap ++ writeItems rest) := by
  cases rest with
  | nil => exact ⟨[], blank_nil, rfl, endsWord_of_not [] (by decide)⟩
  | cons next rest =>
      exact ⟨[' '], by simp [Blank, isWhite], rfl, endsWord_of_not _ (by decide)⟩

theorem exists_isItems_writeItems (items : List Expr) (h : ∀ a ∈ atomsAll items, a.Legible) :
    ∃ items', IsItems (writeItems items) items' ∧ depthAll items' = depthAll items ∧
      (sameAll items' items = true ↔ ∀ a ∈ atomsAll items, a.Finite) := by
  induction items using items_induction with
  | nil => exact ⟨[], IsItems.close blank_nil, rfl, by simp [sameAll, atomsAll]⟩
  | atom a rest ih =>
      simp only [mem_atomsAll_atom, forall_eq_or_imp] at h ⊢
      obtain ⟨rest', hrest, hdepth, hsame⟩ := ih h.2
      obtain ⟨x, hx, hread⟩ := exists_isItems_write h.1
      obtain ⟨gap, hgap, hwrite, hend⟩ := writeItems_cons (.atom a) rest
      refine ⟨.atom x :: rest', ?_, ?_, ?_⟩
      · rw [hwrite]
        exact hread _ _ hend (hrest.gap hgap)
      · simp only [depthAll, depth, hdepth]
      · simp only [sameAll, same, Bool.and_eq_true, hx, hsame]
  | list inner rest ihInner ih =>
      simp only [mem_atomsAll_list, or_imp, forall_and] at h ⊢
      obtain ⟨inner', hinner, hdepthInner, hsameInner⟩ := ihInner h.1
      obtain ⟨rest', hrest, hdepth, hsame⟩ := ih h.2
      obtain ⟨gap, hgap, hwrite, -⟩ := writeItems_cons (.list inner) rest
      refine ⟨.list inner' :: rest', ?_, ?_, ?_⟩
      · rw [hwrite]
        exact IsItems.list blank_nil hinner (hrest.gap hgap)
      · simp only [depthAll, depth, hdepth, hdepthInner]
      · simp only [sameAll, same, Bool.and_eq_true, hsameInner, hsame]

/-! ## Whole expressions -/

theorem parse_render {settings : ParseSettings} {items items' : List Expr}
    (h : IsItems (writeItems items) items')
    (hdepth : (Expr.list items').depth ≤ settings.maxDepth) :
    parse settings (Expr.list items).render = .ok (.list items') := by
  rw [parse_eq_ok_iff]
  refine ⟨[], readSource_eq_ok_iff.mpr ⟨[], (Expr.list items).write, ?_, blank_nil, ?_, hdepth⟩⟩
  · rw [render, String.toList_ofList, List.nil_append, List.append_nil]
  · exact ⟨writeItems items, items', rfl, rfl, h⟩

/-- Exactly which expressions are read back from what is written for them. -/
theorem exists_parse_render_same_iff (settings : ParseSettings) (e : Expr) :
    (∃ e', parse settings e.render = .ok e' ∧ e'.same e = true) ↔
      e.isList = true ∧ e.depth ≤ settings.maxDepth ∧
        ∀ a ∈ e.atoms, a.Legible ∧ a.Finite := by
  constructor
  · rintro ⟨e', hparse, hsame⟩
    obtain ⟨last, hread⟩ := parse_eq_ok_iff.mp hparse
    obtain ⟨w, l, -, -, ⟨body, read, -, rfl, hbody⟩, hlimit⟩ := readSource_eq_ok_iff.mp hread
    cases e with
    | atom a => cases hsame
    | list items =>
        have hsame' : sameAll read items = true := hsame
        have hlegible := legible_of_sameAll read items hsame' hbody.legible
        have hdepth := depthAll_eq_of_sameAll read items hsame'
        -- what the text is read as has the same numbers only when they are finite
        obtain ⟨items', hitems, hdepth', hfinite⟩ := exists_isItems_writeItems items hlegible
        have hread' : parse settings (Expr.list items).render = .ok (.list items') := by
          apply parse_render hitems
          simp only [depth] at hlimit ⊢
          omega
        rw [hparse] at hread'
        cases hread'
        refine ⟨rfl, ?_, fun a ha => ⟨hlegible a ha, hfinite.mp hsame' a ha⟩⟩
        simp only [depth] at hlimit ⊢
        omega
  · rintro ⟨hlist, hlimit, hatoms⟩
    cases e with
    | atom a => cases hlist
    | list items =>
        obtain ⟨items', hitems, hdepth, hfinite⟩ :=
          exists_isItems_writeItems items fun a ha => (hatoms a ha).1
        refine ⟨.list items', ?_, hfinite.mpr fun a ha => (hatoms a ha).2⟩
        apply parse_render hitems
        simp only [depth] at hlimit ⊢
        omega

end Expr

end SExprViewer
