import SExprViewer.Proofs.Expr.Word

/-! # The grammar of expressions

`IsList l e` says that the text `l` is a list and stands for `e`.  A list is an opening
parenthesis and its items up to the closing one; an item is a list, a text between two
equal quotes, or a word that the next character does not continue, and white space may
stand before an item and before the closing parenthesis.

`itemsFrom_of_isItems` and `isItems_of_itemsFrom` say that the reader takes exactly these
texts, as far as its limit lets lists nest.  Hence `parse_eq_ok_iff_isList`: a source is
accepted when it is white space, a list within the limit, and anything at all, and it is so
in one way only. -/
set_option autoImplicit false

namespace SExprViewer.Expr

/-- The items of a list, from behind its opening parenthesis to the closing one. -/
inductive IsItems : List Char → List Expr → Prop
  | close {w : List Char} (hw : Blank w) : IsItems (w ++ [')']) []
  | list {w inner rest : List Char} {es items : List Expr} (hw : Blank w)
      (hinner : IsItems inner es) (hrest : IsItems rest items) :
      IsItems (w ++ '(' :: (inner ++ rest)) (.list es :: items)
  | text {w t rest : List Char} {q : Char} {items : List Expr} (hw : Blank w)
      (hq : isQuote q = true) (ht : q ∉ t) (hrest : IsItems rest items) :
      IsItems (w ++ q :: (t ++ q :: rest)) (.atom (.text (String.ofList t)) :: items)
  | word {w a rest : List Char} {x : Atom} {items : List Expr} (hw : Blank w)
      (ha : IsWord a) (hx : IsAtom a x) (hend : EndsWord rest) (hrest : IsItems rest items) :
      IsItems (w ++ (a ++ rest)) (.atom x :: items)

def IsList (l : List Char) (e : Expr) : Prop :=
  ∃ body items, l = '(' :: body ∧ e = .list items ∧ IsItems body items

theorem IsItems.ne_nil {body : List Char} {items : List Expr} (h : IsItems body items) :
    body ≠ [] := by
  cases h with
  | word hw ha hx hend hrest => simp [ha.1]
  | _ => simp

theorem EndsWord.append {rest : List Char} (h : EndsWord rest) (hne : rest ≠ [])
    (last : List Char) : EndsWord (rest ++ last) := by
  cases rest with
  | nil => exact absurd rfl hne
  | cons c tail => exact h

/-! ## The reader takes what the grammar derives -/

theorem itemsFrom_of_isItems {limit : Nat} {body : List Char} {items : List Expr}
    (h : IsItems body items) : ∀ (depth : Nat) (last : List Char),
      depthAll items ≤ limit - depth →
        itemsFrom limit depth (body ++ last) = .ok (items, last) := by
  induction h with
  | close hw =>
      intro depth last _
      rw [List.append_assoc, List.singleton_append]
      exact itemsFrom_close hw
  | @list w inner rest es items hw _ _ ihInner ihRest =>
      intro depth last hd
      simp only [depthAll, Expr.depth] at hd
      have hopen : depth < limit := by omega
      have hread : itemsFrom limit (depth + 1) (inner ++ (rest ++ last)) = .ok (es, rest ++ last) :=
        ihInner (depth + 1) (rest ++ last) (by omega)
      have hnext : itemsFrom limit depth (rest ++ last) = .ok (items, last) :=
        ihRest depth last (by omega)
      simp only [List.append_assoc, List.cons_append]
      rw [itemsFrom_list hw hopen, hread]
      simp only [hnext, prepend]
  | @text w t rest q items hw hq ht _ ihRest =>
      intro depth last hd
      simp only [depthAll, Expr.depth] at hd
      have hnext : itemsFrom limit depth (rest ++ last) = .ok (items, last) :=
        ihRest depth last (by omega)
      simp only [List.append_assoc, List.cons_append]
      rw [itemsFrom_text hw hq ht, hnext]
      rfl
  | @word w a rest x items hw ha hx hend hrest ihRest =>
      intro depth last hd
      simp only [depthAll, Expr.depth] at hd
      have hnext : itemsFrom limit depth (rest ++ last) = .ok (items, last) :=
        ihRest depth last (by omega)
      simp only [List.append_assoc]
      rw [itemsFrom_word hw ha (hend.append hrest.ne_nil last), hnext, isAtom_iff.mp hx]
      rfl

/-! ## The grammar derives what the reader takes -/

theorem prepend_eq_ok {e : Expr} {items : List Expr} {last : List Char}
    {answer : Except Failure (List Expr × List Char)}
    (h : prepend e answer = .ok (items, last)) :
    ∃ rest, answer = .ok (rest, last) ∧ items = e :: rest := by
  cases answer with
  | error f => cases h
  | ok p =>
      obtain ⟨rest, last'⟩ := p
      cases h
      exact ⟨rest, rfl, rfl⟩

theorem isItems_of_itemsFrom (limit depth : Nat) (cs : List Char) :
    ∀ items last, itemsFrom limit depth cs = .ok (items, last) →
      ∃ body, cs = body ++ last ∧ IsItems body items ∧ depthAll items ≤ limit - depth := by
  induction depth, cs using itemsFrom_induction limit with
  | ended depth w hw =>
      intro items last h
      rw [itemsFrom_ended hw] at h
      cases h
  | close depth w rest hw =>
      intro items last h
      rw [itemsFrom_close hw] at h
      cases h
      exact ⟨w ++ [')'], by simp, IsItems.close hw, Nat.zero_le _⟩
  | tooDeep depth w rest hw hd =>
      intro items last h
      rw [itemsFrom_tooDeep hw hd] at h
      cases h
  | list depth w rest hw hd ihInner ihRest =>
      intro items last h
      rw [itemsFrom_list hw hd] at h
      cases hread : itemsFrom limit (depth + 1) rest with
      | error f => rw [hread] at h; cases h
      | ok p =>
          obtain ⟨es, next⟩ := p
          rw [hread] at h
          obtain ⟨others, hothers, rfl⟩ := prepend_eq_ok h
          obtain ⟨inner, rfl, hinner, hdInner⟩ := ihInner es next hread
          obtain ⟨body, rfl, hbody, hdRest⟩ := ihRest es next hread others last hothers
          refine ⟨w ++ '(' :: (inner ++ body), by simp, IsItems.list hw hinner hbody, ?_⟩
          simp only [depthAll, Expr.depth]
          omega
  | unterminated depth w q rest hw hq hrest =>
      intro items last h
      rw [itemsFrom_unterminated hw hq hrest] at h
      cases h
  | text depth w q t rest hw hq ht ih =>
      intro items last h
      rw [itemsFrom_text hw hq ht] at h
      obtain ⟨others, hothers, rfl⟩ := prepend_eq_ok h
      obtain ⟨body, rfl, hbody, hd⟩ := ih others last hothers
      refine ⟨w ++ q :: (t ++ q :: body), by simp, IsItems.text hw hq ht hbody, ?_⟩
      simp only [depthAll, Expr.depth]
      omega
  | word depth w a rest hw ha hend ih =>
      intro items last h
      rw [itemsFrom_word hw ha hend] at h
      obtain ⟨others, hothers, rfl⟩ := prepend_eq_ok h
      obtain ⟨body, rfl, hbody, hd⟩ := ih others last hothers
      have hend' : EndsWord body := by
        intro c hc
        cases body with
        | nil => cases hc
        | cons d tail => exact hend c hc
      refine ⟨w ++ (a ++ body), by simp, IsItems.word hw ha (isAtom_iff.mpr rfl) hend' hbody, ?_⟩
      simp only [depthAll, Expr.depth]
      omega

/-! ## Sources -/

theorem parse_eq_ok_iff {settings : ParseSettings} {source : String} {e : Expr} :
    parse settings source = .ok e ↔
      ∃ last, readSource settings.maxDepth source.toList = .ok (e, last) := by
  unfold parse
  cases readSource settings.maxDepth source.toList with
  | error f => simp
  | ok p => simp [Prod.ext_iff]

theorem readSource_eq_ok_iff {limit : Nat} {cs last : List Char} {e : Expr} :
    readSource limit cs = .ok (e, last) ↔
      ∃ w l, cs = w ++ l ++ last ∧ Blank w ∧ IsList l e ∧ e.depth ≤ limit := by
  constructor
  · intro h
    rcases source_cases cs with hw | ⟨w, rest, rfl, hw⟩ | ⟨w, c, rest, rfl, hw, hwhite, hopen⟩
    · rw [readSource_ended hw] at h
      cases h
    · rw [readSource_list hw] at h
      split at h
      · cases h
      · rename_i hlimit
        split at h
        · cases h
        · rename_i items last' hitems
          cases h
          obtain ⟨body, rfl, hbody, hd⟩ := isItems_of_itemsFrom limit 1 rest items last hitems
          refine ⟨w, '(' :: body, by simp, hw, ⟨body, items, rfl, rfl, hbody⟩, ?_⟩
          simp only [Expr.depth]
          omega
    · by_cases hq : isQuote c = true ∧ c ∉ rest
      · rw [readSource_unterminated hw hq.1 hq.2] at h
        cases h
      · rw [readSource_other hw hwhite hopen fun hc => by simpa [hc] using hq] at h
        cases h
  · rintro ⟨w, l, rfl, hw, ⟨body, items, rfl, rfl, hbody⟩, hd⟩
    simp only [Expr.depth] at hd
    rw [List.append_assoc, List.cons_append, readSource_list hw, if_neg (by omega),
      itemsFrom_of_isItems hbody 1 last (by omega)]

/-- A text begins with white space and a list in one way at most. -/
theorem IsList.split_unique {w l r w' l' r' : List Char} {e e' : Expr} (hw : Blank w)
    (hl : IsList l e) (hw' : Blank w') (hl' : IsList l' e')
    (h : w ++ l ++ r = w' ++ l' ++ r') : w = w' ∧ l = l' ∧ r = r' ∧ e = e' := by
  -- read with a limit that both lists keep, the text gives one answer
  have hread : readSource (max e.depth e'.depth) (w ++ l ++ r) = .ok (e, r) :=
    readSource_eq_ok_iff.mpr ⟨w, l, rfl, hw, hl, Nat.le_max_left ..⟩
  have hread' : readSource (max e.depth e'.depth) (w ++ l ++ r) = .ok (e', r') :=
    readSource_eq_ok_iff.mpr ⟨w', l', h, hw', hl', Nat.le_max_right ..⟩
  rw [hread] at hread'
  cases hread'
  have hfront : w ++ l = w' ++ l' := List.append_cancel_right h
  obtain ⟨body, items, rfl, rfl, _⟩ := hl
  obtain ⟨body', items', rfl, _, _⟩ := hl'
  have htake := congrArg (List.takeWhile isWhite) hfront
  rw [(takeWhile_dropWhile_append isWhite w ('(' :: body) hw (by simp [isWhite])).1,
    (takeWhile_dropWhile_append isWhite w' ('(' :: body') hw' (by simp [isWhite])).1] at htake
  subst htake
  exact ⟨rfl, List.append_cancel_left hfront, rfl, rfl⟩

/-- A source is accepted when it is white space, a list within the limit and anything at
all, and no source is so in two ways. -/
theorem parse_eq_ok_iff_isList (settings : ParseSettings) (source : String) :
    (∀ e, parse settings source = .ok e ↔
      ∃ w l r, source.toList = w ++ l ++ r ∧ Blank w ∧ IsList l e ∧
        e.depth ≤ settings.maxDepth) ∧
    (∀ w l r e w' l' r' e', source.toList = w ++ l ++ r → Blank w → IsList l e →
      source.toList = w' ++ l' ++ r' → Blank w' → IsList l' e' →
        w = w' ∧ l = l' ∧ r = r' ∧ e = e') := by
  constructor
  · intro e
    rw [parse_eq_ok_iff]
    constructor
    · rintro ⟨last, h⟩
      obtain ⟨w, l, hsource, hw, hl, hd⟩ := readSource_eq_ok_iff.mp h
      exact ⟨w, l, last, hsource, hw, hl, hd⟩
    · rintro ⟨w, l, r, hsource, hw, hl, hd⟩
      exact ⟨r, readSource_eq_ok_iff.mpr ⟨w, l, hsource, hw, hl, hd⟩⟩
  · intro w l r e w' l' r' e' hsource hw hl hsource' hw' hl'
    exact hl.split_unique hw hw' hl' (hsource.symm.trans hsource')

/-- Behind a tab a word that touches a text, and a character that is not read. -/
theorem parse_eq_ok_iff_isList_touching :
    parse ⟨1⟩ "\t(b')')d" = .ok (.list [.atom (.symbol ⟨"b"⟩), .atom (.text ")")]) ∧
      ∃ w l r, "\t(b')')d".toList = w ++ l ++ r ∧ Blank w ∧
        IsList l (.list [.atom (.symbol ⟨"b"⟩), .atom (.text ")")]) ∧
        w = ['\t'] ∧ l = ['(', 'b', '\'', ')', '\'', ')'] ∧ r = ['d'] := by
  have htab : Blank ['\t'] := by simp [Blank, isWhite]
  have htext : IsItems ['\'', ')', '\'', ')'] [.atom (.text ")")] :=
    @IsItems.text [] [')'] [')'] '\'' [] blank_nil (by decide) (by decide)
      (IsItems.close blank_nil)
  have hsymbol : ∀ d, ¬ IsNumeral ['b'] d := by
    intro d hd
    exact absurd (numeral?_eq_some_iff.mpr hd) (by simp [numeral?, splitNumeral?])
  have hword : IsItems ['b', '\'', ')', '\'', ')'] [.atom (.symbol ⟨"b"⟩), .atom (.text ")")] :=
    @IsItems.word [] ['b'] _ _ _ blank_nil (by simp [IsWord, isWordChar, isWhite, isQuote])
      (IsAtom.symbol hsymbol) (endsWord_of_not _ (by decide)) htext
  have hlist : IsList ['(', 'b', '\'', ')', '\'', ')']
      (.list [.atom (.symbol ⟨"b"⟩), .atom (.text ")")]) := ⟨_, _, rfl, rfl, hword⟩
  obtain ⟨haccept, hunique⟩ := parse_eq_ok_iff_isList ⟨1⟩ "\t(b')')d"
  have hparse := (haccept _).mpr ⟨['\t'], _, ['d'], rfl, htab, hlist, by decide⟩
  obtain ⟨w, l, r, hsource, hw, hl, -⟩ := (haccept _).mp hparse
  obtain ⟨rfl, rfl, rfl, -⟩ := hunique w l r _ ['\t'] _ ['d'] _ hsource hw hl rfl htab hlist
  exact ⟨hparse, _, _, _, hsource, hw, hl, rfl, rfl, rfl⟩

end SExprViewer.Expr
