import SExprViewer.Proofs.Expr.Faults
import SExprViewer.Proofs.Expr.Grammar

/-! # Sources that go on

What a further text changes.  An accepted source stays accepted, and a source that misses
its list or nests too deep stays refused at the same place.  One that ends too early, or
inside a quoted text of a list, can be completed: the quote is closed, and then every open
list (`exists_faultFrom_append_eq_none`). -/
set_option autoImplicit false

namespace SExprViewer.Expr

/-! ## The scan of a longer text -/

theorem drop_idxOf_append {q : Char} {cs : List Char} (hq : q ∈ cs) (more : List Char) :
    (cs ++ more).idxOf q = cs.idxOf q ∧
      (cs ++ more).drop (cs.idxOf q + 1) = cs.drop (cs.idxOf q + 1) ++ more := by
  have hlt := List.idxOf_lt_length_of_mem hq
  refine ⟨?_, List.drop_append_of_le_length hlt⟩
  rw [List.idxOf_append, if_pos hq]

theorem faultFrom_append_quote {limit opened offset : Nat} {q : Char} {cs : List Char}
    (hq : isQuote q = true) (hmem : q ∈ cs) (more : List Char) :
    faultFrom limit (opened + 1) offset (q :: (cs ++ more)) =
      faultFrom limit (opened + 1) (offset + cs.idxOf q + 2)
        (cs.drop (cs.idxOf q + 1) ++ more) := by
  obtain ⟨hidx, hdrop⟩ := drop_idxOf_append hmem more
  rw [faultFrom_quote hq, if_pos (List.mem_append_left more hmem), hidx, hdrop]

/-- A list that opens too deep is found whatever comes behind it. -/
theorem faultFrom_append_tooDeep {limit n place : Nat} (more : List Char) (opened offset : Nat)
    (cs : List Char) (h : faultFrom limit opened offset cs = some (.tooDeep n, place)) :
    faultFrom limit opened offset (cs ++ more) = some (.tooDeep n, place) := by
  fun_induction faultFrom limit opened offset cs with
  | case1 => cases h
  | case2 => cases h
  | case3 opened offset rest hd => rw [List.cons_append, faultFrom_open, if_pos hd, h]
  | case4 opened offset rest hd ih => rw [List.cons_append, faultFrom_open, if_neg hd, ih h]
  | case5 opened offset rest _ ih => rw [List.cons_append, faultFrom_close, ih h]
  | case6 opened offset c rest _ _ hq hmem ih =>
      rw [List.cons_append, faultFrom_append_quote hq hmem, ih h]
  | case7 => cases h
  | case8 opened offset c rest hopen hclose hq ih =>
      rw [List.cons_append, faultFrom_other hopen hclose (by simpa using hq), ih h]

theorem faultFrom_closers (limit : Nat) : ∀ opened offset,
    faultFrom limit opened offset (List.replicate opened ')') = none := by
  intro opened
  induction opened with
  | zero => intro offset; rw [faultFrom]
  | succ opened ih => intro offset; rw [List.replicate_succ, faultFrom_close, ih]

/-- A scan that ends too early, or inside a quoted text, is completed by some text. -/
theorem exists_faultFrom_append_eq_none {limit place : Nat} {fault : SyntaxFault}
    (hfault : (∃ c, fault = .unexpectedEnd c) ∨ ∃ q, fault = .unterminated q)
    (opened offset : Nat) (cs : List Char)
    (h : faultFrom limit opened offset cs = some (fault, place)) :
    ∃ more, faultFrom limit opened offset (cs ++ more) = none := by
  fun_induction faultFrom limit opened offset cs with
  | case1 => cases h
  | case2 opened offset => exact ⟨_, faultFrom_closers limit (opened + 1) offset⟩
  | case3 opened offset rest hd =>
      cases h
      rcases hfault with ⟨_, hc⟩ | ⟨_, hq⟩
      · cases hc
      · cases hq
  | case4 opened offset rest hd ih =>
      obtain ⟨more, hmore⟩ := ih h
      exact ⟨more, by rw [List.cons_append, faultFrom_open, if_neg hd, hmore]⟩
  | case5 opened offset rest _ ih =>
      obtain ⟨more, hmore⟩ := ih h
      exact ⟨more, by rw [List.cons_append, faultFrom_close, hmore]⟩
  | case6 opened offset c rest _ _ hq hmem ih =>
      obtain ⟨more, hmore⟩ := ih h
      exact ⟨more, by rw [List.cons_append, faultFrom_append_quote hq hmem, hmore]⟩
  | case7 opened offset c rest _ _ hq hmem =>
      refine ⟨c :: List.replicate (opened + 1) ')', ?_⟩
      rw [List.cons_append, faultFrom_text hq hmem]
      exact faultFrom_closers limit (opened + 1) _
  | case8 opened offset c rest hopen hclose hq ih =>
      obtain ⟨more, hmore⟩ := ih h
      exact ⟨more, by
        rw [List.cons_append, faultFrom_other hopen hclose (by simpa using hq), hmore]⟩

/-! ## Longer sources -/

theorem firstFault_eq_none_iff {limit : Nat} {source : List Char} :
    firstFault limit source = none ↔ ∃ answer, readSource limit source = .ok answer := by
  rw [firstFault_eq]
  cases readSource limit source <;> simp

theorem firstFault_offset_le {limit place : Nat} {source : List Char} {fault : SyntaxFault}
    (h : firstFault limit source = some (fault, place)) : place ≤ source.length := by
  rw [firstFault_eq] at h
  cases hread : readSource limit source with
  | error f =>
      rw [hread] at h
      cases h
      exact Nat.sub_le ..
  | ok p => rw [hread] at h; cases h

/-- A source without a list, or with one that nests too deep, has the same fault when it
goes on. -/
theorem firstFault_append {limit place : Nat} {source : List Char} {fault : SyntaxFault}
    (more : List Char) (hfault : fault = .expectedList ∨ ∃ n, fault = .tooDeep n)
    (h : firstFault limit source = some (fault, place)) :
    firstFault limit (source ++ more) = some (fault, place) := by
  rcases source_cases source with hw | ⟨w, rest, rfl, hw⟩ | ⟨w, c, rest, rfl, hw, hwhite, hopen⟩
  · rw [firstFault_blank hw] at h
    cases h
    rcases hfault with hf | ⟨_, hf⟩ <;> cases hf
  · rw [firstFault_behind hw (by decide), if_pos rfl] at h
    rw [List.append_assoc, List.cons_append, firstFault_behind hw (by decide), if_pos rfl]
    split at h
    · rename_i hlimit
      rw [if_pos hlimit, h]
    · rename_i hlimit
      rw [if_neg hlimit]
      rcases hfault with rfl | ⟨n, rfl⟩
      · exact absurd h (faultFrom_ne_expectedList limit 1 _ rest place)
      · exact faultFrom_append_tooDeep more 1 _ rest h
  · rw [firstFault_behind hw hwhite, if_neg hopen] at h
    rw [List.append_assoc, List.cons_append, firstFault_behind hw hwhite, if_neg hopen]
    split at h
    · cases h
      rcases hfault with hf | ⟨_, hf⟩ <;> cases hf
    · rename_i hq
      -- the quote that closes the text is still there
      have hq' : ¬ (isQuote c = true ∧ c ∉ rest ++ more) :=
        fun ⟨hquote, hmem⟩ => hq ⟨hquote, fun hm => hmem (List.mem_append_left more hm)⟩
      rw [if_neg hq', h]

theorem readSource_append {limit : Nat} {source last : List Char} {e : Expr} (more : List Char)
    (h : readSource limit source = .ok (e, last)) :
    readSource limit (source ++ more) = .ok (e, last ++ more) := by
  obtain ⟨w, l, rfl, hw, hl, hd⟩ := readSource_eq_ok_iff.mp h
  exact readSource_eq_ok_iff.mpr ⟨w, l, by simp, hw, hl, hd⟩

/-- Some text completes a source that ends before its list does. -/
theorem exists_readSource_append {limit place : Nat} {source : List Char} {fault : SyntaxFault}
    (hlimit : 1 ≤ limit)
    (hfault : (∃ c, fault = .unexpectedEnd c) ∨
      (∃ q, fault = .unterminated q) ∧ (skipWhite source).head? = some '(')
    (h : firstFault limit source = some (fault, place)) :
    ∃ more answer, readSource limit (source ++ more) = .ok answer := by
  rcases source_cases source with hw | ⟨w, rest, rfl, hw⟩ | ⟨w, c, rest, rfl, hw, hwhite, hopen⟩
  · have hclosed : itemsFrom limit 1 [')'] = .ok ([], []) :=
      @itemsFrom_close limit 1 [] [] blank_nil
    refine ⟨['(', ')'], (.list [], []), ?_⟩
    rw [readSource_list hw, if_neg (by omega), hclosed]
  · rw [firstFault_behind hw (by decide), if_pos rfl, if_neg (by omega)] at h
    have hfault' : (∃ c, fault = .unexpectedEnd c) ∨ ∃ q, fault = .unterminated q :=
      hfault.imp_right And.left
    obtain ⟨more, hmore⟩ := exists_faultFrom_append_eq_none hfault' 1 _ rest h
    refine ⟨more, firstFault_eq_none_iff.mp ?_⟩
    rw [List.append_assoc, List.cons_append, firstFault_behind hw (by decide), if_pos rfl,
      if_neg (by omega), hmore]
  · rw [skipWhite_append hw (by simpa using hwhite)] at hfault
    rw [firstFault_behind hw hwhite, if_neg hopen] at h
    rcases hfault with ⟨_, rfl⟩ | ⟨_, hhead⟩
    · split at h <;> cases h
    · exact absurd (Option.some.inj hhead) hopen

theorem head?_skipWhite_of_readSource {limit : Nat} {source : List Char}
    {answer : Expr × List Char} (h : readSource limit source = .ok answer) :
    (skipWhite source).head? = some '(' := by
  obtain ⟨w, _, rfl, hw, ⟨body, _, rfl, _, _⟩, _⟩ := readSource_eq_ok_iff.mp h
  rw [List.append_assoc, List.cons_append, skipWhite_append hw (by simp [isWhite])]
  rfl

theorem head?_skipWhite_append {source : List Char} {c : Char} (more : List Char)
    (h : (skipWhite source).head? = some c) : (skipWhite (source ++ more)).head? = some c := by
  obtain ⟨w, rest, rfl, hw, hrest⟩ := exists_run isWhite source
  rw [skipWhite_append hw hrest] at h
  cases rest with
  | nil => cases h
  | cons d tail =>
      rw [List.append_assoc, List.cons_append, skipWhite_append hw (by simpa using hrest)]
      exact h

/-! ## Answers -/

/-- The answers that no further text changes. -/
def Settled : Except SyntaxError Expr → Prop
  | .ok _ => True
  | .error e => e.fault = .expectedList ∨ ∃ limit, e.fault = .tooDeep limit

/-- The answers that some further text turns into acceptance: a quote that is not closed is
one of them when it stands in a list, which then is what the source begins with. -/
def Completable (source : String) : Except SyntaxError Expr → Prop
  | .ok _ => True
  | .error e => (∃ c, e.fault = .unexpectedEnd c) ∨
      (∃ q, e.fault = .unterminated q) ∧ (skipWhite source.toList).head? = some '('

theorem parse_append_of_settled {settings : ParseSettings} {source : String}
    (h : Settled (parse settings source)) (more : String) :
    parse settings (source ++ more) = parse settings source := by
  cases hparse : parse settings source with
  | ok e =>
      obtain ⟨last, hread⟩ := parse_eq_ok_iff.mp hparse
      refine parse_eq_ok_iff.mpr ⟨last ++ more.toList, ?_⟩
      rw [String.toList_append]
      exact readSource_append more.toList hread
  | error err =>
      rw [hparse] at h
      obtain ⟨place, hfault, hposition⟩ := parse_eq_error_iff.mp hparse
      refine parse_eq_error_iff.mpr ⟨place, ?_, ?_⟩
      · rw [String.toList_append]
        exact firstFault_append more.toList h hfault
      · rw [String.toList_append, List.take_append_of_le_length (firstFault_offset_le hfault)]
        exact hposition

theorem completable_of_parse_append {settings : ParseSettings} {source more : String} {e : Expr}
    (h : parse settings (source ++ more) = .ok e) :
    Completable source (parse settings source) := by
  have hunsettled : ∀ err, parse settings source = .error err →
      ¬ Settled (parse settings source) := by
    intro err hparse hsettled
    rw [parse_append_of_settled hsettled, hparse] at h
    cases h
  cases hparse : parse settings source with
  | ok _ => trivial
  | error err =>
      have hopen := hunsettled err hparse
      rw [hparse] at hopen
      obtain ⟨fault, position⟩ := err
      cases fault with
      | unexpectedEnd c => exact Or.inl ⟨c, rfl⟩
      | expectedList => exact absurd (Or.inl rfl) hopen
      | tooDeep limit => exact absurd (Or.inr ⟨limit, rfl⟩) hopen
      | unterminated q =>
          refine Or.inr ⟨⟨q, rfl⟩, ?_⟩
          -- what is not white in the source is also the first such character of the longer one
          obtain ⟨last, hread⟩ := parse_eq_ok_iff.mp h
          have hhead := head?_skipWhite_of_readSource hread
          rw [String.toList_append] at hhead
          cases hfront : (skipWhite source.toList).head? with
          | some c =>
              rw [head?_skipWhite_append more.toList hfront] at hhead
              exact hhead
          | none =>
              obtain ⟨place, hfault, _⟩ := parse_eq_error_iff.mp hparse
              have hblank : skipWhite source.toList = [] := List.head?_eq_none_iff.mp hfront
              rw [firstFault_eq, readSource, hblank] at hfault
              cases hfault

/-- Acceptance, a missing list and too deep a list are final.  Acceptance can be reached
from a source that is accepted, ends too early, or ends in a quoted text of its list, and
from no other. -/
theorem parse_append_iff (settings : ParseSettings) (hlimit : 1 ≤ settings.maxDepth)
    (source : String) :
    (∀ more, Settled (parse settings source) →
      parse settings (source ++ more) = parse settings source) ∧
    ((∃ more e, parse settings (source ++ more) = .ok e) ↔
      Completable source (parse settings source)) := by
  refine ⟨fun more h => parse_append_of_settled h more, ?_, ?_⟩
  · rintro ⟨more, e, h⟩
    exact completable_of_parse_append h
  · intro h
    cases hparse : parse settings source with
    | ok e => exact ⟨"", e, by rw [String.append_empty, hparse]⟩
    | error err =>
        rw [hparse] at h
        obtain ⟨place, hfault, _⟩ := parse_eq_error_iff.mp hparse
        obtain ⟨more, ⟨e, last⟩, hread⟩ := exists_readSource_append hlimit h hfault
        refine ⟨String.ofList more, e, parse_eq_ok_iff.mpr ⟨last, ?_⟩⟩
        rw [String.toList_append, String.toList_ofList]
        exact hread

/-- A quoted text in a list can be closed, and behind a closed list anything may stand. -/
theorem parse_append_iff_open_text :
    1 ≤ (⟨1⟩ : ParseSettings).maxDepth ∧ Settled (parse ⟨1⟩ " ( 'b')") ∧
      parse ⟨1⟩ (" ( 'b')" ++ "(\"") = parse ⟨1⟩ " ( 'b')" ∧
      ∃ more e, parse ⟨1⟩ (" ( 'b" ++ more) = .ok e := by
  have hspace : Blank [' '] := by simp [Blank, isWhite]
  have hclosed : Settled (parse ⟨1⟩ " ( 'b')") := by
    have htext : IsItems [' ', '\'', 'b', '\'', ')'] [.atom (.text "b")] :=
      @IsItems.text [' '] ['b'] [')'] '\'' [] hspace (by decide) (by decide)
        (IsItems.close blank_nil)
    have h : parse ⟨1⟩ " ( 'b')" = .ok (.list [.atom (.text "b")]) :=
      parse_eq_ok_iff.mpr ⟨[], readSource_eq_ok_iff.mpr
        ⟨[' '], '(' :: [' ', '\'', 'b', '\'', ')'], rfl, hspace, ⟨_, _, rfl, rfl, htext⟩,
          by decide⟩⟩
    rw [h]
    trivial
  have hopen : Completable " ( 'b" (parse ⟨1⟩ " ( 'b") := by
    have h : parse ⟨1⟩ " ( 'b" = .error ⟨.unterminated '\'', ⟨1, 4⟩⟩ :=
      parse_eq_error_iff.mpr ⟨3, by decide +kernel, by decide⟩
    rw [h]
    exact Or.inr ⟨⟨'\'', rfl⟩, by decide⟩
  exact ⟨by decide, hclosed, (parse_append_iff ⟨1⟩ (by decide) " ( 'b')").1 "(\"" hclosed,
    (parse_append_iff ⟨1⟩ (by decide) " ( 'b").2.mpr hopen⟩

end SExprViewer.Expr
