import SExprViewer.Expr.Parser

/-! # How a text goes on inside a list

Behind white space a text ends, closes or opens a list, holds a quote that never comes
again, a quoted text, or a word.  `itemsFrom` is the reader of items without the bound on
what it leaves; it has one equation for each of these ways, and `itemsFrom_induction` is
induction along its calls. -/
set_option autoImplicit false

namespace SExprViewer.Expr

/-- White space and nothing else. -/
def Blank (w : List Char) : Prop := ∀ c ∈ w, isWhite c = true

/-- A run of word characters that is not empty. -/
def IsWord (a : List Char) : Prop := a ≠ [] ∧ ∀ c ∈ a, isWordChar c = true

/-- No word goes on at the front. -/
def EndsWord (rest : List Char) : Prop := ∀ c ∈ rest.head?, isWordChar c = false

theorem blank_nil : Blank [] := by
  intro c hc
  cases hc

/-! ## Longest runs -/

theorem takeWhile_dropWhile_append (p : Char → Bool) (run rest : List Char)
    (hrun : ∀ c ∈ run, p c = true) (hrest : ∀ c ∈ rest.head?, p c = false) :
    (run ++ rest).takeWhile p = run ∧ (run ++ rest).dropWhile p = rest := by
  rw [List.takeWhile_append_of_pos hrun, List.dropWhile_append_of_pos hrun]
  cases rest with
  | nil => simp
  | cons c tail =>
      have hc : p c = false := hrest c rfl
      simp [hc]

theorem exists_run (p : Char → Bool) (cs : List Char) :
    ∃ run rest, cs = run ++ rest ∧ (∀ c ∈ run, p c = true) ∧ ∀ c ∈ rest.head?, p c = false := by
  refine ⟨cs.takeWhile p, cs.dropWhile p, List.takeWhile_append_dropWhile.symm, ?_, ?_⟩
  · exact List.all_eq_true.mp List.all_takeWhile
  · intro c hc
    have h := List.head?_dropWhile_not p cs
    rw [Option.mem_def.mp hc] at h
    simpa using h

theorem skipWhite_append {w rest : List Char} (hw : Blank w)
    (hrest : ∀ c ∈ rest.head?, isWhite c = false) : skipWhite (w ++ rest) = rest :=
  (takeWhile_dropWhile_append isWhite w rest hw hrest).2

theorem skipWhite_blank {w : List Char} (hw : Blank w) : skipWhite w = [] := by
  have h := @skipWhite_append w [] hw (by simp)
  rwa [List.append_nil] at h

theorem readWord_append {a rest : List Char} (ha : IsWord a) (hrest : EndsWord rest) :
    readWord (a ++ rest) = (a, rest) := by
  obtain ⟨htake, hdrop⟩ := takeWhile_dropWhile_append isWordChar a rest ha.2 hrest
  rw [readWord, htake, hdrop]

theorem bne_of_not_mem {q : Char} {t : List Char} (hq : q ∉ t) : ∀ c ∈ t, (c != q) = true := by
  intro c hc
  have hne : c ≠ q := fun e => hq (e ▸ hc)
  simpa using hne

theorem readText?_append {q : Char} {t rest : List Char} (hq : q ∉ t) :
    readText? q (t ++ q :: rest) = some (t, rest) := by
  obtain ⟨htake, hdrop⟩ :=
    takeWhile_dropWhile_append (· != q) t (q :: rest) (bne_of_not_mem hq) (by simp)
  rw [readText?, hdrop, htake]

theorem readText?_none {q : Char} {rest : List Char} (hq : q ∉ rest) :
    readText? q rest = none := by
  obtain ⟨_, hdrop⟩ := takeWhile_dropWhile_append (· != q) rest [] (bne_of_not_mem hq) (by simp)
  rw [List.append_nil] at hdrop
  rw [readText?, hdrop]

/-- A character that comes at all comes a first time. -/
theorem exists_first {q : Char} {cs : List Char} (h : q ∈ cs) :
    ∃ t rest, cs = t ++ q :: rest ∧ q ∉ t := by
  obtain ⟨t, rest, hcs, hrun, hrest⟩ := exists_run (· != q) cs
  have hq : q ∉ t := by
    intro hm
    simpa using hrun q hm
  cases rest with
  | nil =>
      rw [hcs, List.append_nil] at h
      exact absurd h hq
  | cons c tail =>
      have hc : c = q := by simpa using hrest c rfl
      exact ⟨t, tail, hc ▸ hcs, hq⟩

/-! ## Kinds of characters -/

theorem isQuote_eq {q : Char} (h : isQuote q = true) : q = '"' ∨ q = '\'' := by
  simpa [isQuote] using h

theorem isQuote_facts {q : Char} (h : isQuote q = true) :
    q ≠ ')' ∧ q ≠ '(' ∧ isWhite q = false ∧ isWordChar q = false := by
  rcases isQuote_eq h with rfl | rfl <;> decide

theorem isWordChar_iff (c : Char) : isWordChar c = true ↔
    isWhite c = false ∧ c ≠ '(' ∧ c ≠ ')' ∧ isQuote c = false := by
  simp [isWordChar, and_assoc]

theorem endsWord_of_not {c : Char} (rest : List Char) (h : isWordChar c = false) :
    EndsWord (c :: rest) := by
  intro d hd
  cases Option.mem_some.mp hd
  exact h

theorem IsWord.exists_cons {a : List Char} (ha : IsWord a) :
    ∃ c tail, a = c :: tail ∧ isWordChar c = true := by
  obtain ⟨hne, hall⟩ := ha
  cases a with
  | nil => exact absurd rfl hne
  | cons c tail => exact ⟨c, tail, rfl, hall c (List.mem_cons_self ..)⟩

/-! ## The reader of items -/

/-- The answer of `readItems`, the rest as a plain text. -/
def itemsFrom (limit depth : Nat) (cs : List Char) : Except Failure (List Expr × List Char) :=
  match readItems limit depth cs with
  | .error f => .error f
  | .ok (items, rest) => .ok (items, rest.1)

def prepend (e : Expr) :
    Except Failure (List Expr × List Char) → Except Failure (List Expr × List Char)
  | .error f => .error f
  | .ok (items, rest) => .ok (e :: items, rest)

theorem itemsFrom_shorter {limit depth : Nat} {cs rest : List Char} {items : List Expr}
    (h : itemsFrom limit depth cs = .ok (items, rest)) : rest.length < cs.length := by
  unfold itemsFrom at h
  split at h
  · cases h
  · rename_i items' rest' _
    cases h
    exact rest'.2

theorem itemsFrom_eq (limit depth : Nat) (cs : List Char) :
    itemsFrom limit depth cs = match skipWhite cs with
      | [] => .error ⟨.unexpectedEnd ')', 0⟩
      | c :: tail =>
        if c = ')' then .ok ([], tail)
        else if c = '(' then
          if limit ≤ depth then .error ⟨.tooDeep limit, tail.length + 1⟩
          else
            match itemsFrom limit (depth + 1) tail with
            | .error f => .error f
            | .ok (inner, rest) => prepend (.list inner) (itemsFrom limit depth rest)
        else if isQuote c then
          match readText? c tail with
          | none => .error ⟨.unterminated c, tail.length + 1⟩
          | some (text, rest) =>
            prepend (.atom (.text (String.ofList text))) (itemsFrom limit depth rest)
        else if isWordChar c then
          prepend (.atom (atomOfWord (readWord (c :: tail)).1))
            (itemsFrom limit depth (readWord (c :: tail)).2)
        else .error ⟨.expectedList, tail.length + 1⟩ := by
  unfold itemsFrom
  fun_cases readItems limit depth cs <;> simp_all [prepend, Nat.not_le_of_lt]

section Equations
variable {limit depth : Nat} {w rest : List Char}

theorem itemsFrom_ended (hw : Blank w) :
    itemsFrom limit depth w = .error ⟨.unexpectedEnd ')', 0⟩ := by
  rw [itemsFrom_eq, skipWhite_blank hw]

theorem itemsFrom_close (hw : Blank w) :
    itemsFrom limit depth (w ++ ')' :: rest) = .ok ([], rest) := by
  rw [itemsFrom_eq, skipWhite_append hw (by simp [isWhite])]
  simp

theorem itemsFrom_tooDeep (hw : Blank w) (hd : limit ≤ depth) :
    itemsFrom limit depth (w ++ '(' :: rest) = .error ⟨.tooDeep limit, rest.length + 1⟩ := by
  rw [itemsFrom_eq, skipWhite_append hw (by simp [isWhite])]
  simp [hd]

theorem itemsFrom_list (hw : Blank w) (hd : depth < limit) :
    itemsFrom limit depth (w ++ '(' :: rest) =
      match itemsFrom limit (depth + 1) rest with
      | .error f => .error f
      | .ok (inner, last) => prepend (.list inner) (itemsFrom limit depth last) := by
  rw [itemsFrom_eq, skipWhite_append hw (by simp [isWhite])]
  simp [Nat.not_le_of_lt hd]

theorem itemsFrom_unterminated {q : Char} (hw : Blank w) (hq : isQuote q = true)
    (hrest : q ∉ rest) :
    itemsFrom limit depth (w ++ q :: rest) = .error ⟨.unterminated q, rest.length + 1⟩ := by
  obtain ⟨hclose, hopen, hwhite, _⟩ := isQuote_facts hq
  rw [itemsFrom_eq, skipWhite_append hw (by simpa using hwhite)]
  simp [hclose, hopen, hq, readText?_none hrest]

theorem itemsFrom_text {q : Char} {t : List Char} (hw : Blank w) (hq : isQuote q = true)
    (ht : q ∉ t) :
    itemsFrom limit depth (w ++ q :: (t ++ q :: rest)) =
      prepend (.atom (.text (String.ofList t))) (itemsFrom limit depth rest) := by
  obtain ⟨hclose, hopen, hwhite, _⟩ := isQuote_facts hq
  rw [itemsFrom_eq, skipWhite_append hw (by simpa using hwhite)]
  simp [hclose, hopen, hq, readText?_append ht]

theorem itemsFrom_word {a : List Char} (hw : Blank w) (ha : IsWord a) (hrest : EndsWord rest) :
    itemsFrom limit depth (w ++ (a ++ rest)) =
      prepend (.atom (atomOfWord a)) (itemsFrom limit depth rest) := by
  have hread := readWord_append ha hrest
  obtain ⟨c, tail, rfl, hc⟩ := ha.exists_cons
  obtain ⟨hwhite, hopen, hclose, hquote⟩ := (isWordChar_iff c).mp hc
  rw [itemsFrom_eq, skipWhite_append hw (by simpa using hwhite)]
  rw [List.cons_append] at hread ⊢
  simp [hclose, hopen, hquote, hc, hread]

end Equations

/-- Induction along the calls of the reader of items. -/
theorem itemsFrom_induction (limit : Nat) {motive : Nat → List Char → Prop}
    (ended : ∀ depth w, Blank w → motive depth w)
    (close : ∀ depth w rest, Blank w → motive depth (w ++ ')' :: rest))
    (tooDeep : ∀ depth w rest, Blank w → limit ≤ depth → motive depth (w ++ '(' :: rest))
    (list : ∀ depth w rest, Blank w → depth < limit → motive (depth + 1) rest →
      (∀ inner last, itemsFrom limit (depth + 1) rest = .ok (inner, last) →
        motive depth last) → motive depth (w ++ '(' :: rest))
    (unterminated : ∀ depth w q rest, Blank w → isQuote q = true → q ∉ rest →
      motive depth (w ++ q :: rest))
    (text : ∀ depth w q t rest, Blank w → isQuote q = true → q ∉ t → motive depth rest →
      motive depth (w ++ q :: (t ++ q :: rest)))
    (word : ∀ depth w a rest, Blank w → IsWord a → EndsWord rest → motive depth rest →
      motive depth (w ++ (a ++ rest))) :
    ∀ depth cs, motive depth cs := by
  intro depth cs
  induction hlen : cs.length using Nat.strongRecOn generalizing depth cs with
  | _ n ih =>
      subst hlen
      obtain ⟨w, r, rfl, hw, hr⟩ := exists_run isWhite cs
      cases r with
      | nil =>
          rw [List.append_nil]
          exact ended depth w hw
      | cons c tail =>
          by_cases hclose : c = ')'
          · subst hclose
            exact close depth w tail hw
          by_cases hopen : c = '('
          · subst hopen
            by_cases hd : depth < limit
            · refine list depth w tail hw hd (ih tail.length (by simp; omega) _ tail rfl) ?_
              intro inner last hinner
              have hlast := itemsFrom_shorter hinner
              exact ih last.length (by simp; omega) depth last rfl
            · exact tooDeep depth w tail hw (Nat.le_of_not_lt hd)
          by_cases hquote : isQuote c = true
          · by_cases hmem : c ∈ tail
            · obtain ⟨t, rest, rfl, ht⟩ := exists_first hmem
              exact text depth w c t rest hw hquote ht
                (ih rest.length (by simp; omega) depth rest rfl)
            · exact unterminated depth w c tail hw hquote hmem
          · have hword : isWordChar c = true := (isWordChar_iff c).mpr
              ⟨hr c rfl, hopen, hclose, by simpa using hquote⟩
            obtain ⟨a, rest, htail, ha, hrest⟩ := exists_run isWordChar tail
            have hc : IsWord (c :: a) :=
              ⟨List.cons_ne_nil c a, List.forall_mem_cons.mpr ⟨hword, ha⟩⟩
            subst htail
            exact word depth w (c :: a) rest hw hc hrest
              (ih rest.length (by simp; omega) depth rest rfl)

/-! ## The reader of sources -/

section Sources
variable {limit : Nat} {w rest : List Char}

theorem source_cases (cs : List Char) : Blank cs ∨
    (∃ w rest, cs = w ++ '(' :: rest ∧ Blank w) ∨
    ∃ w c rest, cs = w ++ c :: rest ∧ Blank w ∧ isWhite c = false ∧ c ≠ '(' := by
  obtain ⟨w, r, rfl, hw, hr⟩ := exists_run isWhite cs
  cases r with
  | nil =>
      rw [List.append_nil]
      exact Or.inl hw
  | cons c tail =>
      by_cases hopen : c = '('
      · exact Or.inr (Or.inl ⟨w, tail, hopen ▸ rfl, hw⟩)
      · exact Or.inr (Or.inr ⟨w, c, tail, rfl, hw, hr c rfl, hopen⟩)

theorem readSource_ended (hw : Blank w) : readSource limit w = .error ⟨.unexpectedEnd '(', 0⟩ := by
  rw [readSource, skipWhite_blank hw]

theorem readSource_list (hw : Blank w) :
    readSource limit (w ++ '(' :: rest) =
      if limit = 0 then .error ⟨.tooDeep limit, rest.length + 1⟩
      else
        match itemsFrom limit 1 rest with
        | .error f => .error f
        | .ok (items, last) => .ok (.list items, last) := by
  rw [readSource, skipWhite_append hw (by simp [isWhite])]
  simp only [if_true, readList, Nat.le_zero_eq, List.length_cons, List.tail_cons, itemsFrom]
  split
  · rfl
  · cases readItems limit (0 + 1) rest <;> rfl

theorem readSource_unterminated {q : Char} (hw : Blank w) (hq : isQuote q = true)
    (hrest : q ∉ rest) :
    readSource limit (w ++ q :: rest) = .error ⟨.unterminated q, rest.length + 1⟩ := by
  obtain ⟨_, hopen, hwhite, _⟩ := isQuote_facts hq
  rw [readSource, skipWhite_append hw (by simpa using hwhite)]
  simp [hopen, hq, readText?_none hrest]

theorem readSource_other {c : Char} (hw : Blank w) (hwhite : isWhite c = false) (hopen : c ≠ '(')
    (hquote : isQuote c = true → c ∈ rest) :
    readSource limit (w ++ c :: rest) = .error ⟨.expectedList, rest.length + 1⟩ := by
  have hclosed : ¬ (isQuote c = true ∧ readText? c rest = none) := by
    rintro ⟨hq, hnone⟩
    obtain ⟨t, last, rfl, ht⟩ := exists_first (hquote hq)
    rw [readText?_append ht] at hnone
    cases hnone
  rw [readSource, skipWhite_append hw (by simpa using hwhite)]
  simp only [if_neg hopen, if_neg hclosed]

end Sources

end SExprViewer.Expr
