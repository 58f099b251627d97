import SExprViewer.Proofs.Expr.Lexical
import SExprViewer.Proofs.Text.Position

/-! # The fault of a source

`firstFault` passes over a source once, from left to right, and keeps nothing but the number
of open lists and of the characters read.  Before the first parenthesis it looks at one
character.  Behind it, it stops at the first parenthesis that opens a list too many, at the
first quote that never comes again, or at the end.

`faultFrom_eq` says that the reader of items fails where this scan stops, and that the scan
goes on behind a list that the reader has read.  Hence `parse_eq_error_iff`. -/
set_option autoImplicit false

namespace SExprViewer.Expr

/-- The fault and its offset behind the first parenthesis, `opened` lists being open and
`offset` characters read; none when the first list is closed. -/
def faultFrom (limit : Nat) : Nat → Nat → List Char → Option (SyntaxFault × Nat)
  | 0, _, _ => none
  | _ + 1, offset, [] => some (.unexpectedEnd ')', offset)
  | opened + 1, offset, c :: rest =>
    if c = '(' then
      if limit ≤ opened + 1 then some (.tooDeep limit, offset)
      else faultFrom limit (opened + 2) (offset + 1) rest
    else if c = ')' then faultFrom limit opened (offset + 1) rest
    else if isQuote c then
      if c ∈ rest then
        faultFrom limit (opened + 1) (offset + rest.idxOf c + 2) (rest.drop (rest.idxOf c + 1))
      else some (.unterminated c, offset)
    else faultFrom limit (opened + 1) (offset + 1) rest
termination_by _ _ cs => cs.length
decreasing_by all_goals simp only [List.length_cons, List.length_drop]; omega

/-- The fault of a source and its offset. -/
def firstFault (limit : Nat) (source : List Char) : Option (SyntaxFault × Nat) :=
  let before := (source.takeWhile isWhite).length
  match source.drop before with
  | [] => some (.unexpectedEnd '(', source.length)
  | c :: rest =>
    if c = '(' then
      if limit = 0 then some (.tooDeep limit, before)
      else faultFrom limit 1 (before + 1) rest
    else if isQuote c ∧ c ∉ rest then some (.unterminated c, before)
    else some (.expectedList, before)

/-! ## The scan inside a list -/

section Scan
variable {limit opened offset : Nat} {rest : List Char}

theorem faultFrom_open : faultFrom limit (opened + 1) offset ('(' :: rest) =
    if limit ≤ opened + 1 then some (.tooDeep limit, offset)
    else faultFrom limit (opened + 2) (offset + 1) rest := by
  rw [faultFrom]
  simp

theorem faultFrom_close : faultFrom limit (opened + 1) offset (')' :: rest) =
    faultFrom limit opened (offset + 1) rest := by
  rw [faultFrom]
  simp

theorem faultFrom_quote {q : Char} (hq : isQuote q = true) :
    faultFrom limit (opened + 1) offset (q :: rest) =
      if q ∈ rest then
        faultFrom limit (opened + 1) (offset + rest.idxOf q + 2) (rest.drop (rest.idxOf q + 1))
      else some (.unterminated q, offset) := by
  obtain ⟨hclose, hopen, _, _⟩ := isQuote_facts hq
  rw [faultFrom]
  simp [hclose, hopen, hq]

theorem faultFrom_other {c : Char} (hopen : c ≠ '(') (hclose : c ≠ ')') (hq : isQuote c = false) :
    faultFrom limit (opened + 1) offset (c :: rest) =
      faultFrom limit (opened + 1) (offset + 1) rest := by
  rw [faultFrom]
  simp [hclose, hopen, hq]

theorem faultFrom_unterminated {q : Char} (hq : isQuote q = true) (hrest : q ∉ rest) :
    faultFrom limit (opened + 1) offset (q :: rest) = some (.unterminated q, offset) := by
  rw [faultFrom_quote hq, if_neg hrest]

theorem faultFrom_text {q : Char} {t : List Char} (hq : isQuote q = true) (ht : q ∉ t) :
    faultFrom limit (opened + 1) offset (q :: (t ++ q :: rest)) =
      faultFrom limit (opened + 1) (offset + t.length + 2) rest := by
  have hidx : (t ++ q :: rest).idxOf q = t.length := by
    simp [List.idxOf_append, ht]
  rw [faultFrom_quote hq, if_pos (by simp), hidx]
  simp

/-- White space and words are passed over. -/
theorem faultFrom_run (run : List Char)
    (hrun : ∀ c ∈ run, c ≠ '(' ∧ c ≠ ')' ∧ isQuote c = false) : ∀ offset,
    faultFrom limit (opened + 1) offset (run ++ rest) =
      faultFrom limit (opened + 1) (offset + run.length) rest := by
  induction run with
  | nil => intro offset; rfl
  | cons c run ih =>
      intro offset
      obtain ⟨⟨hopen, hclose, hq⟩, hrun⟩ := List.forall_mem_cons.mp hrun
      rw [List.cons_append, faultFrom_other hopen hclose hq, ih hrun, List.length_cons,
        Nat.add_assoc, Nat.add_comm 1]

theorem faultFrom_blank {w : List Char} (hw : Blank w) :
    faultFrom limit (opened + 1) offset (w ++ rest) =
      faultFrom limit (opened + 1) (offset + w.length) rest := by
  apply faultFrom_run
  intro c hc
  have hwhite := hw c hc
  refine ⟨?_, ?_, ?_⟩
  · rintro rfl; exact absurd hwhite (by decide)
  · rintro rfl; exact absurd hwhite (by decide)
  · by_contra hq
    rw [(isQuote_facts (by simpa using hq)).2.2.1] at hwhite
    cases hwhite

theorem faultFrom_word {a : List Char} (ha : IsWord a) :
    faultFrom limit (opened + 1) offset (a ++ rest) =
      faultFrom limit (opened + 1) (offset + a.length) rest := by
  apply faultFrom_run
  intro c hc
  exact ((isWordChar_iff c).mp (ha.2 c hc)).2

/-- In a source of `total` characters the scan goes on behind white space. -/
theorem faultFrom_behind {total : Nat} {w : List Char} (hw : Blank w)
    (htotal : (w ++ rest).length ≤ total) :
    faultFrom limit (opened + 1) (total - (w ++ rest).length) (w ++ rest) =
      faultFrom limit (opened + 1) (total - rest.length) rest := by
  have hoffset : total - (w ++ rest).length + w.length = total - rest.length := by
    rw [List.length_append] at htotal ⊢
    omega
  rw [faultFrom_blank hw, hoffset]

end Scan

theorem faultFrom_ne_expectedList (limit opened offset : Nat) (cs : List Char) (place : Nat) :
    faultFrom limit opened offset cs ≠ some (.expectedList, place) := by
  fun_induction faultFrom limit opened offset cs <;> simp_all

/-! ## The scan and the reader -/

/-- What the scan finds behind an answer of the reader, in a source of `total` characters. -/
def faultAfter (limit opened total : Nat) :
    Except Failure (List Expr × List Char) → Option (SyntaxFault × Nat)
  | .error f => some (f.fault, total - f.left)
  | .ok (_, last) => faultFrom limit opened (total - last.length) last

theorem faultAfter_prepend (limit opened total : Nat) (e : Expr)
    (answer : Except Failure (List Expr × List Char)) :
    faultAfter limit opened total (prepend e answer) = faultAfter limit opened total answer := by
  cases answer <;> rfl

theorem faultFrom_eq (limit depth : Nat) (cs : List Char) : ∀ opened total,
    depth = opened + 1 → cs.length ≤ total →
      faultFrom limit depth (total - cs.length) cs =
        faultAfter limit opened total (itemsFrom limit depth cs) := by
  induction depth, cs using itemsFrom_induction limit with
  | ended depth w hw =>
      rintro opened total rfl htotal
      have hscan := @faultFrom_behind limit opened [] total w hw (by rwa [List.append_nil])
      rw [List.append_nil] at hscan
      rw [itemsFrom_ended hw, hscan, faultFrom]
      rfl
  | close depth w rest hw =>
      rintro opened total rfl htotal
      rw [itemsFrom_close hw, faultFrom_behind hw htotal, faultFrom_close]
      rw [List.length_append, List.length_cons] at htotal
      have hnext : total - (')' :: rest).length + 1 = total - rest.length := by
        rw [List.length_cons]
        omega
      rw [hnext]
      rfl
  | tooDeep depth w rest hw hd =>
      rintro opened total rfl htotal
      rw [itemsFrom_tooDeep hw hd, faultFrom_behind hw htotal, faultFrom_open, if_pos hd]
      rfl
  | list depth w rest hw hd ihInner ihRest =>
      rintro opened total rfl htotal
      rw [itemsFrom_list hw hd, faultFrom_behind hw htotal, faultFrom_open, if_neg (by omega)]
      rw [List.length_append, List.length_cons] at htotal
      have hnext : total - ('(' :: rest).length + 1 = total - rest.length := by
        rw [List.length_cons]
        omega
      rw [hnext, ihInner (opened + 1) total rfl (by omega)]
      cases hread : itemsFrom limit (opened + 1 + 1) rest with
      | error f => rfl
      | ok p =>
          obtain ⟨inner, last⟩ := p
          have hlast := itemsFrom_shorter hread
          rw [faultAfter_prepend]
          exact ihRest inner last hread opened total rfl (by omega)
  | unterminated depth w q rest hw hq hrest =>
      rintro opened total rfl htotal
      rw [itemsFrom_unterminated hw hq hrest, faultFrom_behind hw htotal,
        faultFrom_unterminated hq hrest]
      rfl
  | text depth w q t rest hw hq ht ih =>
      rintro opened total rfl htotal
      rw [itemsFrom_text hw hq ht, faultFrom_behind hw htotal, faultFrom_text hq ht,
        faultAfter_prepend]
      simp only [List.length_append, List.length_cons] at htotal
      have hnext : total - (q :: (t ++ q :: rest)).length + t.length + 2 =
          total - rest.length := by
        simp only [List.length_append, List.length_cons]
        omega
      rw [hnext]
      exact ih opened total rfl (by omega)
  | word depth w a rest hw ha hend ih =>
      rintro opened total rfl htotal
      rw [itemsFrom_word hw ha hend, faultFrom_behind hw htotal, faultFrom_word ha,
        faultAfter_prepend]
      simp only [List.length_append] at htotal
      have hnext : total - (a ++ rest).length + a.length = total - rest.length := by
        rw [List.length_append]
        omega
      rw [hnext]
      exact ih opened total rfl (by omega)

theorem firstFault_behind {limit : Nat} {w : List Char} {c : Char} {rest : List Char}
    (hw : Blank w) (hc : isWhite c = false) :
    firstFault limit (w ++ c :: rest) =
      if c = '(' then
        if limit = 0 then some (.tooDeep limit, w.length)
        else faultFrom limit 1 (w.length + 1) rest
      else if isQuote c ∧ c ∉ rest then some (.unterminated c, w.length)
      else some (.expectedList, w.length) := by
  have htake : (w ++ c :: rest).takeWhile isWhite = w :=
    (takeWhile_dropWhile_append isWhite w (c :: rest) hw (by simpa using hc)).1
  simp only [firstFault, htake, List.drop_left]

theorem firstFault_blank {limit : Nat} {w : List Char} (hw : Blank w) :
    firstFault limit w = some (.unexpectedEnd '(', w.length) := by
  have htake : w.takeWhile isWhite = w := by
    have h := (takeWhile_dropWhile_append isWhite w [] hw (by simp)).1
    rwa [List.append_nil] at h
  simp only [firstFault, htake, List.drop_length]

/-- The scan of a source finds the fault that the reader answers with, and none otherwise. -/
theorem firstFault_eq (limit : Nat) (source : List Char) :
    firstFault limit source = match readSource limit source with
      | .error f => some (f.fault, source.length - f.left)
      | .ok _ => none := by
  rcases source_cases source with hw | ⟨w, rest, rfl, hw⟩ | ⟨w, c, rest, rfl, hw, hwhite, hopen⟩
  · rw [readSource_ended hw, firstFault_blank hw]
    rfl
  · rw [readSource_list hw, firstFault_behind hw (by decide), if_pos rfl]
    by_cases hlimit : limit = 0
    · rw [if_pos hlimit, if_pos hlimit]
      simp
    · rw [if_neg hlimit, if_neg hlimit]
      have hscan := faultFrom_eq limit 1 rest 0 (w ++ '(' :: rest).length rfl (by simp; omega)
      have hoffset : (w ++ '(' :: rest).length - rest.length = w.length + 1 := by
        simp
        omega
      rw [hoffset] at hscan
      rw [hscan]
      cases itemsFrom limit 1 rest with
      | error f => rfl
      | ok p => rw [faultAfter, faultFrom]
  · rw [firstFault_behind hw hwhite, if_neg hopen]
    by_cases hq : isQuote c = true ∧ c ∉ rest
    · rw [if_pos hq, readSource_unterminated hw hq.1 hq.2]
      simp
    · rw [if_neg hq, readSource_other hw hwhite hopen fun hc => by simpa [hc] using hq]
      simp

theorem prepend_ne_error {e : Expr} {f : Failure}
    {answer : Except Failure (List Expr × List Char)} (h : answer ≠ .error f) :
    prepend e answer ≠ .error f := by
  cases answer with
  | error g => exact fun hg => h hg
  | ok p => exact fun hg => nomatch hg

theorem itemsFrom_ne_expectedList (limit depth : Nat) (cs : List Char) (left : Nat) :
    itemsFrom limit depth cs ≠ .error ⟨.expectedList, left⟩ := by
  induction depth, cs using itemsFrom_induction limit with
  | ended depth w hw => simp [itemsFrom_ended hw]
  | close depth w rest hw => simp [itemsFrom_close hw]
  | tooDeep depth w rest hw hd => simp [itemsFrom_tooDeep hw hd]
  | list depth w rest hw hd ihInner ihRest =>
      rw [itemsFrom_list hw hd]
      cases hread : itemsFrom limit (depth + 1) rest with
      | error f =>
          rw [hread] at ihInner
          exact ihInner
      | ok p => exact prepend_ne_error (ihRest p.1 p.2 hread)
  | unterminated depth w q rest hw hq hrest => simp [itemsFrom_unterminated hw hq hrest]
  | text depth w q t rest hw hq ht ih =>
      rw [itemsFrom_text hw hq ht]
      exact prepend_ne_error ih
  | word depth w a rest hw ha hend ih =>
      rw [itemsFrom_word hw ha hend]
      exact prepend_ne_error ih

theorem parse_eq_error_iff {settings : ParseSettings} {source : String} {error : SyntaxError} :
    parse settings source = .error error ↔
      ∃ offset, firstFault settings.maxDepth source.toList = some (error.fault, offset) ∧
        error.position = Position.counted (source.toList.take offset) := by
  rw [firstFault_eq]
  unfold parse
  cases readSource settings.maxDepth source.toList with
  | error f =>
      obtain ⟨fault, left⟩ := f
      obtain ⟨fault', position⟩ := error
      simp [Position.ofOffset_eq, eq_comm]
  | ok p => simp

/-- A source is refused with the fault that the scan finds first, at the position told by
counting, and no reader inside a list misses a list. -/
theorem parse_eq_error_iff_firstFault (settings : ParseSettings) (source : String) :
    (∀ error, parse settings source = .error error ↔
      ∃ offset, firstFault settings.maxDepth source.toList = some (error.fault, offset) ∧
        error.position = Position.counted (source.toList.take offset)) ∧
    (∀ depth cs left, readItems settings.maxDepth depth cs ≠ .error ⟨.expectedList, left⟩) := by
  refine ⟨fun error => parse_eq_error_iff, fun depth cs left h => ?_⟩
  apply itemsFrom_ne_expectedList settings.maxDepth depth cs left
  rw [itemsFrom, h]

end SExprViewer.Expr
