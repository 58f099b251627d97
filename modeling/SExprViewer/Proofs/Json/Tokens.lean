import SExprViewer.Proofs.Json.Scalars

/-! # Numbers and strings of standard JSON

`IsNumber` and `IsString` are the standard's texts of numbers and strings, with what they stand
for: a number for the decimal that it spells, a string for its characters.  A number that ends
where no character goes on with it is the literal that is read (`literal?_of_isNumber`), so it
stands for one decimal (`IsNumber.unique`).  Inside of a string no text of a character begins
another one, so the characters are told apart (`IsString.unique`). -/
set_option autoImplicit false

namespace SExprViewer.Json

open SExprViewer.Expr (IsDigits sign)

/-! ## Numbers -/

/-- The texts of a fraction and its digits. -/
inductive IsFraction : List Char → List Char → Prop
  | none : IsFraction [] []
  | digits {fs : List Char} (h : IsDigits fs) : IsFraction ('.' :: fs) fs

/-- The texts of an exponent and its value. -/
inductive IsExponent : List Char → Int → Prop
  | none : IsExponent [] 0
  | unsigned {e : Char} {ds : List Char} (he : e = 'e' ∨ e = 'E') (h : IsDigits ds) :
      IsExponent (e :: ds) (Decimal.ofDigits ds)
  | plus {e : Char} {ds : List Char} (he : e = 'e' ∨ e = 'E') (h : IsDigits ds) :
      IsExponent (e :: '+' :: ds) (Decimal.ofDigits ds)
  | minus {e : Char} {ds : List Char} (he : e = 'e' ∨ e = 'E') (h : IsDigits ds) :
      IsExponent (e :: '-' :: ds) (-(Decimal.ofDigits ds : Int))

/-- The texts of a number and the decimal that they spell.  Only zero begins with a zero. -/
inductive IsNumber : List Char → Decimal → Prop
  | intro {negative : Bool} {whole fraction fs exponent : List Char} {power : Int}
      (hwhole : IsDigits whole) (hzero : whole = ['0'] ∨ whole.head? ≠ some '0')
      (hfraction : IsFraction fraction fs) (hexponent : IsExponent exponent power) :
      IsNumber (sign negative ++ (whole ++ (fraction ++ exponent)))
        ⟨negative, Decimal.ofDigits (whole ++ fs), power - fs.length⟩

/-- The decimal that a literal spells. -/
def Literal.decimal (l : Literal) : Decimal :=
  ⟨l.negative, Decimal.ofDigits (l.whole ++ l.fraction), l.exponent - l.fraction.length⟩

theorem not_digit_of_isExponent {cs tail : List Char} {power : Int} (h : IsExponent cs power)
    (htail : Delimits tail) : ∀ c ∈ (cs ++ tail).head?, c.isDigit = false ∧ c ≠ '.' := by
  intro c hc
  cases h with
  | none => exact ⟨(htail c hc).1, (htail c hc).2.1⟩
  | unsigned he _ | plus he _ | minus he _ =>
      cases hc
      rcases he with rfl | rfl <;> decide

theorem isDigits_head {ds : List Char} (h : IsDigits ds) (tail : List Char) :
    ∀ c ∈ (ds ++ tail).head?, c.isDigit = true := by
  intro c hc
  cases ds with
  | nil => exact absurd rfl h.1
  | cons d ds =>
      cases hc
      exact h.2 _ List.mem_cons_self

theorem power?_of_isDigits {ds tail : List Char} (h : IsDigits ds) (htail : Delimits tail) :
    power? (ds ++ tail) = some ((false, ds), tail) := by
  have hhead : ∀ c ∈ (ds ++ tail).head?, c ≠ '-' ∧ c ≠ '+' := by
    intro c hc
    have hdigit := isDigits_head h tail c hc
    constructor <;> rintro rfl <;> cases hdigit
  rw [power?_of_ne hhead, digits?_eq_some h fun c hc => (htail c hc).1]
  rfl

theorem exponent?_of_isExponent {cs tail : List Char} {power : Int} (h : IsExponent cs power)
    (htail : Delimits tail) : ∃ p, exponent? (cs ++ tail) = some (p, tail) ∧
      ∀ negative whole fraction, Literal.exponent ⟨negative, whole, fraction, p⟩ = power := by
  have hdigits : ∀ {ds}, IsDigits ds → digits? (ds ++ tail) = some (ds, tail) :=
    fun h => digits?_eq_some h fun c hc => (htail c hc).1
  have hletter : ∀ {e : Char} (rest : List Char), e = 'e' ∨ e = 'E' → exponent? (e :: rest) =
      (power? rest).map fun p => (some p.1, p.2) := by
    rintro e rest (rfl | rfl) <;> rfl
  cases h with
  | none => exact ⟨none, exponent?_of_ne fun c hc => (htail c hc).2.2, fun _ _ _ => rfl⟩
  | @unsigned e ds he hds =>
      refine ⟨some (false, ds), ?_, fun _ _ _ => rfl⟩
      rw [List.cons_append, hletter _ he, power?_of_isDigits hds htail]
      rfl
  | @plus e ds he hds =>
      refine ⟨some (false, ds), ?_, fun _ _ _ => rfl⟩
      rw [List.cons_append, hletter _ he, List.cons_append, power?, hdigits hds]
      rfl
  | @minus e ds he hds =>
      refine ⟨some (true, ds), ?_, fun _ _ _ => rfl⟩
      rw [List.cons_append, hletter _ he, List.cons_append, power?, hdigits hds]
      rfl

theorem fraction?_of_isFraction {cs fs rest : List Char} (h : IsFraction cs fs)
    (hrest : ∀ c ∈ rest.head?, c.isDigit = false ∧ c ≠ '.') :
    fraction? (cs ++ rest) = some (fs, rest) := by
  cases h with
  | none => exact fraction?_of_ne fun c hc => (hrest c hc).2
  | digits h => exact digits?_eq_some h fun c hc => (hrest c hc).1

/-- A number is read as the literal that spells its decimal. -/
theorem literal?_of_isNumber {cs tail : List Char} {d : Decimal} (h : IsNumber cs d)
    (htail : Delimits tail) : ∃ l, literal? (cs ++ tail) = some (l, tail) ∧ l.decimal = d := by
  obtain @⟨negative, whole, fraction, fs, exponent, power, hwhole, hzero, hfraction,
    hexponent⟩ := h
  obtain ⟨p, hp, hpower⟩ := exponent?_of_isExponent hexponent htail
  have hbehind := not_digit_of_isExponent hexponent htail
  have hfractionTail : ∀ c ∈ (fraction ++ (exponent ++ tail)).head?, c.isDigit = false := by
    cases hfraction with
    | none => exact fun c hc => (hbehind c hc).1
    | digits h =>
        intro c hc
        cases hc
        rfl
  have hsign : signOf (sign negative ++ (whole ++ (fraction ++ (exponent ++ tail)))) =
      (negative, whole ++ (fraction ++ (exponent ++ tail))) := by
    cases negative with
    | true => rfl
    | false =>
        have hhead := isDigits_head hwhole (fraction ++ (exponent ++ tail))
        change signOf (whole ++ _) = _
        unfold signOf
        split
        · rename_i rest heq
          rw [heq] at hhead
          cases hhead '-' rfl
        · rfl
  have hwhole0 : ¬ (whole.length ≠ 1 ∧ whole.head? = some '0') := by
    rintro ⟨hlength, hhead⟩
    rcases hzero with rfl | hzero
    · exact hlength rfl
    · exact hzero hhead
  refine ⟨⟨negative, whole, fs, p⟩, ?_, by rw [Literal.decimal, hpower]⟩
  simp only [List.append_assoc]
  rw [literal?_eq, hsign, digits?_eq_some hwhole hfractionTail, Option.bind_some, behindWhole?,
    if_neg hwhole0, fraction?_of_isFraction hfraction hbehind]
  simp only [Option.bind_some, hp, Option.map_some]

theorem IsNumber.unique {cs cs' tail tail' : List Char} {d d' : Decimal} (h : IsNumber cs d)
    (h' : IsNumber cs' d') (htail : Delimits tail) (htail' : Delimits tail')
    (heq : cs ++ tail = cs' ++ tail') : d = d' ∧ tail = tail' := by
  obtain ⟨l, hl, hd⟩ := literal?_of_isNumber h htail
  obtain ⟨l', hl', hd'⟩ := literal?_of_isNumber h' htail'
  rw [heq, hl'] at hl
  cases hl
  exact ⟨hd.symm.trans hd', rfl⟩

theorem IsNumber.head {cs : List Char} {d : Decimal} (h : IsNumber cs d) :
    ∃ c rest, cs = c :: rest ∧ (c = '-' ∨ c.isDigit = true) := by
  obtain @⟨negative, whole, fraction, fs, exponent, power, hwhole, -, -, -⟩ := h
  cases negative with
  | true => exact ⟨'-', _, rfl, .inl rfl⟩
  | false =>
      obtain ⟨hne, hdigits⟩ := hwhole
      cases whole with
      | nil => exact absurd rfl hne
      | cons c whole => exact ⟨c, _, rfl, .inr (hdigits c List.mem_cons_self)⟩

/-! ## Strings -/

/-- The texts of one character inside of a string: the character itself, a backslash and a letter,
the four digits of its code point, or those of its two surrogates. -/
inductive IsCharText : List Char → Char → Prop
  | plain {c : Char} (hc : 32 ≤ c.toNat) (hquote : c ≠ '"') (hback : c ≠ '\\') :
      IsCharText [c] c
  | letter {e c : Char} (h : unescape? e = some c) : IsCharText ['\\', e] c
  | codePoint {a b c d : Char} {n : Nat} (h : hexUnit? a b c d = some n)
      (hhigh : isHighSurrogate n = false) (hlow : isLowSurrogate n = false) :
      IsCharText ['\\', 'u', a, b, c, d] (Char.ofNat n)
  | surrogates {a b c d a' b' c' d' : Char} {high low : Nat} (h : hexUnit? a b c d = some high)
      (h' : hexUnit? a' b' c' d' = some low) (hhigh : isHighSurrogate high = true)
      (hlow : isLowSurrogate low = true) :
      IsCharText ['\\', 'u', a, b, c, d, '\\', 'u', a', b', c', d']
        (Char.ofNat (0x10000 + (high - 0xD800) * 0x400 + (low - 0xDC00)))

/-- The texts of some characters inside of a string. -/
inductive IsCharsText : List Char → List Char → Prop
  | nil : IsCharsText [] []
  | cons {c : Char} {text texts cs : List Char} (h : IsCharText text c)
      (hs : IsCharsText texts cs) : IsCharsText (text ++ texts) (c :: cs)

/-- The texts of a string. -/
def IsString (text : List Char) (s : String) : Prop :=
  ∃ body, IsCharsText body s.toList ∧ text = '"' :: (body ++ ['"'])

/-- A character has a text that is not empty, and no quote in front of it. -/
theorem IsCharText.head {text : List Char} {c : Char} (h : IsCharText text c) :
    ∃ a rest, text = a :: rest ∧ a ≠ '"' := by
  cases h with
  | plain _ hquote _ => exact ⟨_, _, rfl, hquote⟩
  | letter | codePoint | surrogates => exact ⟨'\\', _, rfl, by decide⟩

theorem IsCharText.unique {text text' tail tail' : List Char} {c c' : Char}
    (h : IsCharText text c) (h' : IsCharText text' c') (heq : text ++ tail = text' ++ tail') :
    c = c' ∧ tail = tail' := by
  cases h with
  | plain _ _ hback =>
      cases h' with
      | plain => exact List.cons.inj heq
      | letter | codePoint | surrogates => exact absurd (List.cons.inj heq).1 hback
  | letter h =>
      cases h' with
      | plain _ _ hback => exact absurd (List.cons.inj heq).1.symm hback
      | letter h' =>
          obtain ⟨rfl, rfl⟩ := List.cons.inj (List.cons.inj heq).2
          exact ⟨Option.some.inj (h.symm.trans h'), rfl⟩
      | codePoint | surrogates =>
          obtain ⟨rfl, -⟩ := List.cons.inj (List.cons.inj heq).2
          cases h
  | codePoint h hhigh =>
      cases h' with
      | plain _ _ hback => exact absurd (List.cons.inj heq).1.symm hback
      | letter h' =>
          obtain ⟨rfl, -⟩ := List.cons.inj (List.cons.inj heq).2
          cases h'
      | codePoint h' =>
          simp only [List.cons_append, List.nil_append, List.cons.injEq, true_and] at heq
          obtain ⟨rfl, rfl, rfl, rfl, rfl⟩ := heq
          cases h.symm.trans h'
          exact ⟨rfl, rfl⟩
      | surrogates h' _ hhigh' =>
          simp only [List.cons_append, List.nil_append, List.cons.injEq, true_and] at heq
          obtain ⟨rfl, rfl, rfl, rfl, -⟩ := heq
          cases h.symm.trans h'
          cases hhigh.symm.trans hhigh'
  | surrogates h hlow hhigh =>
      cases h' with
      | plain _ _ hback => exact absurd (List.cons.inj heq).1.symm hback
      | letter h' =>
          obtain ⟨rfl, -⟩ := List.cons.inj (List.cons.inj heq).2
          cases h'
      | codePoint h' hhigh' =>
          simp only [List.cons_append, List.nil_append, List.cons.injEq, true_and] at heq
          obtain ⟨rfl, rfl, rfl, rfl, -⟩ := heq
          cases h.symm.trans h'
          cases hhigh.symm.trans hhigh'
      | surrogates h' hlow' =>
          simp only [List.cons_append, List.nil_append, List.cons.injEq, true_and] at heq
          obtain ⟨rfl, rfl, rfl, rfl, rfl, rfl, rfl, rfl, rfl⟩ := heq
          cases h.symm.trans h'
          cases hlow.symm.trans hlow'
          exact ⟨rfl, rfl⟩

theorem IsCharsText.unique {texts cs tail tail' : List Char} (h : IsCharsText texts cs) :
    ∀ {texts' cs' : List Char}, IsCharsText texts' cs' →
      texts ++ '"' :: tail = texts' ++ '"' :: tail' → cs = cs' ∧ tail = tail' := by
  induction h with
  | nil =>
      intro texts' cs' h' heq
      cases h' with
      | nil => exact ⟨rfl, (List.cons.inj heq).2⟩
      | cons h' =>
          obtain ⟨a, rest, rfl, ha⟩ := h'.head
          exact absurd (List.cons.inj heq).1.symm ha
  | cons h _ ih =>
      intro texts' cs' h' heq
      cases h' with
      | nil =>
          obtain ⟨a, rest, rfl, ha⟩ := h.head
          exact absurd (List.cons.inj heq).1 ha
      | cons h' hs' =>
          rw [List.append_assoc, List.append_assoc] at heq
          obtain ⟨rfl, hrest⟩ := h.unique h' heq
          obtain ⟨rfl, rfl⟩ := ih hs' hrest
          exact ⟨rfl, rfl⟩

theorem IsString.unique {text text' tail tail' : List Char} {s s' : String}
    (h : IsString text s) (h' : IsString text' s') (heq : text ++ tail = text' ++ tail') :
    s = s' ∧ tail = tail' := by
  obtain ⟨body, hbody, rfl⟩ := h
  obtain ⟨body', hbody', rfl⟩ := h'
  rw [List.cons_append, List.cons_append, List.append_assoc, List.append_assoc] at heq
  obtain ⟨hs, rfl⟩ := hbody.unique hbody' (List.cons.inj heq).2
  exact ⟨String.toList_inj.mp hs, rfl⟩

end SExprViewer.Json
