import SExprViewer.Proofs.Expr.Lexical

/-! # What words stand for

`IsNumeral` holds of the words `-?[0-9]+(\.[0-9]+)?` and their values; such a word is a
number, every other one a symbol (`IsAtom`).  `numeral?` and `atomOfWord` decide the two
relations. -/
set_option autoImplicit false

namespace SExprViewer.Expr

/-- One decimal digit or more. -/
def IsDigits (ds : List Char) : Prop := ds ≠ [] ∧ ∀ c ∈ ds, c.isDigit = true

def sign (negative : Bool) : List Char := if negative then ['-'] else []

/-- The words `-?[0-9]+(\.[0-9]+)?` and their values. -/
inductive IsNumeral : List Char → Decimal → Prop
  | whole {negative : Bool} {ds : List Char} (hds : IsDigits ds) :
      IsNumeral (sign negative ++ ds) ⟨negative, Decimal.ofDigits ds, 0⟩
  | fraction {negative : Bool} {ds fs : List Char} (hds : IsDigits ds) (hfs : IsDigits fs) :
      IsNumeral (sign negative ++ (ds ++ '.' :: fs))
        ⟨negative, Decimal.ofDigits (ds ++ fs), -(fs.length : Int)⟩

theorem isWordChar_of_isDigit {c : Char} (h : c.isDigit = true) : isWordChar c = true := by
  have hne : ∀ d : Char, d.isDigit = false → c ≠ d := by
    rintro d hd rfl
    rw [hd] at h
    cases h
  simp [isWordChar, isWhite, isQuote, hne]

theorem IsNumeral.isWord {a : List Char} {d : Decimal} (h : IsNumeral a d) : IsWord a := by
  have hsign : ∀ negative, ∀ c ∈ sign negative, isWordChar c = true := by
    intro negative c hc
    cases negative with
    | false => cases hc
    | true =>
        obtain rfl := List.mem_singleton.mp hc
        rfl
  have hdigits : ∀ {ds : List Char}, IsDigits ds → ∀ c ∈ ds, isWordChar c = true :=
    fun hds c hc => isWordChar_of_isDigit (hds.2 c hc)
  cases h with
  | whole hds =>
      refine ⟨by simp [hds.1], ?_⟩
      intro c hc
      exact (List.mem_append.mp hc).elim (hsign _ c) (hdigits hds c)
  | fraction hds hfs =>
      refine ⟨by simp, ?_⟩
      intro c hc
      simp only [List.mem_append, List.mem_cons] at hc
      rcases hc with hc | hc | rfl | hc
      · exact hsign _ c hc
      · exact hdigits hds c hc
      · decide
      · exact hdigits hfs c hc

theorem IsDigits.takeWhile_dropWhile {ds : List Char} (hds : IsDigits ds) (rest : List Char)
    (hrest : ∀ c ∈ rest.head?, c.isDigit = false) :
    (ds ++ rest).takeWhile Char.isDigit = ds ∧ (ds ++ rest).dropWhile Char.isDigit = rest :=
  takeWhile_dropWhile_append Char.isDigit ds rest hds.2 hrest

theorem splitNumeral?_whole {ds : List Char} (hds : IsDigits ds) :
    splitNumeral? ds = some (ds, []) := by
  obtain ⟨htake, hdrop⟩ := hds.takeWhile_dropWhile [] (by simp)
  rw [List.append_nil] at htake hdrop
  simp [splitNumeral?, htake, hdrop, hds.1]

theorem splitNumeral?_fraction {ds fs : List Char} (hds : IsDigits ds) (hfs : IsDigits fs) :
    splitNumeral? (ds ++ '.' :: fs) = some (ds, fs) := by
  obtain ⟨htake, hdrop⟩ := hds.takeWhile_dropWhile ('.' :: fs) (by simp)
  have hall : fs.all Char.isDigit = true := List.all_eq_true.mpr hfs.2
  simp only [splitNumeral?, htake, hdrop]
  rw [if_neg hds.1, if_pos ⟨trivial, hfs.1, hall⟩]

theorem of_splitNumeral? {word ds fs : List Char} (h : splitNumeral? word = some (ds, fs)) :
    IsDigits ds ∧ (word = ds ∧ fs = [] ∨ word = ds ++ '.' :: fs ∧ IsDigits fs) := by
  obtain ⟨run, rest, rfl, hrun, hrest⟩ := exists_run Char.isDigit word
  obtain ⟨htake, hdrop⟩ := takeWhile_dropWhile_append Char.isDigit run rest hrun hrest
  simp only [splitNumeral?, htake, hdrop] at h
  by_cases hne : run = []
  · simp [hne] at h
  rw [if_neg hne] at h
  cases rest with
  | nil =>
      obtain ⟨rfl, rfl⟩ : run = ds ∧ [] = fs := by simpa using h
      exact ⟨⟨hne, hrun⟩, Or.inl ⟨List.append_nil _, rfl⟩⟩
  | cons c tail =>
      dsimp only at h
      split at h
      · rename_i hc
        obtain ⟨rfl, rfl⟩ : run = ds ∧ tail = fs := by simpa using h
        obtain ⟨rfl, htail, hall⟩ := hc
        exact ⟨⟨hne, hrun⟩, Or.inr ⟨rfl, htail, List.all_eq_true.mp hall⟩⟩
      · cases h

theorem numeral?_sign {negative : Bool} {word ds fs : List Char}
    (h : splitNumeral? word = some (ds, fs)) : numeral? (sign negative ++ word) =
      some ⟨negative, Decimal.ofDigits (ds ++ fs), -(fs.length : Int)⟩ := by
  cases negative with
  | true => simp [numeral?, sign, h]
  | false =>
      -- without a sign the word begins with a digit, so no minus is taken off it
      obtain ⟨hds, hword⟩ := of_splitNumeral? h
      have hminus : ∀ rest, word ≠ '-' :: rest := by
        rintro rest rfl
        cases ds with
        | nil => exact hds.1 rfl
        | cons d tail =>
            have hd : d = '-' := by rcases hword with ⟨h', _⟩ | ⟨h', _⟩ <;> cases h' <;> rfl
            have hdigit := hds.2 d (List.mem_cons_self ..)
            rw [hd] at hdigit
            exact absurd hdigit (by decide)
      unfold numeral?
      split
      · rename_i negative digits hmatch
        split at hmatch
        · rename_i rest hcons
          exact absurd hcons (hminus rest)
        · cases hmatch
          simp [sign, h]

theorem numeral?_eq_some_iff {a : List Char} {d : Decimal} :
    numeral? a = some d ↔ IsNumeral a d := by
  constructor
  · intro h
    obtain ⟨negative, word, ds, fs, rfl, hsplit, rfl⟩ : ∃ negative word ds fs,
        a = sign negative ++ word ∧ splitNumeral? word = some (ds, fs) ∧
          d = ⟨negative, Decimal.ofDigits (ds ++ fs), -(fs.length : Int)⟩ := by
      unfold numeral? at h
      split at h
      rename_i negative word hmatch
      obtain ⟨⟨ds, fs⟩, hsplit, rfl⟩ := Option.map_eq_some_iff.mp h
      refine ⟨negative, word, ds, fs, ?_, hsplit, rfl⟩
      split at hmatch <;> cases hmatch <;> rfl
    obtain ⟨hds, ⟨rfl, rfl⟩ | ⟨rfl, hfs⟩⟩ := of_splitNumeral? hsplit
    · rw [List.append_nil]
      exact IsNumeral.whole hds
    · exact IsNumeral.fraction hds hfs
  · intro h
    cases h with
    | whole hds =>
        rw [numeral?_sign (splitNumeral?_whole hds), List.append_nil]
        rfl
    | fraction hds hfs => exact numeral?_sign (splitNumeral?_fraction hds hfs)

/-- What a word stands for. -/
inductive IsAtom : List Char → Atom → Prop
  | number {a : List Char} {d : Decimal} (h : IsNumeral a d) : IsAtom a (.number d.toFloat)
  | symbol {a : List Char} (h : ∀ d, ¬ IsNumeral a d) : IsAtom a (.symbol ⟨String.ofList a⟩)

theorem isAtom_iff {a : List Char} {x : Atom} : IsAtom a x ↔ x = atomOfWord a := by
  unfold atomOfWord
  constructor
  · intro h
    cases h with
    | number h => rw [numeral?_eq_some_iff.mpr h]
    | symbol h =>
        have hnone : numeral? a = none := by
          cases hn : numeral? a with
          | none => rfl
          | some d => exact absurd (numeral?_eq_some_iff.mp hn) (h d)
        rw [hnone]
  · rintro rfl
    split
    · rename_i d hd
      exact IsAtom.number (numeral?_eq_some_iff.mp hd)
    · rename_i hnone
      refine IsAtom.symbol fun d hd => ?_
      rw [numeral?_eq_some_iff.mpr hd] at hnone
      cases hnone

end SExprViewer.Expr
