import SExprViewer.Json.Reader
import SExprViewer.Json.Writer
import SExprViewer.Proofs.Expr.Label

/-! # Numbers and strings in JSON

A number literal ends where no character follows that could go on with it (`literal?_append`), and
a whole number is read as it was written (`literal?_decimalDigits`).  Of a string every character
comes back from its escape (`units?_escape`), and no character is a surrogate, so the whole string
does (`units?_quote`, `decodeUnits_toNat`). -/
set_option autoImplicit false

namespace SExprViewer.Json

open SExprViewer.Expr (IsDigits takeWhile_dropWhile_append)

/-! ## Literals -/

/-- Whether a number literal ends before a text. -/
def Delimits (tail : List Char) : Prop :=
  ∀ c ∈ tail.head?, c.isDigit = false ∧ c ≠ '.' ∧ c ≠ 'e' ∧ c ≠ 'E'

theorem delimits_cons {c : Char} (h : c.isDigit = false ∧ c ≠ '.' ∧ c ≠ 'e' ∧ c ≠ 'E')
    (tail : List Char) : Delimits (c :: tail) := by
  intro d hd
  obtain rfl : c = d := by simpa using hd
  exact h

theorem digits?_eq_some {ds rest : List Char} (hds : IsDigits ds)
    (hrest : ∀ c ∈ rest.head?, c.isDigit = false) : digits? (ds ++ rest) = some (ds, rest) := by
  obtain ⟨htake, hdrop⟩ := takeWhile_dropWhile_append Char.isDigit ds rest hds.2 hrest
  rw [digits?, htake, hdrop, if_neg hds.1]

theorem of_digits? {cs ds rest : List Char} (h : digits? cs = some (ds, rest)) :
    cs = ds ++ rest ∧ IsDigits ds ∧ ∀ c ∈ rest.head?, c.isDigit = false := by
  rw [digits?] at h
  split at h
  · cases h
  · rename_i hne
    cases h
    refine ⟨List.takeWhile_append_dropWhile.symm, ⟨hne, fun c hc => ?_⟩, fun c hc => ?_⟩
    · exact List.mem_takeWhile_imp hc
    · have hhead := List.head?_dropWhile_not Char.isDigit cs
      rw [Option.mem_def.mp hc] at hhead
      simpa using hhead

theorem digits?_append {cs ds rest tail : List Char} (h : digits? cs = some (ds, rest))
    (htail : Delimits tail) : digits? (cs ++ tail) = some (ds, rest ++ tail) := by
  obtain ⟨rfl, hds, hrest⟩ := of_digits? h
  rw [List.append_assoc]
  refine digits?_eq_some hds ?_
  cases rest with
  | nil => exact fun c hc => (htail c hc).1
  | cons d rest => exact hrest

/-- A number without its sign, and whether that was a minus. -/
def signOf : List Char → Bool × List Char
  | '-' :: rest => (true, rest)
  | rest => (false, rest)

/-- The digits behind a point, if there is one. -/
def fraction? : List Char → Option (List Char × List Char)
  | '.' :: rest => digits? rest
  | rest => some ([], rest)

/-- The exponent behind its letter, if there is one. -/
def exponent? : List Char → Option (Option (Bool × List Char) × List Char)
  | 'e' :: rest => (power? rest).map fun (power, cs) => (some power, cs)
  | 'E' :: rest => (power? rest).map fun (power, cs) => (some power, cs)
  | rest => some (none, rest)

/-- What is read behind the whole part. -/
def behindWhole? (negative : Bool) (whole cs : List Char) : Option (Literal × List Char) :=
  if whole.length ≠ 1 ∧ whole.head? = some '0' then none
  else (fraction? cs).bind fun (fraction, cs) =>
    (exponent? cs).map fun (power, cs) => (⟨negative, whole, fraction, power⟩, cs)

theorem literal?_eq (cs : List Char) : literal? cs =
    (digits? (signOf cs).2).bind fun p => behindWhole? (signOf cs).1 p.1 p.2 := by
  have hexponent : ∀ (negative : Bool) (whole fraction cs : List Char),
      (match cs with
        | 'e' :: rest => (power? rest).bind fun p =>
            some ((⟨negative, whole, fraction, some p.1⟩ : Literal), p.2)
        | 'E' :: rest => (power? rest).bind fun p =>
            some ((⟨negative, whole, fraction, some p.1⟩ : Literal), p.2)
        | rest => some ((⟨negative, whole, fraction, none⟩ : Literal), rest)) =
      (exponent? cs).map fun p => (⟨negative, whole, fraction, p.1⟩, p.2) := by
    intro negative whole fraction cs
    unfold exponent?
    split
    · cases power? _ <;> rfl
    · cases power? _ <;> rfl
    · rfl
  have hfraction : ∀ (cs : List Char) (f : List Char × List Char → Option (Literal × List Char)),
      (match cs with
        | '.' :: rest => (digits? rest).bind f
        | rest => (some ([], rest)).bind f) = (fraction? cs).bind f := by
    intro cs f
    unfold fraction?
    split <;> rfl
  unfold literal?
  simp only [Option.bind_eq_bind]
  change (digits? (signOf cs).2).bind _ = _
  refine congrArg (Option.bind _) (funext fun p => ?_)
  rw [behindWhole?]
  split
  · rfl
  · refine (hfraction p.2 _).trans (congrArg (Option.bind _) (funext fun q => ?_))
    exact hexponent (signOf cs).1 p.1 q.1 q.2

theorem fraction?_of_ne {cs : List Char} (h : ∀ c ∈ cs.head?, c ≠ '.') :
    fraction? cs = some ([], cs) := by
  unfold fraction?
  split
  · exact absurd rfl (h '.' rfl)
  · rfl

theorem exponent?_of_ne {cs : List Char} (h : ∀ c ∈ cs.head?, c ≠ 'e' ∧ c ≠ 'E') :
    exponent? cs = some (none, cs) := by
  unfold exponent?
  split
  · exact absurd rfl (h 'e' rfl).1
  · exact absurd rfl (h 'E' rfl).2
  · rfl

theorem power?_of_ne {cs : List Char} (h : ∀ c ∈ cs.head?, c ≠ '-' ∧ c ≠ '+') :
    power? cs = (digits? cs).map fun (ds, rest) => ((false, ds), rest) := by
  unfold power?
  split
  · exact absurd rfl (h '-' rfl).1
  · exact absurd rfl (h '+' rfl).2
  · rfl

section Append
variable {cs rest tail : List Char}

theorem map_digits?_append {α : Type} {a : α} {f : List Char → α}
    (h : (digits? cs).map (fun p => (f p.1, p.2)) = some (a, rest)) (htail : Delimits tail) :
    (digits? (cs ++ tail)).map (fun p => (f p.1, p.2)) = some (a, rest ++ tail) := by
  obtain ⟨⟨ds, rest⟩, hdigits, heq⟩ := Option.map_eq_some_iff.mp h
  cases heq
  rw [digits?_append hdigits htail]
  rfl

theorem fraction?_append {ds : List Char} (h : fraction? cs = some (ds, rest))
    (htail : Delimits tail) : fraction? (cs ++ tail) = some (ds, rest ++ tail) := by
  cases cs with
  | nil =>
      cases h
      exact fraction?_of_ne fun c hc => (htail c hc).2.1
  | cons d cs =>
      by_cases hd : d = '.'
      · subst hd
        exact digits?_append h htail
      · rw [fraction?_of_ne (by simpa using hd)] at h
        cases h
        exact fraction?_of_ne (by simpa using hd)

theorem power?_append {p : Bool × List Char} (h : power? cs = some (p, rest))
    (htail : Delimits tail) : power? (cs ++ tail) = some (p, rest ++ tail) := by
  cases cs with
  | nil => cases h
  | cons d cs =>
      by_cases hminus : d = '-'
      · subst hminus
        exact map_digits?_append h htail
      · by_cases hplus : d = '+'
        · subst hplus
          exact map_digits?_append h htail
        · rw [power?_of_ne (by simpa using ⟨hminus, hplus⟩)] at h
          rw [power?_of_ne (by simpa using ⟨hminus, hplus⟩)]
          exact map_digits?_append h htail

theorem exponent?_append {p : Option (Bool × List Char)} (h : exponent? cs = some (p, rest))
    (htail : Delimits tail) : exponent? (cs ++ tail) = some (p, rest ++ tail) := by
  have hpower : ∀ {cs}, (power? cs).map (fun q => (some q.1, q.2)) = some (p, rest) →
      (power? (cs ++ tail)).map (fun q => (some q.1, q.2)) = some (p, rest ++ tail) := by
    intro cs h
    obtain ⟨⟨q, rest⟩, hq, heq⟩ := Option.map_eq_some_iff.mp h
    cases heq
    rw [power?_append hq htail]
    rfl
  cases cs with
  | nil =>
      cases h
      exact exponent?_of_ne fun c hc => (htail c hc).2.2
  | cons d cs =>
      by_cases hlower : d = 'e'
      · subst hlower
        exact hpower h
      · by_cases hupper : d = 'E'
        · subst hupper
          exact hpower h
        · rw [exponent?_of_ne (by simpa using ⟨hlower, hupper⟩)] at h
          cases h
          exact exponent?_of_ne (by simpa using ⟨hlower, hupper⟩)

theorem signOf_append (hcs : cs ≠ []) :
    signOf (cs ++ tail) = ((signOf cs).1, (signOf cs).2 ++ tail) := by
  cases cs with
  | nil => exact absurd rfl hcs
  | cons d cs =>
      by_cases hd : d = '-'
      · subst hd
        rfl
      · simp [signOf, hd]

/-- What may follow a number is not read into it. -/
theorem literal?_append {l : Literal} (h : literal? cs = some (l, rest)) (htail : Delimits tail) :
    literal? (cs ++ tail) = some (l, rest ++ tail) := by
  have hcs : cs ≠ [] := by
    rintro rfl
    cases h
  rw [literal?_eq] at h ⊢
  obtain ⟨⟨whole, cs₁⟩, hwhole, h⟩ := Option.bind_eq_some_iff.mp h
  rw [signOf_append hcs, digits?_append hwhole htail, Option.bind_some]
  unfold behindWhole? at h ⊢
  split at h
  · cases h
  · rename_i hzero
    obtain ⟨⟨fraction, cs₂⟩, hfraction, h⟩ := Option.bind_eq_some_iff.mp h
    obtain ⟨⟨power, cs₃⟩, hpower, heq⟩ := Option.map_eq_some_iff.mp h
    cases heq
    simp only [if_neg hzero, fraction?_append hfraction htail, Option.bind_some,
      exponent?_append hpower htail, Option.map_some]

end Append

/-! ## Whole numbers -/

/-- Only zero begins with the digit zero. -/
theorem head?_decimalDigits (n : Nat) (hlength : (decimalDigits n).length ≠ 1) :
    (decimalDigits n).head? ≠ some '0' := by
  unfold decimalDigits at hlength ⊢
  induction n using Nat.strong_induction_on with
  | h n ih =>
      rw [Nat.toDigits_eq_if (by decide)] at hlength ⊢
      by_cases hn : n < 10
      · rw [if_pos hn] at hlength
        exact absurd rfl hlength
      · rw [if_neg hn, List.head?_append_of_ne_nil _ Nat.toDigits_ne_nil]
        by_cases hlast : n / 10 < 10
        · have hdigit : ∀ d < 10, 0 < d → Nat.digitChar d ≠ '0' := by decide
          rw [Nat.toDigits_of_lt_base hlast, List.head?_cons]
          exact fun h => hdigit _ hlast (by omega) (Option.some.inj h)
        · refine ih (n / 10) (by omega) ?_
          rw [Nat.toDigits_eq_if (by decide), if_neg hlast, List.length_append]
          have hrest : 0 < (Nat.toDigits 10 (n / 10 / 10)).length := Nat.length_toDigits_pos
          exact Nat.ne_of_gt (Nat.lt_add_of_pos_left hrest)

theorem literal?_decimalDigits (n : Nat) {tail : List Char} (htail : Delimits tail) :
    literal? (decimalDigits n ++ tail) = some (⟨false, decimalDigits n, [], none⟩, tail) := by
  have hdigits := Expr.isDigits_decimalDigits n
  have hsign : signOf (decimalDigits n) = (false, decimalDigits n) := by
    unfold signOf
    split
    · rename_i h
      have hminus := hdigits.2 '-' (h ▸ List.mem_cons_self)
      cases hminus
    · rfl
  have hwhole : digits? (decimalDigits n) = some (decimalDigits n, []) := by
    have h : digits? (decimalDigits n ++ []) = some (decimalDigits n, []) :=
      digits?_eq_some hdigits nofun
    rwa [List.append_nil] at h
  have hliteral : literal? (decimalDigits n) = some (⟨false, decimalDigits n, [], none⟩, []) := by
    rw [literal?_eq, hsign, hwhole, Option.bind_some]
    unfold behindWhole?
    rw [if_neg fun h => head?_decimalDigits n h.1 h.2]
    rfl
  exact literal?_append hliteral htail

theorem value_decimalDigits {n : Nat} (hn : n < 2 ^ (64 : Nat)) :
    Literal.value ⟨false, decimalDigits n, [], none⟩ = .natural n := by
  simp only [Literal.value, Expr.ofDigits_decimalDigits]
  rw [if_pos ⟨trivial, trivial, hn⟩]
  rfl

/-! ## Strings -/

theorem hexUnit?_hexDigitLower {n : Nat} (hn : n < 32) :
    hexUnit? '0' '0' (hexDigitLower (n / 16)) (hexDigitLower (n % 16)) = some n := by
  have hall : ∀ n < 32,
      hexUnit? '0' '0' (hexDigitLower (n / 16)) (hexDigitLower (n % 16)) = some n := by decide
  exact hall n hn

theorem units?_letter {e c : Char} (he : e ≠ 'u') (h : unescape? e = some c) (rest : List Char) :
    units? ('\\' :: e :: rest) = (units? rest).map fun p => (c.toNat :: p.1, p.2) := by
  rw [units?.eq_4 _ _ (by rintro _ _ _ _ _ rfl _; exact he rfl), h]
  cases units? rest <;> rfl

/-- A character comes back from its escape. -/
theorem units?_escape (c : Char) (rest : List Char) : units? (escape c ++ rest) =
    (units? rest).map fun p => (c.toNat :: p.1, p.2) := by
  unfold escape
  split_ifs with hquote hback _ _ _ _ _ hcontrol
  -- The seven characters with a letter of their own.
  any_goals
    subst_vars
    exact units?_letter (by decide) rfl rest
  · change units? ('\\' :: 'u' :: '0' :: '0' :: _ :: _ :: rest) = _
    rw [units?, hexUnit?_hexDigitLower hcontrol]
    cases units? rest <;> rfl
  · change units? (c :: rest) = _
    rw [units?.eq_def]
    split
    · rename_i heq; cases heq
    · rename_i heq; cases heq; exact absurd rfl hquote
    · rename_i heq; cases heq; exact absurd rfl hback
    · rename_i heq; cases heq; exact absurd rfl hback
    · rename_i heq
      cases heq
      rw [if_neg hcontrol]
      cases units? rest <;> rfl

theorem units?_quote (cs tail : List Char) :
    units? (cs.flatMap escape ++ '"' :: tail) = some (cs.map Char.toNat, tail) := by
  induction cs with
  | nil => rfl
  | cons c cs ih =>
      rw [List.flatMap_cons, List.append_assoc, units?_escape, ih]
      rfl

/-- No character is a surrogate. -/
theorem not_surrogate (c : Char) :
    isHighSurrogate c.toNat = false ∧ isLowSurrogate c.toNat = false := by
  have hvalid : c.toNat < 0xD800 ∨ 0xDFFF < c.toNat ∧ c.toNat < 0x110000 := c.valid
  simp only [isHighSurrogate, isLowSurrogate, Bool.and_eq_false_iff, decide_eq_false_iff_not]
  omega

theorem pairUp?_toNat (cs : List Char) : pairUp? (cs.map Char.toNat) = some cs := by
  induction cs with
  | nil => rfl
  | cons c cs ih =>
      obtain ⟨hhigh, hlow⟩ := not_surrogate c
      cases cs with
      | nil => simp [pairUp?, hhigh, hlow]
      | cons d cs =>
          simp only [List.map_cons] at ih ⊢
          rw [pairUp?, hhigh, hlow, ih]
          simp

theorem decodeUnits_toNat (s : String) : decodeUnits (s.toList.map Char.toNat) = some s := by
  rw [decodeUnits, pairUp?_toNat, Option.map_some, String.ofList_toList]

end SExprViewer.Json
