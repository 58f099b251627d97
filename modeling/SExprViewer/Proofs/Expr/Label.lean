import SExprViewer.Proofs.Expr.Word
import SExprViewer.Proofs.Number.ReadBack

/-! # Labels of numbers

The label of a finite number is a numeral that reads back as an equal number
(`exists_isNumeral_label`).  The labels of the others are words and no numerals. -/
set_option autoImplicit false

namespace SExprViewer.Expr

/-! ## Digits -/

theorem IsDigits.append {ds fs : List Char} (hds : ∀ c ∈ ds, c.isDigit = true)
    (hfs : ∀ c ∈ fs, c.isDigit = true) (hne : ds ++ fs ≠ []) : IsDigits (ds ++ fs) := by
  refine ⟨hne, ?_⟩
  intro c hc
  exact (List.mem_append.mp hc).elim (hds c) (hfs c)

theorem isDigit_zeros (n : Nat) : ∀ c ∈ List.replicate n '0', c.isDigit = true := by
  intro c hc
  rw [List.eq_of_mem_replicate hc]
  rfl

theorem isDigits_zero : IsDigits ['0'] := ⟨List.cons_ne_nil _ _, isDigit_zeros 1⟩

theorem isDigits_decimalDigits (n : Nat) : IsDigits (decimalDigits n) :=
  ⟨Nat.toDigits_ne_nil, fun _ hc => Nat.isDigit_of_mem_toDigits (by decide) (by decide) hc⟩

theorem ofDigits_eq (ds : List Char) : Decimal.ofDigits ds = Nat.ofDigitChars 10 ds 0 :=
  Nat.ofDigitChars_eq_foldl.symm

theorem ofDigits_decimalDigits (n : Nat) : Decimal.ofDigits (decimalDigits n) = n := by
  rw [ofDigits_eq]
  exact Nat.ofDigitChars_ten_toDigits

theorem ofDigits_zeros_append (n : Nat) (ds : List Char) :
    Decimal.ofDigits (List.replicate n '0' ++ ds) = Decimal.ofDigits ds := by
  rw [ofDigits_eq, ofDigits_eq, Nat.ofDigitChars_append, Nat.ofDigitChars_replicate_zero,
    Nat.mul_zero]

theorem ofDigits_append_zeros (ds : List Char) (n : Nat) :
    Decimal.ofDigits (ds ++ List.replicate n '0') = Decimal.ofDigits ds * 10 ^ n := by
  rw [ofDigits_eq, ofDigits_eq, Nat.ofDigitChars_append, Nat.ofDigitChars_replicate_zero,
    Nat.mul_comm]

/-! ## Positional texts -/

/-- With a fraction, a positional text spells its digits in two parts. -/
theorem exists_plain_negSucc {ds : List Char} (hds : IsDigits ds) (n : Nat) :
    ∃ whole fs, Decimal.plain ds (.negSucc n) = whole ++ '.' :: fs ∧ IsDigits whole ∧
      IsDigits fs ∧ Decimal.ofDigits (whole ++ fs) = Decimal.ofDigits ds ∧ fs.length = n + 1 ∧
      (whole = ['0'] ∨ whole.head? = ds.head?) := by
  simp only [Decimal.plain]
  split
  · rename_i hplaces
    have hwhole : IsDigits (ds.take (ds.length - (n + 1))) :=
      ⟨List.ne_nil_of_length_pos (by rw [List.length_take]; omega),
        fun c hc => hds.2 c (List.mem_of_mem_take hc)⟩
    have hfraction : IsDigits (ds.drop (ds.length - (n + 1))) :=
      ⟨List.ne_nil_of_length_pos (by rw [List.length_drop]; omega),
        fun c hc => hds.2 c (List.mem_of_mem_drop hc)⟩
    refine ⟨_, _, rfl, hwhole, hfraction, by rw [List.take_append_drop],
      by rw [List.length_drop, Nat.sub_sub_self (by omega)], .inr ?_⟩
    rw [List.head?_take, if_neg (by omega)]
  · rename_i hplaces
    have hfraction : IsDigits (List.replicate (n + 1 - ds.length) '0' ++ ds) :=
      IsDigits.append (isDigit_zeros _) hds.2 (by simp [hds.1])
    have hvalue : Decimal.ofDigits
        (['0'] ++ (List.replicate (n + 1 - ds.length) '0' ++ ds)) = Decimal.ofDigits ds :=
      (ofDigits_zeros_append 1 _).trans (ofDigits_zeros_append _ ds)
    refine ⟨['0'], _, rfl, isDigits_zero, hfraction, hvalue, ?_, .inl rfl⟩
    rw [List.length_append, List.length_replicate, Nat.sub_add_cancel (by omega)]

/-- A positional text is a numeral of the value that it lays out. -/
theorem isNumeral_plain {ds : List Char} (hds : IsDigits ds) (negative : Bool) (e : Int) :
    IsNumeral (sign negative ++ Decimal.plain ds e)
      ⟨negative, Decimal.ofDigits ds * 10 ^ e.toNat, min e 0⟩ := by
  cases e with
  | ofNat n =>
      have hzeros : IsDigits (ds ++ List.replicate n '0') :=
        IsDigits.append hds.2 (isDigit_zeros n) (by simp [hds.1])
      have hmin : min (Int.ofNat n) 0 = 0 := by simp
      have h := @IsNumeral.whole negative _ hzeros
      rw [ofDigits_append_zeros] at h
      rw [hmin]
      exact h
  | negSucc n =>
      obtain ⟨whole, fs, hplain, hwhole, hfraction, hvalue, hlength, -⟩ :=
        exists_plain_negSucc hds n
      have hmin : min (Int.negSucc n) 0 = -(fs.length : Int) := by omega
      have hpow : Decimal.ofDigits ds * 10 ^ (Int.negSucc n).toNat = Decimal.ofDigits ds := by
        simp
      rw [hplain, hmin, hpow, ← hvalue]
      exact IsNumeral.fraction hwhole hfraction

/-! ## Numbers -/

theorem plainText_of_finite {x : Float} {negative : Bool} {m s : Nat}
    (hx : Binary.ofDouble x = .finite negative m s) (hm : m ≠ 0) : plainText x =
      sign negative ++ Decimal.plain (decimalDigits (shortest .double .awayFromZero m s).1)
        (shortest .double .awayFromZero m s).2 := by
  simp only [plainText, hx, Binary.text, if_neg hm, sign]

/-- The label of a finite number is a numeral of an equal number. -/
theorem exists_isNumeral_label {x : Float} (hx : x.isFinite = true) :
    ∃ d, IsNumeral (Atom.label (.number x)) d ∧ (d.toFloat == x) = true := by
  by_cases hzero : (x == 0) = true
  · refine ⟨⟨false, 0, 0⟩, ?_, (float_beq_comm 0 x).trans hzero⟩
    simp only [Atom.label, if_pos hzero]
    exact @IsNumeral.whole false _ isDigits_zero
  · obtain ⟨negative, m, s, hvalue⟩ := (isFinite_iff x).mp hx
    have hm : m ≠ 0 := by
      rintro rfl
      obtain ⟨-, -, hscale, -⟩ := of_decode_finite x.toBits.toNat_lt hvalue
      obtain rfl : s = 0 := by omega
      exact hzero ((beq_zero_iff x).mpr ⟨negative, hvalue⟩)
    cases hshortest : shortest .double .awayFromZero m s with
    | mk digits exponent =>
      have hholds := shortest_holds .double .awayFromZero (Nat.pos_of_ne_zero hm) hshortest
      have hnumeral := isNumeral_plain (isDigits_decimalDigits digits) negative exponent
      rw [ofDigits_decimalDigits] at hnumeral
      have hfloat :
          Decimal.toFloat ⟨negative, digits * 10 ^ exponent.toNat, min exponent 0⟩ = x := by
        refine toFloat_of_holds (Nat.pos_of_ne_zero hm) hvalue ?_
        have hnum : (min exponent 0).toNat = 0 := by omega
        have hden : (-(min exponent 0)).toNat = (-exponent).toNat := by omega
        simp only [hnum, hden, Nat.pow_zero, Nat.mul_one]
        exact hholds
      refine ⟨_, ?_, by rw [hfloat]; exact beq_self_of_isFinite hx⟩
      simp only [Atom.label, if_neg hzero, plainText_of_finite hvalue hm, hshortest]
      exact hnumeral

/-- The label of any other number is a word that is no numeral. -/
theorem label_of_not_finite {x : Float} (hx : x.isFinite ≠ true) :
    IsWord (Atom.label (.number x)) ∧ numeral? (Atom.label (.number x)) = none := by
  have hzero : (x == 0) ≠ true := by
    intro h
    obtain ⟨negative, hvalue⟩ := (beq_zero_iff x).mp h
    exact hx ((isFinite_iff x).mpr ⟨negative, 0, 0, hvalue⟩)
  simp only [Atom.label, if_neg hzero, plainText]
  cases hvalue : Binary.ofDouble x with
  | nan => exact ⟨by simp [Binary.text, IsWord, isWordChar, isWhite, isQuote], by decide⟩
  | infinite negative =>
      constructor
      · cases negative <;> simp [Binary.text, IsWord, isWordChar, isWhite, isQuote]
      · cases negative <;> decide
  | finite negative m s => exact absurd ((isFinite_iff x).mpr ⟨negative, m, s, hvalue⟩) hx

end SExprViewer.Expr
