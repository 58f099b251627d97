import SExprViewer.Proofs.Json.Tokens

/-! # Real numbers are written as standard numbers

A decimal is laid out positionally (`isNumber_plain_whole`, `isNumber_plain_fraction`) or with an
exponent (`isNumber_scientific`), in each case as a number that spells an equal decimal.  The
decimal of a finite double lies in its rounding interval, so what is written rounds to the double
(`exists_isNumber_realText`). -/
set_option autoImplicit false

namespace SExprViewer.Json

open SExprViewer.Expr (IsDigits sign)

variable {ds : List Char}

/-! ## Layouts -/

theorem decimalDigits_zero_or (n : Nat) :
    decimalDigits n = ['0'] ∨ (decimalDigits n).head? ≠ some '0' := by
  by_cases hlength : (decimalDigits n).length = 1
  · obtain ⟨c, hc⟩ := List.length_eq_one_iff.mp hlength
    rw [hc]
    by_cases hzero : c = '0'
    · exact .inl (by rw [hzero])
    · exact .inr fun h => hzero (Option.some.inj h)
  · exact .inr (head?_decimalDigits n hlength)

theorem head?_decimalDigits_of_pos {n : Nat} (hn : 0 < n) :
    (decimalDigits n).head? ≠ some '0' := by
  refine (decimalDigits_zero_or n).resolve_left fun hzero => ?_
  have hvalue := Expr.ofDigits_decimalDigits n
  rw [hzero] at hvalue
  exact hn.ne hvalue

theorem isNumber_decimalDigits (n : Nat) : IsNumber (decimalDigits n) (Decimal.ofNat n) := by
  have h := @IsNumber.intro false _ _ _ _ _ (Expr.isDigits_decimalDigits n)
    (decimalDigits_zero_or n) .none .none
  simpa [sign, Expr.ofDigits_decimalDigits, Decimal.ofNat] using h

theorem isNumber_zero (negative : Bool) :
    IsNumber (sign negative ++ ['0', '.', '0']) ⟨negative, 0, -1⟩ :=
  @IsNumber.intro negative _ _ _ _ _ Expr.isDigits_zero (.inl rfl) (.digits Expr.isDigits_zero)
    .none

theorem isNumber_plain_whole (hds : IsDigits ds) (hhead : ds.head? ≠ some '0') (negative : Bool)
    (n : Nat) : IsNumber (sign negative ++ (Decimal.plain ds n ++ ['.', '0']))
      ⟨negative, Decimal.ofDigits ds * 10 ^ n * 10, -1⟩ := by
  have hwhole : IsDigits (ds ++ List.replicate n '0') :=
    Expr.IsDigits.append hds.2 (Expr.isDigit_zeros n) (by simp [hds.1])
  have hzero : (ds ++ List.replicate n '0').head? ≠ some '0' := by
    rwa [List.head?_append_of_ne_nil _ hds.1]
  have h := @IsNumber.intro negative _ _ _ _ _ hwhole (.inr hzero)
    (.digits Expr.isDigits_zero) .none
  rw [show ['0'] = List.replicate 1 '0' from rfl, Expr.ofDigits_append_zeros,
    Expr.ofDigits_append_zeros] at h
  exact h

theorem isNumber_plain_fraction (hds : IsDigits ds) (hhead : ds.head? ≠ some '0')
    (negative : Bool) (n : Nat) : IsNumber (sign negative ++ Decimal.plain ds (.negSucc n))
      ⟨negative, Decimal.ofDigits ds, .negSucc n⟩ := by
  obtain ⟨whole, fs, hplain, hwhole, hfraction, hvalue, hlength, hzero⟩ :=
    Expr.exists_plain_negSucc hds n
  have hzero' : whole = ['0'] ∨ whole.head? ≠ some '0' := 
    hzero.imp_right fun heq => heq.trans_ne hhead
  have h := @IsNumber.intro negative _ _ _ _ _ hwhole hzero' (.digits hfraction) .none
  rw [hvalue, hlength, List.append_nil] at h
  rw [hplain]
  exact h

theorem isExponent_power (power : Int) :
    IsExponent ('e' :: (if power < 0 then '-' else '+') :: decimalDigits power.natAbs) power := by
  have hdigits := Expr.isDigits_decimalDigits power.natAbs
  have hvalue := Expr.ofDigits_decimalDigits power.natAbs
  split
  · have h := IsExponent.minus (.inl rfl) hdigits
    rwa [hvalue, show -(power.natAbs : Int) = power by omega] at h
  · have h := IsExponent.plus (.inl rfl) hdigits
    rwa [hvalue, show (power.natAbs : Int) = power by omega] at h

theorem isNumber_scientific (hds : IsDigits ds) (hhead : ds.head? ≠ some '0') (negative : Bool)
    (e : Int) : IsNumber (sign negative ++ Decimal.scientific ds e)
      ⟨negative, Decimal.ofDigits ds, e⟩ := by
  have hexponent := isExponent_power (e + ds.length - 1)
  match ds, hds with
  | [d], hds =>
      have h := @IsNumber.intro negative _ _ _ _ _ hds (.inr hhead) .none hexponent
      have hpower : e + ([d].length : Nat) - 1 - (0 : Nat) = e := by
        rw [List.length_singleton]
        omega
      rw [List.append_nil, List.length_nil, hpower] at h
      exact h
  | d :: c :: ds, hds =>
      have hwhole : IsDigits [d] := ⟨List.cons_ne_nil _ _, fun a ha =>
        hds.2 a (List.mem_singleton.mp ha ▸ List.mem_cons_self)⟩
      have hfraction : IsDigits (c :: ds) :=
        ⟨List.cons_ne_nil _ _, fun a ha => hds.2 a (List.mem_cons_of_mem d ha)⟩
      have h := @IsNumber.intro negative _ _ _ _ _ hwhole (.inr hhead) (.digits hfraction)
        hexponent
      have hpower : e + ((d :: c :: ds).length : Nat) - 1 - ((c :: ds).length : Nat) = e := by
        simp only [List.length_cons]
        omega
      rw [hpower] at h
      exact h

/-! ## Doubles -/

theorem realText_of_finite {x : Float} {negative : Bool} {m s : Nat}
    (hx : Binary.ofDouble x = .finite negative m s) : realText x =
      sign negative ++ if m = 0 then ['0', '.', '0'] else
        layoutReal (decimalDigits (shortest .double .toEven m s).1)
          (shortest .double .toEven m s).2 := by
  simp only [realText, hx, Binary.text, sign]

theorem realText_of_not_finite {x : Float} (hx : x.isFinite ≠ true) :
    realText x = ['n', 'u', 'l', 'l'] := by
  unfold realText
  split
  · rename_i negative m s hvalue
    exact absurd ((isFinite_iff x).mpr ⟨negative, m, s, hvalue⟩) hx
  · rfl

/-- What is laid out of a decimal in the rounding interval of a double rounds to the double. -/
theorem exists_isNumber_layoutReal {x : Float} {negative : Bool} {m s digits : Nat} {e : Int}
    (hx : Binary.ofDouble x = .finite negative m s) (hm : 0 < m)
    (h : (RoundingInterval.ofFinite .double m s).Holds (digits * 10 ^ e.toNat)
      (10 ^ (-e).toNat)) :
    ∃ d, IsNumber (sign negative ++ layoutReal (decimalDigits digits) e) d ∧ d.toFloat = x := by
  have hds := Expr.isDigits_decimalDigits digits
  have hvalue := Expr.ofDigits_decimalDigits digits
  have hpos : 0 < digits :=
    Nat.pos_of_mul_pos_right (pos_of_holds hm (Nat.pow_pos (by decide)) h)
  have hhead := head?_decimalDigits_of_pos hpos
  unfold layoutReal
  dsimp only
  split
  · have hnumber := isNumber_scientific hds hhead negative e
    rw [hvalue] at hnumber
    exact ⟨_, hnumber, toFloat_of_holds hm hx h⟩
  · cases e with
    | ofNat n =>
        have hnumber := isNumber_plain_whole hds hhead negative n
        rw [hvalue] at hnumber
        have hsign : 0 ≤ Int.ofNat n := Int.natCast_nonneg n
        rw [if_pos hsign]
        refine ⟨_, hnumber, toFloat_of_holds hm hx ?_⟩
        simpa using h.mul (k := 10) (by decide)
    | negSucc n =>
        have hnumber := isNumber_plain_fraction hds hhead negative n
        rw [hvalue] at hnumber
        exact ⟨_, hnumber, toFloat_of_holds hm hx h⟩

/-- A finite number is written as a decimal that rounds to it. -/
theorem exists_isNumber_realText {x : Float} (hx : x.isFinite = true) :
    ∃ d, IsNumber (realText x) d ∧ d.toFloat = x := by
  obtain ⟨negative, m, s, hvalue⟩ := (isFinite_iff x).mp hx
  rw [realText_of_finite hvalue]
  by_cases hm : m = 0
  · subst hm
    exact ⟨_, isNumber_zero negative, toFloat_zero (-1) hvalue⟩
  · rw [if_neg hm]
    exact exists_isNumber_layoutReal hvalue (Nat.pos_of_ne_zero hm)
      (shortest_holds .double .toEven (Nat.pos_of_ne_zero hm) rfl)

end SExprViewer.Json
