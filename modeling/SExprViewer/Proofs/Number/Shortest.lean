import SExprViewer.Proofs.Number.Rounding

/-! # Shortest decimals round back

The decimal that `shortest` gives lies in the rounding interval of its value, on whichever
grid it was found, and so does the exact decimal that stands in when no grid is met
(`shortest_holds`). -/
set_option autoImplicit false

namespace SExprViewer

namespace RoundingInterval

variable {i : RoundingInterval}

/-- The value of the interval lies in it, and so does what lies between it and a bound. -/
theorem holds_iff {num den : Nat} : i.Holds num den ↔
    (i.low * den < num * i.unit ∨ i.closed = true ∧ i.low * den = num * i.unit) ∧
      (num * i.unit < i.high * den ∨ i.closed = true ∧ num * i.unit = i.high * den) := by
  unfold Holds
  cases i.closed with
  | true => simp only [if_true, true_and, Nat.le_iff_lt_or_eq]
  | false => simp

theorem holds_of_eq {num den : Nat} (hlow : i.low < i.value) (hhigh : i.value < i.high)
    (hden : 0 < den) (h : num * i.unit = i.value * den) : i.Holds num den := by
  rw [holds_iff, h]
  exact ⟨Or.inl (Nat.mul_lt_mul_of_pos_right hlow hden),
    Or.inl (Nat.mul_lt_mul_of_pos_right hhigh hden)⟩

/-- Whether a fraction lies in an interval does not depend on how it is expanded. -/
theorem Holds.mul {num den k : Nat} (h : i.Holds num den) (hk : 0 < k) :
    i.Holds (num * k) (den * k) := by
  rw [holds_iff] at h ⊢
  have hlow : i.low * (den * k) = i.low * den * k := by ring
  have hnum : num * k * i.unit = num * i.unit * k := by ring
  have hhigh : i.high * (den * k) = i.high * den * k := by ring
  rw [hlow, hnum, hhigh, Nat.mul_lt_mul_right hk, Nat.mul_lt_mul_right hk,
    Nat.mul_right_cancel_iff hk, Nat.mul_right_cancel_iff hk]
  exact h

theorem lt_or_eq_of_within {closed : Bool} {a b : Nat}
    (h : if closed = true then a ≤ b else a < b) : a < b ∨ closed = true ∧ a = b := by
  split at h
  · rename_i hclosed
    exact (Nat.lt_or_eq_of_le h).imp_right fun heq => ⟨hclosed, heq⟩
  · exact Or.inl h

theorem onGrid?_holds {tie : TieRule} {exponent : Int} {digits : Nat} (hlow : i.low < i.value)
    (hhigh : i.value < i.high) (hunit : 0 < i.unit) (h : i.onGrid? tie exponent = some digits) :
    i.Holds (digits * 10 ^ exponent.toNat) (10 ^ (-exponent).toNat) := by
  have hrefine : 0 < 10 ^ (-exponent).toNat := Nat.pow_pos (by decide)
  have hgrid : 0 < i.unit * 10 ^ exponent.toNat := Nat.mul_pos hunit (Nat.pow_pos (by decide))
  have hlow' := Nat.mul_lt_mul_of_pos_right hlow hrefine
  have hhigh' := Nat.mul_lt_mul_of_pos_right hhigh hrefine
  have hnum : ∀ k, k * 10 ^ exponent.toNat * i.unit = k * (i.unit * 10 ^ exponent.toNat) := by
    intro k
    ring
  unfold onGrid? at h
  dsimp only at h
  rw [holds_iff, hnum]
  generalize i.unit * 10 ^ exponent.toNat = grid at *
  generalize 10 ^ (-exponent).toNat = refine at *
  -- the two neighbours of the value on the grid
  have hbelow : i.value * refine / grid * grid ≤ i.value * refine := Nat.div_mul_le_self _ _
  have habove : i.value * refine < (i.value * refine / grid + 1) * grid := by
    rw [Nat.succ_mul]
    exact Nat.lt_div_mul_add hgrid
  generalize i.value * refine / grid = q at *
  have hdown (hin : if i.closed = true then i.low * refine ≤ q * grid
        else i.low * refine < q * grid) :
      (i.low * refine < q * grid ∨ i.closed = true ∧ i.low * refine = q * grid) ∧
        (q * grid < i.high * refine ∨ i.closed = true ∧ q * grid = i.high * refine) :=
    ⟨lt_or_eq_of_within hin, Or.inl (by omega)⟩
  have hup (hin : if i.closed = true then (q + 1) * grid ≤ i.high * refine
        else (q + 1) * grid < i.high * refine) :
      (i.low * refine < (q + 1) * grid ∨ i.closed = true ∧ i.low * refine = (q + 1) * grid) ∧
        ((q + 1) * grid < i.high * refine ∨
          i.closed = true ∧ (q + 1) * grid = i.high * refine) :=
    ⟨Or.inl (by omega), lt_or_eq_of_within hin⟩
  by_cases hin : (if i.closed = true then i.low * refine ≤ q * grid
      else i.low * refine < q * grid)
  · rw [if_pos hin] at h
    by_cases hin' : (if i.closed = true then (q + 1) * grid ≤ i.high * refine
        else (q + 1) * grid < i.high * refine)
    · rw [if_pos hin'] at h
      split at h
      · cases h
        exact hdown hin
      · split at h
        · cases h
          exact hup hin'
        · cases tie with
          | awayFromZero =>
              cases h
              exact hup hin'
          | toEven =>
              cases h
              rcases Nat.mod_two_eq_zero_or_one q with hq | hq
              · rw [hq]
                exact hdown hin
              · rw [hq]
                exact hup hin'
    · rw [if_neg hin'] at h
      cases h
      exact hdown hin
  · rw [if_neg hin] at h
    by_cases hin' : (if i.closed = true then (q + 1) * grid ≤ i.high * refine
        else (q + 1) * grid < i.high * refine)
    · rw [if_pos hin'] at h
      cases h
      exact hup hin'
    · rw [if_neg hin'] at h
      cases h

theorem search_holds {tie : TieRule} {digits : Nat} {exponent : Int} (hlow : i.low < i.value)
    (hhigh : i.value < i.high) (hunit : 0 < i.unit) : ∀ (steps : Nat) (start : Int),
    i.search tie steps start = some (digits, exponent) →
      i.Holds (digits * 10 ^ exponent.toNat) (10 ^ (-exponent).toNat) := by
  intro steps
  induction steps with
  | zero =>
      intro start h
      cases h
  | succ steps ih =>
      intro start h
      unfold search at h
      split at h
      · rename_i k hk
        cases h
        exact onGrid?_holds hlow hhigh hunit hk
      · exact ih (start - 1) h

theorem ofFinite_bounds (f : BinaryFormat) {m : Nat} (s : Nat) (hm : 0 < m) :
    (ofFinite f m s).low < (ofFinite f m s).value ∧
      (ofFinite f m s).value < (ofFinite f m s).high ∧ 0 < (ofFinite f m s).unit := by
  have hup : 0 < 2 ^ (s - f.unitExponent) := Nat.two_pow_pos _
  simp only [ofFinite]
  refine ⟨Nat.mul_lt_mul_of_pos_right ?_ hup, Nat.mul_lt_mul_of_pos_right ?_ hup,
    Nat.mul_pos (by decide) (Nat.two_pow_pos _)⟩
  · split <;> omega
  · omega

end RoundingInterval

theorem exactDecimal_eq (f : BinaryFormat) (m s : Nat) {digits : Nat} {exponent : Int}
    (h : exactDecimal f m s = (digits, exponent)) :
    digits * 10 ^ exponent.toNat * (RoundingInterval.ofFinite f m s).unit =
      (RoundingInterval.ofFinite f m s).value * 10 ^ (-exponent).toNat := by
  unfold exactDecimal at h
  simp only [RoundingInterval.ofFinite]
  split at h
  · rename_i hle
    cases h
    rw [Nat.sub_eq_zero_of_le hle]
    simp only [Int.toNat_zero, Int.neg_zero, Nat.pow_zero, Nat.mul_one]
    ring
  · rename_i hlt
    cases h
    rw [Nat.sub_eq_zero_of_le (Nat.le_of_not_le hlt), Int.neg_neg, Int.toNat_natCast,
      Int.toNat_neg_natCast]
    simp only [Nat.pow_zero, Nat.mul_one]
    rw [show 10 = 5 * 2 from rfl, Nat.mul_pow]
    ring

/-- The shortest decimal of a value lies in the rounding interval of the value. -/
theorem shortest_holds (f : BinaryFormat) (tie : TieRule) {m s digits : Nat} {exponent : Int}
    (hm : 0 < m) (h : shortest f tie m s = (digits, exponent)) :
    (RoundingInterval.ofFinite f m s).Holds (digits * 10 ^ exponent.toNat)
      (10 ^ (-exponent).toNat) := by
  obtain ⟨hlow, hhigh, hunit⟩ := RoundingInterval.ofFinite_bounds f s hm
  unfold shortest at h
  cases hsearch : (RoundingInterval.ofFinite f m s).search tie 30
      (decimalExponentAbove f m s) with
  | some found =>
      rw [hsearch] at h
      obtain rfl : found = (digits, exponent) := h
      exact RoundingInterval.search_holds hlow hhigh hunit 30 _ hsearch
  | none =>
      rw [hsearch] at h
      exact RoundingInterval.holds_of_eq hlow hhigh (Nat.pow_pos (by decide))
        (exactDecimal_eq f m s h)

end SExprViewer
