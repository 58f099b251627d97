import SExprViewer.Number.Shortest
import Mathlib.Tactic.Ring

/-! # Rounding to the nearest value

A fraction that lies in the rounding interval of a finite value is rounded to that value
(`nearest_of_holds`).  The interval reaches half a unit of the value's scale up and down,
and a quarter down where the scale below is finer; there a fraction may fit the finer
scale, and its significand rounds up to the next power of two, which carries. -/
set_option autoImplicit false

namespace SExprViewer

/-- `num / den` lies in the interval. -/
def RoundingInterval.Holds (i : RoundingInterval) (num den : Nat) : Prop :=
  if i.closed then i.low * den ≤ num * i.unit ∧ num * i.unit ≤ i.high * den
  else i.low * den < num * i.unit ∧ num * i.unit < i.high * den

/-- The significand is that of a value at its own scale. -/
structure BinaryFormat.Canonical (f : BinaryFormat) (significand scale : Nat) : Prop where
  positive : 0 < significand
  below : significand < 2 ^ (f.fractionBits + 1)
  normal : scale = 0 ∨ 2 ^ f.fractionBits ≤ significand

theorem roundHalfEven_eq {num den m : Nat} (hden : 0 < den)
    (hlow : 2 * (m * den) ≤ 2 * num + den) (hhigh : 2 * num ≤ 2 * (m * den) + den)
    (hodd : m % 2 = 1 → 2 * (m * den) < 2 * num + den ∧ 2 * num < 2 * (m * den) + den) :
    roundHalfEven num den = m := by
  have hdiv : num / den * den + num % den = num := Nat.div_add_mod' num den
  have hmod : num % den < den := Nat.mod_lt num hden
  unfold roundHalfEven
  dsimp only
  generalize num / den = q at *
  generalize num % den = r at *
  have hge : q ≤ m := by
    by_contra h
    have hmul := Nat.mul_le_mul_right den (Nat.lt_of_not_le h)
    rw [Nat.succ_mul] at hmul
    omega
  have hle : m ≤ q + 1 := by
    by_contra h
    have hmul := Nat.mul_le_mul_right den (Nat.lt_of_not_le h)
    rw [Nat.succ_mul, Nat.succ_mul] at hmul
    omega
  rcases Nat.eq_or_lt_of_le hge with rfl | hlt
  · have hhalf : 2 * r ≤ den := by omega
    have htie : 2 * r = den → q % 2 = 0 := by
      intro hr
      by_contra hq
      have := (hodd (by omega)).2
      omega
    split
    · rfl
    · rw [if_neg (by omega), htie (by omega), Nat.add_zero]
  · obtain rfl : m = q + 1 := by omega
    rw [Nat.add_mul, Nat.one_mul] at hlow hhigh hodd
    have hhalf : den ≤ 2 * r := by omega
    have htie : 2 * r = den → q % 2 = 1 := by
      intro hr
      by_contra hq
      have := (hodd (by omega)).1
      omega
    rw [if_neg (by omega)]
    split
    · rfl
    · rw [htie (by omega)]

theorem div_le_roundHalfEven (num den : Nat) : num / den ≤ roundHalfEven num den := by
  unfold roundHalfEven
  dsimp only
  split
  · exact Nat.le_refl _
  · split <;> omega

theorem roundHalfEven_le (num den : Nat) : roundHalfEven num den ≤ num / den + 1 := by
  unfold roundHalfEven
  dsimp only
  split
  · omega
  · split <;> omega

/-- What is more than half a unit above a whole number is rounded beyond it, and what is half a
unit above an odd one. -/
theorem lt_roundHalfEven_iff {num den q : Nat} (hden : 0 < den) :
    q < roundHalfEven num den ↔
      (2 * q + 1) * den < 2 * num ∨ ((2 * q + 1) * den = 2 * num ∧ q % 2 = 1) := by
  have hdiv : num / den * den + num % den = num := Nat.div_add_mod' num den
  have hmod : num % den < den := Nat.mod_lt num hden
  have hlow := div_le_roundHalfEven num den
  have hhigh := roundHalfEven_le num den
  have hexpand : (2 * q + 1) * den = 2 * (q * den) + den := by ring
  rw [hexpand]
  rcases Nat.lt_trichotomy (num / den) q with hlt | heq | hgt
  · have hmul := Nat.mul_le_mul_right den (Nat.succ_le_of_lt hlt)
    rw [Nat.succ_mul] at hmul
    omega
  · unfold roundHalfEven
    dsimp only
    rw [heq] at hdiv ⊢
    split
    · omega
    · split <;> omega
  · have hmul := Nat.mul_le_mul_right den (Nat.succ_le_of_lt hgt)
    rw [Nat.succ_mul] at hmul
    omega

theorem log2_div_eq {num den k : Nat} (hden : 0 < den) (hlow : 2 ^ k * den ≤ num)
    (hhigh : num < 2 ^ (k + 1) * den) : Nat.log2 (num / den) = k := by
  have hle : 2 ^ k ≤ num / den := (Nat.le_div_iff_mul_le hden).mpr hlow
  have hlt : num / den < 2 ^ (k + 1) := (Nat.div_lt_iff_lt_mul hden).mpr hhigh
  have hpos := Nat.two_pow_pos k
  exact (Nat.log2_eq_iff (by omega)).mpr ⟨hle, hlt⟩

theorem log2_div_le {num den k : Nat} (hden : 0 < den) (hhigh : num < 2 ^ (k + 1) * den) :
    Nat.log2 (num / den) ≤ k := by
  by_cases hzero : num / den = 0
  · rw [hzero]
    exact Nat.zero_le k
  · have hlt : num / den < 2 ^ (k + 1) := (Nat.div_lt_iff_lt_mul hden).mpr hhigh
    exact Nat.le_of_lt_succ ((Nat.log2_lt hzero).mpr hlt)

/-! ## The interval in units -/

/-- `num / den` units are at most half a unit of the scale away from `m` of them, strictly so
for an odd `m`; above the finer scale of a power of two, at most a quarter below. -/
structure Near (f : BinaryFormat) (m s num den : Nat) : Prop where
  low : 4 * (m * (2 ^ s * den)) ≤ 4 * num + 2 * (2 ^ s * den)
  high : 4 * num ≤ 4 * (m * (2 ^ s * den)) + 2 * (2 ^ s * den)
  odd : m % 2 = 1 → 4 * (m * (2 ^ s * den)) < 4 * num + 2 * (2 ^ s * den) ∧
    4 * num < 4 * (m * (2 ^ s * den)) + 2 * (2 ^ s * den)
  power : m = 2 ^ f.fractionBits → s ≠ 0 → 4 * (m * (2 ^ s * den)) ≤ 4 * num + 2 ^ s * den

theorem two_pow_sub_mul (a b : Nat) : 2 ^ (a - b) * 2 ^ min a b = 2 ^ a := by
  rw [← Nat.pow_add]
  congr 1
  omega

theorem near_of_holds {f : BinaryFormat} {m s num den : Nat} (hm : 0 < m)
    (h : (RoundingInterval.ofFinite f m s).Holds num den) :
    Near f m s (num * 2 ^ f.unitExponent) den := by
  have hcommon : 0 < 2 ^ min s f.unitExponent := Nat.two_pow_pos _
  have hbound : ∀ a, a * 2 ^ (s - f.unitExponent) * den * 2 ^ min s f.unitExponent =
      a * (2 ^ s * den) := by
    intro a
    rw [← two_pow_sub_mul s f.unitExponent]
    ring
  have hvalue : num * (4 * 2 ^ (f.unitExponent - s)) * 2 ^ min s f.unitExponent =
      4 * (num * 2 ^ f.unitExponent) := by
    rw [← two_pow_sub_mul f.unitExponent s, Nat.min_comm s]
    ring
  simp only [RoundingInterval.Holds, RoundingInterval.ofFinite, beq_iff_eq] at h
  generalize hgap : (if m = 2 ^ f.fractionBits ∧ s ≠ 0 then 1 else 2) = gap at h
  have hgap' : gap ≤ 2 ∧ (m = 2 ^ f.fractionBits → s ≠ 0 → gap = 1) := by
    subst hgap
    constructor
    · split <;> omega
    · intro h1 h2
      rw [if_pos ⟨h1, h2⟩]
  have hsub : ∀ d, (4 * m - gap) * d + gap * d = 4 * (m * d) := by
    intro d
    rw [← Nat.add_mul, Nat.sub_add_cancel (by omega), Nat.mul_assoc]
  have hadd : ∀ d, (4 * m + 2) * d = 4 * (m * d) + 2 * d := by
    intro d
    ring
  have hgapMul : gap * (2 ^ s * den) ≤ 2 * (2 ^ s * den) := Nat.mul_le_mul_right _ hgap'.1
  split at h
  · rename_i heven
    have hlow := Nat.mul_le_mul_right (2 ^ min s f.unitExponent) h.1
    have hhigh := Nat.mul_le_mul_right (2 ^ min s f.unitExponent) h.2
    rw [hbound, hvalue] at hlow hhigh
    have hsub' := hsub (2 ^ s * den)
    rw [hadd] at hhigh
    refine ⟨by omega, by omega, by omega, fun h1 h2 => ?_⟩
    rw [hgap'.2 h1 h2] at hlow hsub'
    omega
  · have hlow := Nat.mul_lt_mul_of_pos_right h.1 hcommon
    have hhigh := Nat.mul_lt_mul_of_pos_right h.2 hcommon
    rw [hbound, hvalue] at hlow hhigh
    have hsub' := hsub (2 ^ s * den)
    rw [hadd] at hhigh
    refine ⟨by omega, by omega, by omega, fun h1 h2 => ?_⟩
    rw [hgap'.2 h1 h2] at hlow hsub'
    omega

/-! ## Scale and significand -/

section Nearest
variable {f : BinaryFormat} {m s num den : Nat}

theorem Near.lt_next (hden : 0 < den) (hc : f.Canonical m s) (h : Near f m s num den) :
    num < 2 ^ (s + f.fractionBits + 1) * den := by
  have hD : 0 < 2 ^ s * den := Nat.mul_pos (Nat.two_pow_pos s) hden
  have hmul : (m + 1) * (2 ^ s * den) ≤ 2 ^ (f.fractionBits + 1) * (2 ^ s * den) :=
    Nat.mul_le_mul_right _ hc.below
  have hnext : 2 ^ (s + f.fractionBits + 1) * den = 2 ^ (f.fractionBits + 1) * (2 ^ s * den) := by
    rw [Nat.add_assoc, Nat.pow_add]
    ring
  have hhigh := h.high
  rw [Nat.succ_mul] at hmul
  rw [hnext]
  omega

/-- At the scale of the value the significand is found at once. -/
theorem roundHalfEven_of_near (hden : 0 < den) (h : Near f m s num den) :
    roundHalfEven num (den * 2 ^ s) = m := by
  have hD : 0 < 2 ^ s * den := Nat.mul_pos (Nat.two_pow_pos s) hden
  have hlow := h.low
  have hhigh := h.high
  have hodd := h.odd
  rw [Nat.mul_comm den]
  apply roundHalfEven_eq hD
  · omega
  · omega
  · intro hm
    have := hodd hm
    omega

/-- Below the least significand of its scale a near fraction has the finer scale, and rounds
up to a significand that is one bit too long. -/
theorem carry_of_near (hden : 0 < den) (hc : f.Canonical m s) (h : Near f m s num den)
    (hs : s ≠ 0) (hlt : num < 2 ^ (s + f.fractionBits) * den) :
    m = 2 ^ f.fractionBits ∧ Nat.log2 (num / den) = s - 1 + f.fractionBits ∧
      roundHalfEven num (den * 2 ^ (s - 1)) = 2 ^ (f.fractionBits + 1) := by
  obtain ⟨t, rfl⟩ : ∃ t, s = t + 1 := ⟨s - 1, by omega⟩
  have hD : 0 < 2 ^ t * den := Nat.mul_pos (Nat.two_pow_pos t) hden
  have hdouble : 2 ^ (t + 1) * den = 2 * (2 ^ t * den) := by
    rw [Nat.pow_succ]
    ring
  have htop : 2 ^ (t + 1 + f.fractionBits) * den = 2 * (2 ^ f.fractionBits * (2 ^ t * den)) := by
    rw [Nat.pow_add, Nat.pow_succ]
    ring
  have hbottom : 2 ^ (t + f.fractionBits) * den = 2 ^ f.fractionBits * (2 ^ t * den) := by
    rw [Nat.pow_add]
    ring
  have hcross : ∀ k, k * (2 * (2 ^ t * den)) = 2 * (k * (2 ^ t * den)) := by
    intro k
    ring
  have hm : m = 2 ^ f.fractionBits := by
    by_contra hne
    have hge : 2 ^ f.fractionBits ≤ m := hc.normal.resolve_left hs
    have hmul : (2 ^ f.fractionBits + 1) * (2 ^ t * den) ≤ m * (2 ^ t * den) :=
      Nat.mul_le_mul_right _ (by omega)
    have hlow := h.low
    rw [hdouble, hcross] at hlow
    rw [Nat.succ_mul] at hmul
    omega
  have hpower := h.power hm hs
  rw [hdouble, hm, hcross] at hpower
  have hone : 1 * (2 ^ t * den) ≤ 2 ^ f.fractionBits * (2 ^ t * den) :=
    Nat.mul_le_mul_right _ (Nat.two_pow_pos _)
  refine ⟨hm, ?_, ?_⟩
  · apply log2_div_eq hden
    · rw [Nat.add_sub_cancel, hbottom]
      omega
    · rw [Nat.add_sub_cancel, Nat.add_right_comm]
      exact hlt
  · have hlong : 2 ^ (f.fractionBits + 1) * (2 ^ t * den) =
        2 * (2 ^ f.fractionBits * (2 ^ t * den)) := by
      rw [Nat.pow_succ]
      ring
    rw [Nat.add_sub_cancel, Nat.mul_comm den]
    apply roundHalfEven_eq hD
    · rw [hlong]
      omega
    · rw [hlong]
      omega
    · rw [Nat.pow_succ, Nat.mul_mod_left]
      intro h
      cases h

/-- A fraction in the rounding interval of a value is rounded to that value. -/
theorem nearest_of_holds (hf : 0 < f.precision) (hden : 0 < den) (hc : f.Canonical m s)
    (h : (RoundingInterval.ofFinite f m s).Holds num den) :
    f.nearest num den = min (s * 2 ^ f.fractionBits + m) f.infinityBits := by
  have hnear := near_of_holds hc.positive h
  have hprecision : f.precision = f.fractionBits + 1 := by
    unfold BinaryFormat.fractionBits
    omega
  unfold BinaryFormat.nearest BinaryFormat.scaleOf
  dsimp only
  rw [hprecision]
  generalize num * 2 ^ f.unitExponent = n at hnear ⊢
  congr 1
  by_cases hcarry : s ≠ 0 ∧ n < 2 ^ (s + f.fractionBits) * den
  · obtain ⟨hm, hlog, hround⟩ := carry_of_near hden hc hnear hcarry.1 hcarry.2
    obtain ⟨t, rfl⟩ : ∃ t, s = t + 1 := ⟨s - 1, by omega⟩
    have hscale : t + 1 - 1 + f.fractionBits + 1 - (f.fractionBits + 1) = t := by omega
    rw [Nat.add_sub_cancel] at hround
    rw [hlog, hscale, hround, hm, Nat.pow_succ]
    ring
  · have hlt := hnear.lt_next hden hc
    have hscale : Nat.log2 (n / den) + 1 - (f.fractionBits + 1) = s := by
      by_cases hs : s = 0
      · subst hs
        rw [Nat.zero_add] at hlt
        have := log2_div_le hden hlt
        omega
      · have hle : 2 ^ (s + f.fractionBits) * den ≤ n :=
          Nat.le_of_not_lt fun hn => hcarry ⟨hs, hn⟩
        rw [log2_div_eq hden hle hlt]
        omega
    rw [hscale, roundHalfEven_of_near hden hnear]

end Nearest

end SExprViewer
