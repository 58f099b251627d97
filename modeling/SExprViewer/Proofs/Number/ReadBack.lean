import SExprViewer.Proofs.Number.Double
import SExprViewer.Proofs.Number.Shortest

/-! # Doubles read back from their decimals

A decimal in the rounding interval of a double stands for that double
(`toFloat_of_holds`), and a zero keeps its sign (`toFloat_zero`).  The two bounds beyond which a
decimal is read without its digits lie outside of every rounding interval. -/
set_option autoImplicit false

namespace SExprViewer

theorem two_pow_le_ten_pow (n : Nat) : 2 ^ (3 * n) ≤ 10 ^ n := by
  rw [Nat.pow_mul]
  exact Nat.pow_le_pow_left (by decide) n

theorem unitExponent_double : BinaryFormat.double.unitExponent = 1074 := rfl

theorem fractionBits_double : BinaryFormat.double.fractionBits = 52 := rfl

section Bounds
variable {k m s num den : Nat}

/-- Whole multiples of a high power of ten lie above every double. -/
theorem Near.exponent_le (hc : BinaryFormat.double.Canonical m s) (hs : s ≤ 2045) (hk : 0 < k)
    {n : Nat} (h : Near .double m s (k * 10 ^ n * 2 ^ BinaryFormat.double.unitExponent) 1) :
    n ≤ 400 := by
  by_contra hn
  have hunit := unitExponent_double
  generalize BinaryFormat.double.unitExponent = unit at h hunit
  have hlt := h.lt_next Nat.one_pos hc
  rw [fractionBits_double, Nat.mul_one] at hlt
  have hten : 2 ^ (3 * n + unit) ≤ k * 10 ^ n * 2 ^ unit := by
    rw [Nat.pow_add]
    exact Nat.mul_le_mul_right _
      (Nat.le_trans (two_pow_le_ten_pow n) (Nat.le_mul_of_pos_left _ hk))
  have hpow := (Nat.pow_lt_pow_iff_right (by decide)).mp (Nat.lt_of_le_of_lt hten hlt)
  omega

/-- A fraction with too few digits for its power of ten lies below every double. -/
theorem Near.places_le (hm : 0 < m) {n : Nat}
    (h : Near .double m s (k * 2 ^ BinaryFormat.double.unitExponent) (10 ^ n)) :
    n ≤ Nat.log2 k + 400 := by
  by_contra hn
  have hunit := unitExponent_double
  generalize BinaryFormat.double.unitExponent = unit at h hunit
  have hlow := h.low
  have hden : 0 < 2 ^ s * 10 ^ n := Nat.mul_pos (Nat.two_pow_pos s) (Nat.pow_pos (by decide))
  have hone : 2 ^ s * 10 ^ n ≤ m * (2 ^ s * 10 ^ n) := Nat.le_mul_of_pos_left _ hm
  have hten : 10 ^ n ≤ 2 ^ s * 10 ^ n := Nat.le_mul_of_pos_left _ (Nat.two_pow_pos s)
  have hdigits : k * 2 ^ unit < 2 ^ (Nat.log2 k + 1 + unit) := by
    rw [Nat.pow_add]
    exact Nat.mul_lt_mul_of_pos_right Nat.lt_log2_self (Nat.two_pow_pos _)
  have htwo := two_pow_le_ten_pow n
  have hle : 2 ^ (3 * n) < 2 ^ (Nat.log2 k + 1 + unit + 1) := by
    rw [Nat.pow_succ]
    omega
  have hpow := (Nat.pow_lt_pow_iff_right (by decide)).mp hle
  omega

end Bounds

theorem pos_of_holds {f : BinaryFormat} {m s num den : Nat} (hm : 0 < m) (hden : 0 < den)
    (h : (RoundingInterval.ofFinite f m s).Holds num den) : 0 < num := by
  by_contra hnum
  have hlow := (near_of_holds hm h).low
  have hpos : 0 < 2 ^ s * den := Nat.mul_pos (Nat.two_pow_pos s) hden
  have hone := Nat.le_mul_of_pos_left (2 ^ s * den) hm
  rw [Nat.eq_zero_of_not_pos hnum, Nat.zero_mul] at hlow
  omega

theorem magnitudeBits_of_holds {d : Decimal} {m s : Nat}
    (hc : BinaryFormat.double.Canonical m s) (hs : s ≤ 2045)
    (h : (RoundingInterval.ofFinite .double m s).Holds (d.digits * 10 ^ d.exponent.toNat)
      (10 ^ (-d.exponent).toNat)) : d.magnitudeBits = s * 2 ^ 52 + m := by
  have hnear := near_of_holds hc.positive h
  have hden : 0 < 10 ^ (-d.exponent).toNat := Nat.pow_pos (by decide)
  have hdigits : d.digits ≠ 0 :=
    (Nat.pos_of_mul_pos_right (pos_of_holds hc.positive hden h)).ne'
  have htop : ¬ 400 < d.exponent := by
    intro hlarge
    rw [show (-d.exponent).toNat = 0 by omega, Nat.pow_zero] at hnear
    have := hnear.exponent_le hc hs (Nat.pos_of_ne_zero hdigits)
    omega
  have hbottom : ¬ d.exponent + (Nat.log2 d.digits : Int) < -400 := by
    intro hsmall
    rw [show d.exponent.toNat = 0 by omega, Nat.pow_zero, Nat.mul_one] at hnear
    have := hnear.places_le hc.positive
    omega
  have hbelow := hc.below
  rw [fractionBits_double] at hbelow
  unfold Decimal.magnitudeBits
  rw [if_neg hdigits, if_neg htop, if_neg hbottom, nearest_of_holds (by decide) hden hc h,
    fractionBits_double]
  apply Nat.min_eq_left
  change s * 2 ^ 52 + m ≤ 2047 * 2 ^ 52
  omega

theorem toFloat_of_bits {x : Float} {d : Decimal}
    (h : x.toBits.toNat = d.magnitudeBits + if d.negative then 2 ^ 63 else 0) : d.toFloat = x := by
  have hround : x.toBits.toNat.toUInt64 = x.toBits := UInt64.ofNat_toNat
  rw [Decimal.toFloat, ← h, hround]
  exact Float.ofBits_toBits x

/-- A decimal in the rounding interval of a double stands for that double. -/
theorem toFloat_of_holds {x : Float} {d : Decimal} {m s : Nat} (hm : 0 < m)
    (hx : Binary.ofDouble x = .finite d.negative m s)
    (h : (RoundingInterval.ofFinite .double m s).Holds (d.digits * 10 ^ d.exponent.toNat)
      (10 ^ (-d.exponent).toNat)) : d.toFloat = x := by
  obtain ⟨hbits, hbelow, hnormal, hs⟩ := of_decode_finite x.toBits.toNat_lt hx
  have hmagnitude := magnitudeBits_of_holds ⟨hm, hbelow, hnormal⟩ hs h
  exact toFloat_of_bits (hmagnitude ▸ hbits)

theorem toFloat_zero {x : Float} {negative : Bool} {s : Nat} (e : Int)
    (hx : Binary.ofDouble x = .finite negative 0 s) : Decimal.toFloat ⟨negative, 0, e⟩ = x := by
  obtain ⟨hbits, -, hscale, -⟩ := of_decode_finite x.toBits.toNat_lt hx
  obtain rfl : s = 0 := by omega
  rw [Nat.zero_mul, Nat.zero_add] at hbits
  exact toFloat_of_bits (hbits.trans (Nat.zero_add _).symm)

end SExprViewer
