import SExprViewer.Proofs.Number.ModelRounding

/-! # The product of two doubles

The product of two positive doubles is a positive double again as long as the exact product lies
in the range of the format, and is zero below it and infinite above (`mul_positive`).  Zero and
infinity are not left by multiplication with a positive double. -/
set_option autoImplicit false

namespace SExprViewer

open Float.Model (Format UnpackedFloat)
open Float.Model.UnpackedFloat

/-! ## Positive doubles -/

/-- The double is `m * 2 ^ e`, with its significand as long as the exponent lets it be. -/
structure PositiveDouble (x : Float) (m : Nat) (e : Int) : Prop where
  positive : 0 < m
  unpack : x.toModel.unpack = .finite .positive m e positive
  below : m < 2 ^ 53
  low : -1074 ≤ e
  high : e ≤ 971
  normal : e = -1074 ∨ 2 ^ 52 ≤ m

/-- The number that a finite double stands for, apart from its sign. -/
def magnitude (x : Float) : ℚ :=
  match x.toModel.unpack with
  | .finite _ m e _ => m * 2 ^ e
  | _ => 0

theorem PositiveDouble.magnitude_eq {x : Float} {m : Nat} {e : Int} (h : PositiveDouble x m e) :
    magnitude x = m * 2 ^ e := by
  rw [magnitude, h.unpack]

theorem canonical_unpack {b : BitVec Format.binary64.numBits} {sign : Sign} {m : Nat} {e : Int}
    {h : 0 < m} (hb : unpack Format.binary64 b = .finite sign m e h) :
    m < 2 ^ 53 ∧ -1074 ≤ e ∧ e ≤ 971 ∧ (e = -1074 ∨ 2 ^ 52 ≤ m) := by
  have hbias : (Format.binary64.exponentBias : Int) = 1023 := rfl
  have hones := unpackExponent_eq_ones_iff b
  have hzero := unpackExponent_eq_zero_iff b
  unfold unpack at hb
  dsimp only at hb
  by_cases hfull : unpackExponent b = -1#11
  · rw [if_pos hfull] at hb
    split at hb <;> cases hb
  rw [if_neg hfull] at hb
  by_cases hnone : unpackExponent b = 0#11
  · rw [if_pos hnone] at hb
    split at hb
    · cases hb
    · cases hb
      rw [toNat_unpackMantissa, toNat_unpackExponent, hbias, hzero.mp hnone]
      omega
  · rw [if_neg hnone] at hb
    cases hb
    rw [toNat_one_append_unpackMantissa, toNat_unpackExponent, hbias]
    rw [hones] at hfull
    rw [hzero] at hnone
    omega

theorem PositiveDouble.of_unpack {x : Float} {m : Nat} {e : Int} {h : 0 < m}
    (hx : x.toModel.unpack = .finite .positive m e h) : PositiveDouble x m e := by
  obtain ⟨hbelow, hlow, hhigh, hnormal⟩ := canonical_unpack hx
  exact ⟨h, hx, hbelow, hlow, hhigh, hnormal⟩

theorem float_eq_iff {x y : Float} : x = y ↔ x.toModel = y.toModel := by
  cases x
  cases y
  simp

theorem mul_toModel (x y : Float) : (x * y).toModel =
    Float.Model.pack (UnpackedFloat.mul Format.binary64 x.toModel.unpack y.toModel.unpack) := rfl

theorem zero_eq : (0 : Float) = .ofModel (Float.Model.pack (.zero .positive)) := by decide

theorem inf_eq : Float.inf = .ofModel (Float.Model.pack (.infinity .positive)) := by decide

theorem unpack_zero : (0 : Float).toModel.unpack = .zero .positive := rfl

theorem unpack_inf : Float.inf.toModel.unpack = .infinity .positive := by
  rw [inf_eq]
  rfl

/-- A number with a significand as long as its exponent lets it be is a positive double, or too
large to be one. -/
theorem positive_or_inf {m : Nat} {e : Int} (h : 0 < m) (hm : m < 2 ^ 53) (hlow : -1074 ≤ e)
    (hnormal : e = -1074 ∨ 2 ^ 52 ≤ m) :
    (972 ≤ e → Float.ofModel (Float.Model.pack (.finite .positive m e h)) = Float.inf) ∧
    (e ≤ 971 → PositiveDouble (.ofModel (Float.Model.pack (.finite .positive m e h))) m e) := by
  constructor
  · intro he
    rw [inf_eq]
    unfold Float.Model.pack
    simp only [pack_of_overflow .positive h he]
    rfl
  · intro he
    exact ⟨h, unpack_pack .positive h hm hlow he hnormal, hm, hlow, he, hnormal⟩

/-! ## The exact product -/

section Dyadic
variable {p k : Nat} {E t : Int}

theorem scaled_eq (a b : Nat) (hk : E + k = t) :
    (a : ℚ) * 2 ^ (t - 1) = (a * 2 ^ k : Nat) * 2 ^ (E - 1) ∧
      (b : ℚ) * 2 ^ E = (2 * b : Nat) * 2 ^ (E - 1) := by
  have htwo : (2 : ℚ) ≠ 0 := two_ne_zero
  constructor
  · rw [← hk, add_sub_right_comm, zpow_add₀ htwo]
    push_cast
    rw [zpow_natCast]
    ring
  · rw [show E = 1 + (E - 1) by ring, zpow_add₀ htwo, zpow_one]
    push_cast
    ring_nf

theorem lt_scaled_iff (a b : Nat) (hk : E + k = t) :
    a * 2 ^ k < 2 * b ↔ (a : ℚ) * 2 ^ (t - 1) < b * 2 ^ E := by
  obtain ⟨hleft, hright⟩ := scaled_eq a b hk
  rw [hleft, hright, mul_lt_mul_iff_left₀ (zpow_pos two_pos _), Nat.cast_lt]

theorem scaled_le_iff (a b : Nat) (hk : E + k = t) :
    a * 2 ^ k ≤ 2 * b ↔ (a : ℚ) * 2 ^ (t - 1) ≤ b * 2 ^ E := by
  obtain ⟨hleft, hright⟩ := scaled_eq a b hk
  rw [hleft, hright, mul_le_mul_iff_left₀ (zpow_pos two_pos _), Nat.cast_le]

theorem two_zpow_log2_le (hp : 0 < p) (E : Int) : (2 : ℚ) ^ ((p.log2 : Int) + E) ≤ p * 2 ^ E := by
  rw [zpow_add₀ two_ne_zero, zpow_natCast]
  refine mul_le_mul_of_nonneg_right ?_ (zpow_pos two_pos E).le
  exact_mod_cast Nat.log2_self_le hp.ne'

theorem lt_two_zpow_log2 (p : Nat) (E : Int) : (p : ℚ) * 2 ^ E < 2 ^ ((p.log2 : Int) + 1 + E) := by
  rw [zpow_add₀ two_ne_zero]
  refine mul_lt_mul_of_pos_right ?_ (zpow_pos two_pos E)
  exact_mod_cast Nat.lt_log2_self

section OwnExponent
variable (hp : 0 < p) (ht : t = max (p.log2 + E - 52) (-1074)) (hk : E + k = t)
include hp ht hk

theorem long_of_normal (hnormal : t ≠ -1074) : 2 ^ 52 ≤ roundHalfEven p (2 ^ k) := by
  have hlog : p.log2 = 52 + k := by omega
  refine le_trans ?_ (div_le_roundHalfEven p (2 ^ k))
  rw [Nat.le_div_iff_mul_le (Nat.two_pow_pos k), ← Nat.pow_add, ← hlog]
  exact Nat.log2_self_le hp.ne'

/-- A number is rounded to zero up to half the least positive double. -/
theorem roundHalfEven_eq_zero_iff :
    roundHalfEven p (2 ^ k) = 0 ↔ (p : ℚ) * 2 ^ E ≤ 2 ^ (-1075 : Int) := by
  by_cases hnormal : t = -1074
  · have hhalf : 0 < roundHalfEven p (2 ^ k) ↔ (2 : ℚ) ^ (t - 1) < p * 2 ^ E := by
      have hone := lt_scaled_iff 1 p hk
      rw [Nat.cast_one, one_mul, one_mul] at hone
      rw [lt_roundHalfEven_iff (Nat.two_pow_pos k), ← hone]
      omega
    have hleast : t - 1 = -1075 := by omega
    rw [hleast] at hhalf
    rw [← Nat.le_zero, ← not_lt, hhalf, not_lt]
  · have hlong := long_of_normal hp ht hk hnormal
    have hlarge : (2 : ℚ) ^ (-1075 : Int) < 2 ^ ((p.log2 : Int) + E) :=
      zpow_lt_zpow_right₀ one_lt_two (by omega)
    exact iff_of_false (by omega) (not_le.mpr (hlarge.trans_le (two_zpow_log2_le hp E)))

/-- The exponent is too large after rounding from the middle between the greatest double and the
next power of two on. -/
theorem overflow_iff :
    (972 ≤ t ∨ (t = 971 ∧ 2 ^ 53 ≤ roundHalfEven p (2 ^ k))) ↔
      (2 ^ 54 - 1 : ℚ) * 2 ^ (970 : Int) ≤ p * 2 ^ E := by
  have hcarry : 2 ^ 53 - 1 < roundHalfEven p (2 ^ k) ↔
      (2 ^ 54 - 1 : ℚ) * 2 ^ (t - 1) ≤ p * 2 ^ E := by
    have hscaled := scaled_le_iff (2 ^ 54 - 1) p hk
    have hcast : ((2 ^ 54 - 1 : Nat) : ℚ) = 2 ^ 54 - 1 := by norm_num
    have hodd : (2 ^ 53 - 1) % 2 = 1 := by norm_num
    have hdouble : 2 * (2 ^ 53 - 1) + 1 = 2 ^ 54 - 1 := by norm_num
    rw [hcast] at hscaled
    rw [lt_roundHalfEven_iff (Nat.two_pow_pos k), ← hscaled, hdouble, and_iff_left hodd,
      Nat.le_iff_lt_or_eq]
  have hpower : ∀ n : Nat, (2 : ℚ) ^ ((n : Int) + 970) = 2 ^ n * 2 ^ (970 : Int) := by
    intro n
    rw [zpow_add₀ two_ne_zero, zpow_natCast]
  have hunit : (0 : ℚ) < 2 ^ (970 : Int) := zpow_pos two_pos _
  rcases lt_trichotomy t 971 with hless | heq | hmore
  · have hsmall : (p : ℚ) * 2 ^ E < 2 ^ ((53 : Nat) + (970 : Int)) :=
      (lt_two_zpow_log2 p E).trans_le (zpow_le_zpow_right₀ one_le_two (by omega))
    rw [hpower] at hsmall
    refine iff_of_false (by omega) (not_le.mpr (hsmall.trans ?_))
    exact mul_lt_mul_of_pos_right (by norm_num) hunit
  · have hscale : t - 1 = 970 := by omega
    rw [hscale] at hcarry
    rw [← hcarry]
    omega
  · have hlarge : (2 : ℚ) ^ ((54 : Nat) + (970 : Int)) ≤ p * 2 ^ E :=
      (zpow_le_zpow_right₀ one_le_two (by omega)).trans (two_zpow_log2_le hp E)
    rw [hpower] at hlarge
    refine iff_of_true (by omega) (le_trans ?_ hlarge)
    exact mul_le_mul_of_nonneg_right (by norm_num) hunit.le

end OwnExponent

end Dyadic

/-- Above half the least positive double, and below the middle between the greatest one and the
next power of two. -/
def InRange (exact : ℚ) : Prop :=
  2 ^ (-1075 : Int) < exact ∧ exact < (2 ^ 54 - 1) * 2 ^ (970 : Int)

/-- What a number becomes that was rounded to `r` at the exponent `t`. -/
theorem pack_rounded {r : Nat} {t : Int} (h : r ≠ 0) (hr : r ≤ 2 ^ 53) (hlow : -1074 ≤ t)
    (hlong : t ≠ -1074 → 2 ^ 52 ≤ r) :
    let x := Float.ofModel (Float.Model.pack
      (if r < 2 ^ 53 then .finite .positive r t (Nat.pos_of_ne_zero h)
        else .finite .positive (2 ^ 52) (t + 1) (by decide)))
    (972 ≤ t ∨ (t = 971 ∧ 2 ^ 53 ≤ r) → x = Float.inf) ∧
      (¬ (972 ≤ t ∨ (t = 971 ∧ 2 ^ 53 ≤ r)) → ∃ m e, PositiveDouble x m e) := by
  intro x
  by_cases hcarry : r < 2 ^ 53
  · have hx := positive_or_inf (Nat.pos_of_ne_zero h) hcarry hlow (by omega)
    have hxr : x = .ofModel (.pack (.finite .positive r t (Nat.pos_of_ne_zero h))) := by
      simp only [x, if_pos hcarry]
    rw [hxr]
    exact ⟨fun hlarge => hx.1 (by omega), fun hsmall => ⟨_, _, hx.2 (by omega)⟩⟩
  · have hx := positive_or_inf (m := 2 ^ 52) (e := t + 1) (by decide) (by decide) (by omega)
      (.inr (Nat.le_refl _))
    have hxr : x = .ofModel (.pack (.finite .positive (2 ^ 52) (t + 1) (by decide))) := by
      simp only [x, if_neg hcarry]
    rw [hxr]
    exact ⟨fun hlarge => hx.1 (by omega), fun hsmall => ⟨_, _, hx.2 (by omega)⟩⟩

section Product
variable {x y : Float} {m n : Nat} {d e : Int} (hx : PositiveDouble x m d)
  (hy : PositiveDouble y n e)
include hx hy

theorem magnitude_mul_magnitude : magnitude x * magnitude y = (m * n : Nat) * 2 ^ (d + e) := by
  rw [hx.magnitude_eq, hy.magnitude_eq, zpow_add₀ two_ne_zero]
  push_cast
  ring

theorem mul_eq_round : x * y = .ofModel (Float.Model.pack
    (roundWithAccuracy Format.binary64 .positive (m * n) (d + e) .exact)) := by
  rw [float_eq_iff, mul_toModel, hx.unpack, hy.unpack]
  rfl

/-- The exponent of a product is not above its own: bits are shifted out and none in. -/
theorem add_exponent_le : d + e ≤ max ((m * n).log2 + (d + e) - 52) (-1074) := by
  by_cases hlong : 2 ^ 52 ≤ m * n
  · have hp : 0 < m * n := Nat.mul_pos hx.positive hy.positive
    have hlog : 52 ≤ (m * n).log2 := (Nat.le_log2 hp.ne').mpr hlong
    omega
  · -- two significands below the least long one are both at the least exponent
    have hd := hx.normal.resolve_right fun h =>
      hlong (h.trans (Nat.le_mul_of_pos_right m hy.positive))
    have he := hy.normal.resolve_right fun h =>
      hlong (h.trans (Nat.le_mul_of_pos_left n hx.positive))
    omega

/-- The product of two positive doubles is a positive double if the exact product is in range, and
zero below the range and infinite above it. -/
theorem mul_positive :
    (magnitude x * magnitude y ≤ 2 ^ (-1075 : Int) → x * y = 0) ∧
    ((2 ^ 54 - 1) * 2 ^ (970 : Int) ≤ magnitude x * magnitude y → x * y = Float.inf) ∧
    (InRange (magnitude x * magnitude y) → ∃ k c, PositiveDouble (x * y) k c) := by
  have hp : 0 < m * n := Nat.mul_pos hx.positive hy.positive
  have hle := add_exponent_le hx hy
  obtain ⟨t, ht⟩ : ∃ t : Int, t = max ((m * n).log2 + (d + e) - 52) (-1074) := ⟨_, rfl⟩
  obtain ⟨k, hk⟩ : ∃ k : Nat, d + e + k = t := ⟨(t - (d + e)).toNat, by omega⟩
  obtain ⟨hr, hround⟩ := roundWithAccuracy_eq .positive ht hk
  have hzero := roundHalfEven_eq_zero_iff hp ht hk
  have hover := overflow_iff hp ht hk
  have hlong := long_of_normal hp ht hk
  rw [InRange, ← not_le, ← not_le, magnitude_mul_magnitude hx hy, ← hzero, ← hover,
    mul_eq_round hx hy, hround]
  generalize roundHalfEven (m * n) (2 ^ k) = r at *
  refine ⟨fun hr0 => ?_, fun hlarge => ?_, fun ⟨hr0, hsmall⟩ => ?_⟩
  · rw [dif_pos hr0, zero_eq]
  · have hr0 : r ≠ 0 := by
      have := hlong (by omega)
      omega
    rw [dif_neg hr0]
    exact (pack_rounded hr0 hr (by omega) hlong).1 hlarge
  · rw [dif_neg hr0]
    exact (pack_rounded hr0 hr (by omega) hlong).2 hsmall

end Product

theorem PositiveDouble.zero_mul {y : Float} {n : Nat} {e : Int} (hy : PositiveDouble y n e) :
    0 * y = 0 := by
  rw [float_eq_iff, mul_toModel, hy.unpack, unpack_zero]
  rfl

theorem PositiveDouble.inf_mul {y : Float} {n : Nat} {e : Int} (hy : PositiveDouble y n e) :
    Float.inf * y = Float.inf := by
  rw [float_eq_iff, mul_toModel, hy.unpack, unpack_inf, inf_eq]
  rfl

end SExprViewer
