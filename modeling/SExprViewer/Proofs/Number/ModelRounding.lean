import SExprViewer.Proofs.Number.Double
import SExprViewer.Proofs.Number.Rounding

/-! # Rounding in the model of doubles

The logical model of `Float` keeps what it shifts out of a significand in two bits.  They tell
enough to round half to even (`Stands.roundedMantissa`), so that a number with too many bits is
rounded to a multiple of the unit at its own exponent (`roundWithAccuracy_eq`).  If the exponent
is in range, the result can be packed and unpacked without loss (`unpack_pack`). -/
set_option autoImplicit false

namespace SExprViewer

open Float.Model (Format UnpackedFloat totalExponent)
open Float.Model.UnpackedFloat

/-! ## The bits that are shifted out -/

/-- The extended mantissa stands for `num / den`: the whole part, and whether the rest is half a
unit, more or less. -/
structure Stands (em : ExtendedMantissa) (num den : Nat) : Prop where
  mantissa : em.mantissa = num / den
  roundBit : em.roundBit = true ↔ den ≤ 2 * (num % den)
  stickyBit : em.stickyBit = true ↔ 2 * (num % den) ≠ 0 ∧ 2 * (num % den) ≠ den

theorem stands_exact (num : Nat) :
    Stands (ExtendedMantissa.ofMantissaAndAccuracy num .exact) num 1 where
  mantissa := (Nat.div_one num).symm
  roundBit := by simp [ExtendedMantissa.ofMantissaAndAccuracy, Nat.mod_one]
  stickyBit := by simp [ExtendedMantissa.ofMantissaAndAccuracy, Nat.mod_one]

theorem Stands.shiftRightOne {em : ExtendedMantissa} {num den : Nat} (hden : 0 < den)
    (h : Stands em num den) : Stands em.shiftRightOne num (den * 2) := by
  have hrest : num % den < den := Nat.mod_lt num hden
  have hparity : num / den % 2 = 0 ∨ num / den % 2 = 1 := Nat.mod_two_eq_zero_or_one _
  constructor
  case mantissa =>
    change em.mantissa / 2 = _
    rw [h.mantissa, Nat.div_div_eq_div_mul]
  case roundBit =>
    change (em.mantissa % 2 != 0) = true ↔ _
    rw [h.mantissa, Nat.mod_mul, bne_iff_ne]
    rcases hparity with hp | hp <;> rw [hp] <;> omega
  case stickyBit =>
    change (em.roundBit || em.stickyBit) = true ↔ _
    rw [Bool.or_eq_true, h.roundBit, h.stickyBit, Nat.mod_mul]
    rcases hparity with hp | hp <;> rw [hp] <;> omega

theorem stands_shiftRight (num k : Nat) :
    Stands (ExtendedMantissa.ofMantissaAndAccuracy num .exact >>> k) num (2 ^ k) := by
  induction k with
  | zero => exact stands_exact num
  | succ k ih => exact ih.shiftRightOne (Nat.two_pow_pos k)

theorem Stands.roundedMantissa {em : ExtendedMantissa} {num den : Nat} (h : Stands em num den) :
    em.roundedMantissa = roundHalfEven num den := by
  obtain ⟨mantissa, round, sticky⟩ := em
  obtain ⟨hmantissa, hround, hsticky⟩ := h
  unfold roundHalfEven
  cases round with
  | false =>
      have hless : 2 * (num % den) < den := by simpa using hround
      cases sticky <;> exact hmantissa.trans (if_pos hless).symm
  | true =>
      have hhalf : den ≤ 2 * (num % den) := hround.mp rfl
      cases sticky with
      | false =>
          have htie : ¬ den < 2 * (num % den) := by
            intro hmore
            have := hsticky.mpr ⟨by omega, by omega⟩
            cases this
          dsimp only
          rw [if_neg (Nat.not_lt.mpr hhalf), if_neg htie, ← hmantissa]
          rfl
      | true =>
          have hmore : den < 2 * (num % den) := by
            have := (hsticky.mp rfl).2
            omega
          dsimp only
          rw [if_neg (Nat.not_lt.mpr hhalf), if_pos hmore, ← hmantissa]
          rfl

/-! ## Rounding at the exponent of a number -/

theorem targetExponent_double (m : Nat) (e : Int) :
    Format.binary64.targetExponent (totalExponent m e) = max (m.log2 + e - 52) (-1074) := by
  simp only [Format.targetExponent, totalExponent, Format.mantissaBits, Format.minExponent]
  norm_num
  omega

theorem shiftToTargetExponent_eq {m k : Nat} {e t : Int}
    (ht : t = max (m.log2 + e - 52) (-1074)) (hk : k = (t - e).toNat) :
    shiftToTargetExponent Format.binary64 m e .exact =
      (ExtendedMantissa.ofMantissaAndAccuracy m .exact >>> k, e + k) := by
  unfold shiftToTargetExponent
  rw [targetExponent_double, ← ht, hk]
  rfl

/-- A significand that is not too long, at an exponent that is not too low. -/
theorem shiftToTargetExponent_of_lt {m : Nat} {e : Int} (hm : m < 2 ^ 53) (he : -1074 ≤ e) :
    shiftToTargetExponent Format.binary64 m e .exact =
      (ExtendedMantissa.ofMantissaAndAccuracy m .exact, e) := by
  have hlog : m.log2 ≤ 52 := by
    by_cases hzero : m = 0
    · rw [hzero]
      decide
    · exact Nat.le_of_lt_succ ((Nat.log2_lt hzero).mpr hm)
  rw [shiftToTargetExponent_eq rfl (k := 0) (by omega)]
  simp
  rfl

theorem shiftToTargetExponent_carry {e : Int} (he : -1074 ≤ e) :
    shiftToTargetExponent Format.binary64 (2 ^ 53) e .exact = (⟨2 ^ 52, false, false⟩, e + 1) := by
  have hlog : (2 ^ 53 : Nat).log2 = 53 := Nat.log2_two_pow
  rw [shiftToTargetExponent_eq rfl (k := 1) (by omega)]
  rfl

/-- At its own exponent, where it has `k` bits too many, a significand is rounded half to even; one
that becomes too long by that is halved. -/
theorem roundWithAccuracy_eq (sign : Sign) {m k : Nat} {e t : Int}
    (ht : t = max (m.log2 + e - 52) (-1074)) (hk : e + k = t) :
    let r := roundHalfEven m (2 ^ k)
    r ≤ 2 ^ 53 ∧ roundWithAccuracy Format.binary64 sign m e .exact =
      if h : r = 0 then .zero sign
      else if r < 2 ^ 53 then .finite sign r t (Nat.pos_of_ne_zero h)
      else .finite sign (2 ^ 52) (t + 1) (by decide) := by
  intro r
  have hlow : -1074 ≤ t := by omega
  have hround : (ExtendedMantissa.ofMantissaAndAccuracy m .exact >>> k).roundedMantissa = r :=
    (stands_shiftRight m k).roundedMantissa
  have hr : r ≤ 2 ^ 53 := by
    have hm : m < 2 ^ 53 * 2 ^ k := by
      rw [← Nat.pow_add]
      exact Nat.lt_log2_self.trans_le (Nat.pow_le_pow_right (by decide) (by omega))
    have hdiv : m / 2 ^ k < 2 ^ 53 := (Nat.div_lt_iff_lt_mul (Nat.two_pow_pos k)).mpr hm
    have hle : r ≤ m / 2 ^ k + 1 := roundHalfEven_le m (2 ^ k)
    omega
  refine ⟨hr, ?_⟩
  unfold roundWithAccuracy
  rw [shiftToTargetExponent_eq ht (by omega : k = (t - e).toNat), hk]
  dsimp only
  rw [hround]
  by_cases hlt : r < 2 ^ 53
  · rw [shiftToTargetExponent_of_lt hlt hlow]
    simp only [hlt, if_true]
    rfl
  · have hcarry : r = 2 ^ 53 := by omega
    rw [hcarry, shiftToTargetExponent_carry hlow]
    rfl

/-! ## Packing -/

theorem pack_of_overflow (sign : Sign) {m : Nat} {e : Int} (h : 0 < m) (he : 972 ≤ e) :
    pack Format.binary64 (.finite sign m e h) = packedInfinity Format.binary64 sign := by
  refine if_pos ?_
  change 2 ^ 11 ≤ (e + 1023 + 52).toNat + 1
  omega

theorem pack_finite (sign : Sign) {m : Nat} {e : Int} (h : 0 < m) (he : e ≤ 971) :
    pack Format.binary64 (.finite sign m e h) = packComponents Format.binary64 sign
      (if m.log2 = 52 then BitVec.ofNat 11 (e + 1075).toNat else 0#11) (BitVec.ofNat 52 m) := by
  have hbias : e + (Format.binary64.exponentBias : Int) + ((52 : Nat) : Int) = e + 1075 := by
    change e + 1023 + 52 = _
    omega
  have hbits : m.log2 + 1 = Format.binary64.mantissaBits ↔ m.log2 = 52 := by
    change m.log2 + 1 = 53 ↔ _
    omega
  unfold pack
  dsimp only
  rw [hbias, if_neg (by omega)]
  split
  · rename_i hlong
    rw [if_pos (hbits.mp hlong)]
  · rename_i hshort
    rw [if_neg (mt hbits.mpr hshort)]

theorem finite_congr (sign : Sign) {m m' : Nat} {e e' : Int} (hm : m = m') (he : e = e')
    (h : 0 < m) (h' : 0 < m') : UnpackedFloat.finite sign m e h = .finite sign m' e' h' := by
  subst hm he
  rfl

theorem unpack_normal (sign : Sign) {exponent : BitVec 11} (hones : exponent ≠ -1#11)
    (hzero : exponent ≠ 0#11) (mantissa : BitVec 52) :
    unpack Format.binary64 (packComponents Format.binary64 sign exponent mantissa) =
      .finite sign (2 ^ 52 + mantissa.toNat) (exponent.toNat - 1075) (by omega) := by
  unfold unpack
  simp only [unpackExponent_packComponents, unpackMantissa_packComponents,
    unpackSign_packComponents, Sign.ofBitVec_toBitVec]
  rw [if_neg hones, if_neg hzero]
  refine finite_congr sign ?_ rfl _ _
  rw [BitVec.toNat_append, ← Nat.shiftLeft_add_eq_or_of_lt mantissa.isLt]
  rfl

theorem unpack_subnormal (sign : Sign) {mantissa : BitVec 52} (h : 0 < mantissa.toNat) :
    unpack Format.binary64 (packComponents Format.binary64 sign 0#11 mantissa) =
      .finite sign mantissa.toNat (-1074) h := by
  have hzero : mantissa ≠ 0#52 := by
    rintro rfl
    cases h
  unfold unpack
  simp only [unpackExponent_packComponents, unpackMantissa_packComponents,
    unpackSign_packComponents, Sign.ofBitVec_toBitVec]
  rw [if_neg (by decide), if_true, dif_neg hzero]
  rfl

/-- A number in range, its significand as long as the exponent lets it be, is what its bits say. -/
theorem unpack_pack (sign : Sign) {m : Nat} {e : Int} (h : 0 < m) (hm : m < 2 ^ 53)
    (hlow : -1074 ≤ e) (hhigh : e ≤ 971) (hnormal : e = -1074 ∨ 2 ^ 52 ≤ m) :
    unpack Format.binary64 (pack Format.binary64 (.finite sign m e h)) = .finite sign m e h := by
  rw [pack_finite sign h hhigh]
  by_cases hlong : 2 ^ 52 ≤ m
  · rw [if_pos ((Nat.log2_eq_iff h.ne').mpr ⟨hlong, hm⟩)]
    have hfield : (BitVec.ofNat 11 (e + 1075).toNat).toNat = (e + 1075).toNat := by
      rw [BitVec.toNat_ofNat]
      exact Nat.mod_eq_of_lt (by omega)
    have hones : BitVec.ofNat 11 (e + 1075).toNat ≠ -1#11 := by
      rw [Ne, ← BitVec.toNat_inj, hfield]
      change _ ≠ 2047
      omega
    have hzero : BitVec.ofNat 11 (e + 1075).toNat ≠ 0#11 := by
      rw [Ne, ← BitVec.toNat_inj, hfield]
      change _ ≠ 0
      omega
    rw [unpack_normal sign hones hzero]
    refine finite_congr sign ?_ (by omega) _ _
    rw [BitVec.toNat_ofNat]
    omega
  · have hlog : m.log2 < 52 := (Nat.log2_lt h.ne').mpr (Nat.not_le.mp hlong)
    have hmantissa : (BitVec.ofNat 52 m).toNat = m := by
      rw [BitVec.toNat_ofNat]
      exact Nat.mod_eq_of_lt (Nat.not_le.mp hlong)
    have hpos : 0 < (BitVec.ofNat 52 m).toNat := by rwa [hmantissa]
    rw [if_neg hlog.ne, unpack_subnormal sign hpos]
    exact finite_congr sign hmantissa (by omega) _ _

end SExprViewer
