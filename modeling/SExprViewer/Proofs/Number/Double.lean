import Mathlib
import SExprViewer.Number.Decimal

/-! # Doubles and their fields

`decode` and the logical model of `Float` read the same fields off a bit pattern
(`reads_unpack`), so what is finite or zero can be told from `Binary.ofDouble`.  The
significand and the scale of a finite number give its bits (`of_decode_finite`). -/
set_option autoImplicit false

namespace SExprViewer

open Float.Model (Format UnpackedFloat)
open Float.Model.UnpackedFloat

/-! ## The three fields -/

section Fields
variable (b : BitVec Format.binary64.numBits)

theorem toNat_unpackMantissa : (unpackMantissa b).toNat = b.toNat % 2 ^ 52 := by
  simp [unpackMantissa]

theorem toNat_unpackExponent : (unpackExponent b).toNat = b.toNat / 2 ^ 52 % 2 ^ 11 := by
  simp [unpackExponent, Nat.shiftRight_eq_div_pow]

theorem unpackMantissa_eq_zero_iff : unpackMantissa b = 0#52 ↔ b.toNat % 2 ^ 52 = 0 := by
  rw [← BitVec.toNat_inj, toNat_unpackMantissa]
  rfl

theorem unpackExponent_eq_zero_iff : unpackExponent b = 0#11 ↔ b.toNat / 2 ^ 52 % 2 ^ 11 = 0 := by
  rw [← BitVec.toNat_inj, toNat_unpackExponent]
  rfl

theorem unpackExponent_eq_ones_iff :
    unpackExponent b = -1#11 ↔ b.toNat / 2 ^ 52 % 2 ^ 11 = 2 ^ 11 - 1 := by
  rw [← BitVec.toNat_inj, toNat_unpackExponent]
  rfl

theorem toNat_one_append_unpackMantissa :
    (1#1 ++ unpackMantissa b).toNat = 2 ^ 52 + b.toNat % 2 ^ 52 := by
  rw [BitVec.toNat_append, ← Nat.shiftLeft_add_eq_or_of_lt (unpackMantissa b).isLt,
    toNat_unpackMantissa]
  rfl

end Fields

/-! ## What a bit pattern stands for -/

/-- A value of either description, apart from signs and exponents. -/
inductive Reads : Binary → UnpackedFloat → Prop
  | nan : Reads .nan .notANumber
  | infinite {negative : Bool} {sign : Sign} : Reads (.infinite negative) (.infinity sign)
  | zero {negative : Bool} {sign : Sign} : Reads (.finite negative 0 0) (.zero sign)
  | finite {negative : Bool} {sign : Sign} {m scale : Nat} {exponent : Int} (h : 0 < m) :
      Reads (.finite negative m scale) (.finite sign m exponent h)

theorem decode_double (bits : Nat) : BinaryFormat.double.decode bits =
    if bits / 2 ^ 52 % 2 ^ 11 = 2 ^ 11 - 1 then
      if bits % 2 ^ 52 = 0 then .infinite (bits / 2 ^ 63 % 2 == 1) else .nan
    else if bits / 2 ^ 52 % 2 ^ 11 = 0 then .finite (bits / 2 ^ 63 % 2 == 1) (bits % 2 ^ 52) 0
    else .finite (bits / 2 ^ 63 % 2 == 1) (2 ^ 52 + bits % 2 ^ 52)
      (bits / 2 ^ 52 % 2 ^ 11 - 1) := rfl

theorem of_decode_finite {bits m s : Nat} {negative : Bool} (hbits : bits < 2 ^ 64)
    (h : BinaryFormat.double.decode bits = .finite negative m s) :
    bits = s * 2 ^ 52 + m + (if negative then 2 ^ 63 else 0) ∧ m < 2 ^ 53 ∧
      (s = 0 ∨ 2 ^ 52 ≤ m) ∧ s ≤ 2045 := by
  have hdiv : bits / 2 ^ 63 = bits / 2 ^ 52 / 2 ^ 11 := by
    rw [Nat.div_div_eq_div_mul, ← Nat.pow_add]
  have hsplit : 2 ^ 52 * (bits / 2 ^ 52) + bits % 2 ^ 52 = bits := Nat.div_add_mod ..
  have hfraction : bits % 2 ^ 52 < 2 ^ 52 := Nat.mod_lt _ (by decide)
  rw [decode_double, hdiv] at h
  generalize bits / 2 ^ 52 = top at h hsplit
  generalize bits % 2 ^ 52 = fraction at h hsplit hfraction
  have hsign : top / 2 ^ 11 = 0 ∨ top / 2 ^ 11 = 1 := by omega
  split at h
  · split at h <;> cases h
  · split at h
    · cases h
      rcases hsign with hs | hs <;> rw [hs] <;> simp <;> omega
    · cases h
      rcases hsign with hs | hs <;> rw [hs] <;> simp <;> omega

theorem reads_unpack (b : BitVec Format.binary64.numBits) :
    Reads (BinaryFormat.double.decode b.toNat) (unpack Format.binary64 b) := by
  rw [decode_double]
  unfold unpack
  dsimp only
  by_cases hones : unpackExponent b = -1#11
  · rw [if_pos hones, if_pos ((unpackExponent_eq_ones_iff b).mp hones)]
    by_cases hm : unpackMantissa b = 0#52
    · rw [if_pos hm, if_pos ((unpackMantissa_eq_zero_iff b).mp hm)]
      exact Reads.infinite
    · rw [if_neg hm, if_neg fun h => hm ((unpackMantissa_eq_zero_iff b).mpr h)]
      exact Reads.nan
  rw [if_neg hones, if_neg fun h => hones ((unpackExponent_eq_ones_iff b).mpr h)]
  by_cases hzero : unpackExponent b = 0#11
  · rw [if_pos hzero, if_pos ((unpackExponent_eq_zero_iff b).mp hzero)]
    by_cases hm : unpackMantissa b = 0#52
    · rw [dif_pos hm, (unpackMantissa_eq_zero_iff b).mp hm]
      exact Reads.zero
    · rw [dif_neg hm]
      simp only [← toNat_unpackMantissa]
      exact Reads.finite _
  · rw [if_neg hzero, if_neg fun h => hzero ((unpackExponent_eq_zero_iff b).mpr h)]
    simp only [← toNat_one_append_unpackMantissa]
    exact Reads.finite _

theorem reads_ofDouble (x : Float) : Reads (Binary.ofDouble x) x.toModel.unpack :=
  reads_unpack x.toBits.toBitVec

theorem isFinite_iff (x : Float) :
    x.isFinite = true ↔ ∃ negative m scale, Binary.ofDouble x = .finite negative m scale := by
  have hreads := reads_ofDouble x
  unfold Float.isFinite Float.Model.isFinite
  generalize Binary.ofDouble x = value at hreads ⊢
  generalize x.toModel.unpack = u at hreads ⊢
  cases hreads <;> simp [UnpackedFloat.isFinite]

theorem beq_zero_iff (x : Float) :
    (x == 0) = true ↔ ∃ negative, Binary.ofDouble x = .finite negative 0 0 := by
  have hreads := reads_ofDouble x
  change UnpackedFloat.beq x.toModel.unpack (.zero .positive) = true ↔ _
  generalize Binary.ofDouble x = value at hreads ⊢
  generalize x.toModel.unpack = u at hreads ⊢
  cases hreads with
  | nan => simp [UnpackedFloat.beq, UnpackedFloat.compare]
  | @infinite negative sign => cases sign <;> simp [UnpackedFloat.beq, UnpackedFloat.compare]
  | zero => simp [UnpackedFloat.beq, UnpackedFloat.compare]
  | @finite negative sign m scale exponent h =>
      have hm : m ≠ 0 := by omega
      cases sign <;> simp [UnpackedFloat.beq, UnpackedFloat.compare, hm]

theorem float_beq_comm (x y : Float) : (x == y) = (y == x) := by
  rw [Bool.eq_iff_iff, Float.beq_iff_ne_nan_and_eq, Float.beq_iff_ne_nan_and_eq]
  constructor
  · rintro ⟨hx, hy, rfl | ⟨rfl, rfl⟩ | ⟨rfl, rfl⟩⟩ <;> simp [hx, hy]
  · rintro ⟨hx, hy, rfl | ⟨rfl, rfl⟩ | ⟨rfl, rfl⟩⟩ <;> simp [hx, hy]

theorem beq_self_of_isFinite {x : Float} (h : x.isFinite = true) : (x == x) = true := by
  rw [Float.beq_self_iff]
  rintro rfl
  cases h

end SExprViewer
