import SExprViewer.Color.Hex

/-! # A color comes back from its digits

The digits of a color's bytes read as these bytes (`ofHex?_toHex`), and every byte is that of its
channel (`channelByte_byteChannel`).  So a color that is written and read is the color of its
bytes (`ofJson?_toJson`), which is written with the same digits (`toJson_toColor`). -/
set_option autoImplicit false

namespace SExprViewer

theorem hexDigitValue?_hexDigitUpper {n : Nat} (hn : n < 16) :
    hexDigitValue? (hexDigitUpper n) = some n := by
  have hall : ∀ n < 16, hexDigitValue? (hexDigitUpper n) = some n := by decide
  exact hall n hn

/-- The values of the two digits of a byte. -/
def byteDigits (n : UInt8) : List Nat := [n.toNat / 16, n.toNat % 16]

theorem mapM_hexByte (n : UInt8) : (hexByte n).mapM hexDigitValue? = some (byteDigits n) := by
  have hhigh : n.toNat / 16 < 16 := Nat.div_lt_of_lt_mul n.toNat_lt
  have hlow : n.toNat % 16 < 16 := Nat.mod_lt _ (by decide)
  simp only [hexByte, List.mapM_cons, List.mapM_nil, hexDigitValue?_hexDigitUpper hhigh,
    hexDigitValue?_hexDigitUpper hlow]
  rfl

theorem toUInt8_byteDigits (n : UInt8) : (16 * (n.toNat / 16) + n.toNat % 16).toUInt8 = n := by
  rw [Nat.div_add_mod]
  exact UInt8.ofNat_toNat

theorem channelByte_byteChannel (n : UInt8) : channelByte (byteChannel n) = n := by
  have hall : ∀ k < 256, channelByte (byteChannel (UInt8.ofNat k)) = UInt8.ofNat k := by
    decide +kernel
  have hn := hall n.toNat n.toNat_lt
  rwa [UInt8.ofNat_toNat] at hn

namespace ColorBytes

/-- The digits of a color's bytes read as these bytes. -/
theorem ofHex?_toHex (c : ColorBytes) : ofHex? c.toHex = some c := by
  have hdigits : (hexByte c.r ++ hexByte c.g ++ hexByte c.b ++
      if c.a = 255 then [] else hexByte c.a).mapM hexDigitValue? =
      some (byteDigits c.r ++ byteDigits c.g ++ byteDigits c.b ++
        if c.a = 255 then [] else byteDigits c.a) := by
    split <;> simp [mapM_hexByte]
  unfold ofHex? toHex
  simp only [hdigits, Option.bind_eq_bind, Option.bind_some]
  split
  · rename_i ha
    simp only [byteDigits, List.cons_append, List.nil_append, expandDigits, ofHexDigits?,
      toUInt8_byteDigits]
    cases c
    cases ha
    rfl
  · simp only [byteDigits, List.cons_append, List.nil_append, expandDigits, ofHexDigits?,
      toUInt8_byteDigits]

theorem bytes_toColor (c : ColorBytes) : c.toColor.bytes = c := by
  simp only [toColor, Color.bytes, channelByte_byteChannel]

end ColorBytes

namespace Color

/-- A color that is written and read is the color of its bytes. -/
theorem ofJson?_toJson (c : Color) : ofJson? c.toJson = some c.bytes.toColor := by
  simp only [toJson, ofJson?, ofHex?, toHex, String.toList_ofList, ColorBytes.ofHex?_toHex,
    Option.map_some]

theorem toJson_toColor (c : Color) : c.bytes.toColor.toJson = c.toJson := by
  simp only [toJson, toHex, ColorBytes.bytes_toColor]

end Color

end SExprViewer
