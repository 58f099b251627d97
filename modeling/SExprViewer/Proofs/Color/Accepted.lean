import Mathlib.Data.List.Basic
import SExprViewer.Proofs.Color.Hex

/-! # Which texts are colors

A text is a color exactly if it is 3, 4, 6 or 8 digits behind an optional `#`
(`isSome_ofHex?_iff`).  The color has the bytes of the eight digits that the text stands for
(`ofHex?_eq`) and is written with them, the last two only unless they are `FF` (`toHex_eq`).  So
reading and writing a color undo each other, in whatever form it was read (`ofHex?_reads`). -/
set_option autoImplicit false

namespace SExprViewer

/-! ## Digits -/

/-- The ASCII digits to the base 16. -/
def hexDigits : List Char :=
  ['0', '1', '2', '3', '4', '5', '6', '7', '8', '9',
    'a', 'b', 'c', 'd', 'e', 'f', 'A', 'B', 'C', 'D', 'E', 'F']

/-- The value of a digit, 0 for any other character. -/
def hexValue (c : Char) : Nat := (hexDigitValue? c).getD 0

theorem hexDigitValue?_of_mem {c : Char} (h : c ∈ hexDigits) :
    hexDigitValue? c = some (hexValue c) ∧ hexValue c < 16 ∧
      hexDigitUpper (hexValue c) = c.toUpper := by
  have hall : hexDigits.all fun c => decide (hexDigitValue? c = some (hexValue c) ∧
      hexValue c < 16 ∧ hexDigitUpper (hexValue c) = c.toUpper) := by decide
  exact of_decide_eq_true (List.all_eq_true.mp hall c h)

theorem mem_hexDigits {c : Char} {n : Nat} (h : hexDigitValue? c = some n) : c ∈ hexDigits := by
  have hall : ∀ k < 128, hexDigitValue? (Char.ofNat k) ≠ none → Char.ofNat k ∈ hexDigits := by
    decide
  have hlt : c.toNat < 128 := by
    unfold hexDigitValue? at h
    simp only [Char.le_def, UInt32.le_iff_toNat_le] at h
    have hc : c.val.toNat = c.toNat := rfl
    have hnum : '0'.val.toNat = 48 ∧ '9'.val.toNat = 57 ∧ 'a'.val.toNat = 97 ∧
      'f'.val.toNat = 102 ∧ 'A'.val.toNat = 65 ∧ 'F'.val.toNat = 70 := by decide
    split_ifs at h <;> omega
  have hc := hall c.toNat hlt
  rw [Char.ofNat_toNat] at hc
  exact hc (by rw [h]; nofun)

theorem mapM_hexDigitValue? {ds : List Char} (h : ∀ d ∈ ds, d ∈ hexDigits) :
    ds.mapM hexDigitValue? = some (ds.map hexValue) := by
  induction ds with
  | nil => rfl
  | cons d ds ih =>
      rw [List.mapM_cons, (hexDigitValue?_of_mem (h d List.mem_cons_self)).1,
        ih fun c hc => h c (List.mem_cons_of_mem d hc)]
      rfl

theorem of_mapM_hexDigitValue? {ds : List Char} : ∀ {values : List Nat},
    ds.mapM hexDigitValue? = some values → ∀ d ∈ ds, d ∈ hexDigits := by
  induction ds with
  | nil => nofun
  | cons c ds ih =>
      intro values h d hd
      rw [List.mapM_cons] at h
      obtain ⟨n, hn, h⟩ := Option.bind_eq_some_iff.mp h
      obtain ⟨rest, hrest, -⟩ := Option.bind_eq_some_iff.mp h
      rcases List.mem_cons.mp hd with rfl | hd
      · exact mem_hexDigits hn
      · exact ih hrest d hd

theorem hexByte_of_mem {x y : Char} (hx : x ∈ hexDigits) (hy : y ∈ hexDigits) :
    hexByte (16 * hexValue x + hexValue y).toUInt8 = [x.toUpper, y.toUpper] := by
  obtain ⟨-, hxlt, hxupper⟩ := hexDigitValue?_of_mem hx
  obtain ⟨-, hylt, hyupper⟩ := hexDigitValue?_of_mem hy
  have hbyte : (16 * hexValue x + hexValue y).toUInt8.toNat = 16 * hexValue x + hexValue y :=
    UInt8.toNat_ofNat_of_lt' (by change _ < 256; omega)
  have hhigh : (16 * hexValue x + hexValue y) / 16 = hexValue x := by omega
  have hlow : (16 * hexValue x + hexValue y) % 16 = hexValue y := by omega
  rw [hexByte, hbyte, hhigh, hlow, hxupper, hyupper]

theorem hexByte_eq_FF_iff (n : UInt8) : hexByte n = ['F', 'F'] ↔ n = 255 := by
  have hall : ∀ k < 256, hexByte (UInt8.ofNat k) = ['F', 'F'] ↔ UInt8.ofNat k = 255 := by
    decide +kernel
  have hn := hall n.toNat n.toNat_lt
  rwa [UInt8.ofNat_toNat] at hn

/-! ## Forms -/

/-- A text of these digits, with a `#` before them or without. -/
def IsHexText (text ds : List Char) : Prop :=
  (text = ds ∨ text = '#' :: ds) ∧ ds.length ∈ [3, 4, 6, 8] ∧ ∀ d ∈ ds, d ∈ hexDigits

instance (text ds : List Char) : Decidable (IsHexText text ds) :=
  -- the digits are gone through, not all characters
  haveI : Decidable (∀ d ∈ ds, d ∈ hexDigits) := List.decidableBAll _ ds
  inferInstanceAs (Decidable (_ ∧ _ ∧ _))

/-- The long form of some digits: every digit of a short form is doubled. -/
def longForm (ds : List Char) : List Char :=
  if ds.length ≤ 4 then ds.flatMap fun d => [d, d] else ds

/-- The eight digits of a color, of a long form without alpha those of an opaque one. -/
def eightDigits (ds : List Char) : List Char :=
  longForm ds ++ if (longForm ds).length = 6 then ['F', 'F'] else []

/-- How a color that was read from these digits is written: in upper case and in the long form,
without an alpha of `FF`. -/
def writtenForm (ds : List Char) : List Char :=
  let upper := (longForm ds).map Char.toUpper
  '#' :: if upper.length = 8 ∧ upper.drop 6 = ['F', 'F'] then upper.take 6 else upper

theorem mem_longForm {ds : List Char} {d : Char} : d ∈ longForm ds ↔ d ∈ ds := by
  unfold longForm
  split <;> simp

theorem length_doubled (ds : List Char) : (ds.flatMap fun d => [d, d]).length = 2 * ds.length := by
  simp only [List.length_flatMap, List.length_cons, List.length_nil, List.map_const',
    List.sum_replicate_nat]
  omega

theorem length_longForm {ds : List Char} (h : ds.length ∈ [3, 4, 6, 8]) :
    (longForm ds).length = 6 ∨ (longForm ds).length = 8 := by
  simp only [List.mem_cons, List.not_mem_nil, or_false] at h
  unfold longForm
  split
  · rw [length_doubled]
    omega
  · omega

theorem mem_eightDigits {ds : List Char} (h : ∀ d ∈ ds, d ∈ hexDigits) :
    ∀ d ∈ eightDigits ds, d ∈ hexDigits := by
  intro d hd
  rcases List.mem_append.mp hd with hd | hd
  · exact h d (mem_longForm.mp hd)
  · split at hd
    · obtain rfl : d = 'F' := by simpa using hd
      simp [hexDigits]
    · cases hd

theorem length_eightDigits {ds : List Char} (h : ds.length ∈ [3, 4, 6, 8]) :
    (eightDigits ds).length = 8 := by
  rw [eightDigits, List.length_append]
  rcases length_longForm h with h | h <;> rw [h] <;> rfl

/-- A long form stands for the same eight digits as the form it is of. -/
theorem eightDigits_longForm {ds : List Char} (h : ds.length ∈ [3, 4, 6, 8]) :
    eightDigits (longForm ds) = eightDigits ds := by
  have hlong : longForm (longForm ds) = longForm ds := by
    conv_lhs => rw [longForm]
    rw [if_neg (by rcases length_longForm h with h | h <;> omega)]
  rw [eightDigits, hlong, eightDigits]

/-- What is written is the eight digits in upper case, the last two only unless they are `FF`. -/
theorem writtenForm_eq {ds : List Char} (h : ds.length ∈ [3, 4, 6, 8]) :
    writtenForm ds = '#' ::
      let upper := (eightDigits ds).map Char.toUpper
      if upper.drop 6 = ['F', 'F'] then upper.take 6 else upper := by
  unfold writtenForm eightDigits
  rcases length_longForm h with h | h
  · have hupper : ((longForm ds).map Char.toUpper).length = 6 := by rw [List.length_map, h]
    have hlast : ['F', 'F'].map Char.toUpper = ['F', 'F'] := by decide
    simp only [h, if_true, List.map_append, hlast]
    rw [if_neg (by rw [hupper]; nofun), if_pos (List.drop_left' hupper), List.take_left' hupper]
  · have hupper : ((longForm ds).map Char.toUpper).length = 8 := by rw [List.length_map, h]
    simp only [h, Nat.reduceEqDiff, if_false, List.append_nil, hupper, true_and]

namespace ColorBytes

section Expand
variable {values : List Nat}

theorem expandDigits_three (h : values.length = 3) :
    expandDigits values = values.flatMap (fun v => [v, v]) ++ [15, 15] := by
  match values, h with
  | [r, g, b], _ => rfl

theorem expandDigits_four (h : values.length = 4) :
    expandDigits values = values.flatMap fun v => [v, v] := by
  match values, h with
  | [r, g, b, a], _ => rfl

theorem expandDigits_six (h : values.length = 6) : expandDigits values = values ++ [15, 15] := by
  match values, h with
  | [r₁, r₀, g₁, g₀, b₁, b₀], _ => rfl

theorem expandDigits_eight (h : values.length = 8) : expandDigits values = values := by
  match values, h with
  | [r₁, r₀, g₁, g₀, b₁, b₀, a₁, a₀], _ => rfl

end Expand

theorem expandDigits_eq {ds : List Char} (h : ds.length ∈ [3, 4, 6, 8]) :
    expandDigits (ds.map hexValue) = (eightDigits ds).map hexValue := by
  have hF : [15, 15] = ['F', 'F'].map hexValue := rfl
  have hvalues : (ds.map hexValue).length = ds.length := List.length_map hexValue
  have hdouble : (ds.map hexValue).flatMap (fun v => [v, v]) =
      (ds.flatMap fun d => [d, d]).map hexValue := by
    rw [List.flatMap_map, List.map_flatMap]
    rfl
  have hlength := length_doubled ds
  simp only [List.mem_cons, List.not_mem_nil, or_false] at h
  unfold eightDigits longForm
  rcases h with h | h | h | h
  · rw [expandDigits_three (hvalues.trans h), hdouble, hF, if_pos (by omega), if_pos (by omega),
      List.map_append]
  · rw [expandDigits_four (hvalues.trans h), hdouble, if_pos (by omega), if_neg (by omega),
      List.append_nil]
  · rw [expandDigits_six (hvalues.trans h), hF, if_neg (by omega), if_pos h, List.map_append]
  · rw [expandDigits_eight (hvalues.trans h), if_neg (by omega), if_neg (by omega),
      List.append_nil]

theorem length_of_expandDigits {values : List Nat} (h : (expandDigits values).length = 8) :
    values.length ∈ [3, 4, 6, 8] := by
  unfold expandDigits at h
  split at h <;> simp_all

theorem length_of_ofHexDigits? {values : List Nat} {c : ColorBytes}
    (h : ofHexDigits? values = some c) : values.length = 8 := by
  unfold ofHexDigits? at h
  split at h
  · rfl
  · cases h

/-- The digits of a color's bytes. -/
def digits (c : ColorBytes) : List Char := hexByte c.r ++ hexByte c.g ++ hexByte c.b ++ hexByte c.a

theorem toHex_eq (c : ColorBytes) :
    c.toHex = '#' :: if c.digits.drop 6 = ['F', 'F'] then c.digits.take 6 else c.digits := by
  have hdrop : c.digits.drop 6 = hexByte c.a := rfl
  have htake : c.digits.take 6 = hexByte c.r ++ hexByte c.g ++ hexByte c.b := rfl
  simp only [hdrop, htake, hexByte_eq_FF_iff, toHex]
  split
  · rw [List.append_nil]
  · rfl

theorem ofHexDigits?_eq {ds : List Char} (hlength : ds.length = 8)
    (hdigits : ∀ d ∈ ds, d ∈ hexDigits) :
    ∃ c, ofHexDigits? (ds.map hexValue) = some c ∧ c.digits = ds.map Char.toUpper := by
  match ds, hlength with
  | [r₁, r₀, g₁, g₀, b₁, b₀, a₁, a₀], _ =>
    refine ⟨_, rfl, ?_⟩
    simp only [List.forall_mem_cons] at hdigits
    obtain ⟨hr₁, hr₀, hg₁, hg₀, hb₁, hb₀, ha₁, ha₀, -⟩ := hdigits
    simp only [digits, hexByte_of_mem hr₁ hr₀, hexByte_of_mem hg₁ hg₀, hexByte_of_mem hb₁ hb₀,
      hexByte_of_mem ha₁ ha₀, List.cons_append, List.nil_append, List.map_cons, List.map_nil]

/-- The digits behind an optional `#`. -/
def afterHash : List Char → List Char
  | '#' :: rest => rest
  | rest => rest

theorem ofHex?_afterHash (cs : List Char) :
    ofHex? cs = ((afterHash cs).mapM hexDigitValue?).bind fun values =>
      ofHexDigits? (expandDigits values) := rfl

theorem afterHash_eq {text ds : List Char} (h : IsHexText text ds) : afterHash text = ds := by
  obtain ⟨rfl | rfl, -, hdigits⟩ := h
  · unfold afterHash
    split
    · exact absurd (hdigits '#' List.mem_cons_self) (by decide)
    · rfl
  · rfl

theorem eq_afterHash (cs : List Char) : cs = afterHash cs ∨ cs = '#' :: afterHash cs := by
  unfold afterHash
  split
  · exact .inr rfl
  · exact .inl rfl

theorem ofHex?_eq {text ds : List Char} (h : IsHexText text ds) :
    ofHex? text = ofHexDigits? ((eightDigits ds).map hexValue) := by
  rw [ofHex?_afterHash, afterHash_eq h, mapM_hexDigitValue? h.2.2, Option.bind_some,
    expandDigits_eq h.2.1]

/-- The color of a text of digits has these digits, and is written with them. -/
theorem exists_ofHex? {text ds : List Char} (h : IsHexText text ds) :
    ∃ c, ofHex? text = some c ∧ c.digits = (eightDigits ds).map Char.toUpper ∧
      c.toHex = writtenForm ds := by
  obtain ⟨c, hc, hdigits⟩ := ofHexDigits?_eq (length_eightDigits h.2.1) (mem_eightDigits h.2.2)
  refine ⟨c, (ofHex?_eq h).trans hc, hdigits, ?_⟩
  rw [toHex_eq, hdigits, writtenForm_eq h.2.1]

theorem isSome_ofHex?_iff (text : List Char) :
    (ofHex? text).isSome ↔ ∃ ds, IsHexText text ds := by
  constructor
  · intro h
    obtain ⟨c, hc⟩ := Option.isSome_iff_exists.mp h
    rw [ofHex?_afterHash] at hc
    obtain ⟨values, hvalues, hc⟩ := Option.bind_eq_some_iff.mp hc
    have hdigits := of_mapM_hexDigitValue? hvalues
    obtain rfl : (afterHash text).map hexValue = values :=
      Option.some.inj ((mapM_hexDigitValue? hdigits).symm.trans hvalues)
    have hlength := length_of_expandDigits (length_of_ofHexDigits? hc)
    rw [List.length_map] at hlength
    exact ⟨afterHash text, eq_afterHash text, hlength, hdigits⟩
  · rintro ⟨ds, hds⟩
    obtain ⟨c, hc, -, -⟩ := exists_ofHex? hds
    rw [hc]
    rfl

/-- A form and its long form are texts of one color. -/
theorem ofHex?_longForm {text long ds : List Char} (h : IsHexText text ds)
    (hlong : IsHexText long (longForm ds)) : ofHex? long = ofHex? text := by
  rw [ofHex?_eq hlong, ofHex?_eq h, eightDigits_longForm h.2.1]

end ColorBytes

namespace Color

/-- A text is a color exactly if it is 3, 4, 6 or 8 digits behind an optional `#`.  The color's
channels are its bytes over 255; it is written in upper case and in the long form without an
alpha of `FF`, and read back from that text, as from any long form.  Any color at all, whatever
its channels, is read back from its text with the same bytes. -/
theorem ofHex?_reads :
    (∀ s : String, (ofHex? s).isSome ↔ ∃ ds, IsHexText s.toList ds) ∧
    (∀ (s : String) (ds : List Char), IsHexText s.toList ds →
      ∃ c : Color, ofHex? s = some c ∧
        c.bytes.digits = (eightDigits ds).map Char.toUpper ∧ c = c.bytes.toColor ∧
        c.toHex.toList = writtenForm ds ∧ ofHex? c.toHex = some c ∧
        ∀ t : String, IsHexText t.toList (longForm ds) → ofHex? t = some c) ∧
    ∀ c : Color, ∃ c' : Color, ofHex? c.toHex = some c' ∧ c'.bytes = c.bytes := by
  have hback (c : Color) : ofHex? c.toHex = some c.bytes.toColor := ofJson?_toJson c
  refine ⟨fun s => ?_, fun s ds h => ?_, fun c => ?_⟩
  · rw [ofHex?, Option.isSome_map, ColorBytes.isSome_ofHex?_iff]
  · obtain ⟨b, hb, hdigits, htext⟩ := ColorBytes.exists_ofHex? h
    have hbytes : b.toColor.bytes = b := b.bytes_toColor
    refine ⟨b.toColor, by rw [ofHex?, hb, Option.map_some], by rw [hbytes, hdigits],
      by rw [hbytes], by rw [toHex, String.toList_ofList, hbytes, htext], ?_, fun t ht => ?_⟩
    · rw [hback, hbytes]
    · rw [ofHex?, ColorBytes.ofHex?_longForm h ht, hb, Option.map_some]
  · exact ⟨c.bytes.toColor, hback c, ColorBytes.bytes_toColor c.bytes⟩

theorem ofHex?_reads_short :
    ∃ c : Color, ofHex? "#0aF" = some c ∧ c.toHex = "#00AAFF" ∧ ofHex? "00aaFF" = some c := by
  have hshort : IsHexText "#0aF".toList ['0', 'a', 'F'] := by decide
  obtain ⟨c, hc, -, -, htext, -, hlong⟩ := ofHex?_reads.2.1 "#0aF" ['0', 'a', 'F'] hshort
  exact ⟨c, hc, String.toList_inj.mp htext, hlong "00aaFF" (by decide)⟩

end Color

end SExprViewer
