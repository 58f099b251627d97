import SExprViewer.Color.Basic
import SExprViewer.Json.Value
import SExprViewer.Text.Hex

/-! # Hexadecimal colors

A color is written as `#RRGGBB`, or `#RRGGBBAA` when its alpha byte is not 255.  Reading
takes an optional `#` and 3, 4, 6 or 8 digits of either case; a short form stands for the
form with every digit doubled. -/
set_option autoImplicit false

namespace SExprViewer

def hexByte (n : UInt8) : List Char :=
  [hexDigitUpper (n.toNat / 16), hexDigitUpper (n.toNat % 16)]

namespace ColorBytes

/-- The color of eight digits. -/
def ofHexDigits? : List Nat → Option ColorBytes
  | [r₁, r₀, g₁, g₀, b₁, b₀, a₁, a₀] =>
    some ⟨(16 * r₁ + r₀).toUInt8, (16 * g₁ + g₀).toUInt8, (16 * b₁ + b₀).toUInt8,
      (16 * a₁ + a₀).toUInt8⟩
  | _ => none

/-- The eight digits that a shorter form stands for. -/
def expandDigits : List Nat → List Nat
  | [r, g, b] => [r, r, g, g, b, b, 15, 15]
  | [r, g, b, a] => [r, r, g, g, b, b, a, a]
  | [r₁, r₀, g₁, g₀, b₁, b₀] => [r₁, r₀, g₁, g₀, b₁, b₀, 15, 15]
  | ds => ds

def ofHex? (cs : List Char) : Option ColorBytes := do
  let digits := match cs with
    | '#' :: rest => rest
    | rest => rest
  ofHexDigits? (expandDigits (← digits.mapM hexDigitValue?))

def toHex (c : ColorBytes) : List Char :=
  '#' :: (hexByte c.r ++ hexByte c.g ++ hexByte c.b ++ if c.a = 255 then [] else hexByte c.a)

end ColorBytes

namespace Color

def ofHex? (s : String) : Option Color := (ColorBytes.ofHex? s.toList).map ColorBytes.toColor

def toHex (c : Color) : String := String.ofList c.bytes.toHex

def toJson (c : Color) : Json := .string c.toHex

def ofJson? : Json → Option Color
  | .string s => ofHex? s
  | _ => none

end Color

end SExprViewer
