import SExprViewer.Number.Shortest

/-! # Number text

Decimals are written positionally (`plain`) or with an exponent (`scientific`), and a
binary value as its shortest decimal.  Labels and style texts use `plainText`, which
never shows an exponent and no fraction for a whole number. -/
set_option autoImplicit false

namespace SExprViewer

def decimalDigits (n : Nat) : List Char := Nat.toDigits 10 n

namespace Decimal

/-- `digits * 10 ^ exponent` without an exponent, the digits given as text. -/
def plain (digits : List Char) : Int → List Char
  | .ofNat n => digits ++ List.replicate n '0'
  | .negSucc n =>
    let places := n + 1
    if places < digits.length then
      digits.take (digits.length - places) ++ '.' :: digits.drop (digits.length - places)
    else '0' :: '.' :: (List.replicate (places - digits.length) '0' ++ digits)

def scientific (digits : List Char) (exponent : Int) : List Char :=
  let power := exponent + digits.length - 1
  let mantissa := match digits with
    | d :: e :: ds => d :: '.' :: e :: ds
    | ds => ds
  mantissa ++ 'e' :: (if power < 0 then '-' else '+') :: decimalDigits power.natAbs

end Decimal

namespace Binary

def text (f : BinaryFormat) (tie : TieRule) (layout : List Char → Int → List Char)
    (zero : List Char) : Binary → List Char
  | .nan => ['N', 'a', 'N']
  | .infinite negative => (if negative then ['-'] else []) ++ ['i', 'n', 'f']
  | .finite negative significand scale =>
    (if negative then ['-'] else []) ++
      if significand = 0 then zero
      else
        let (digits, exponent) := shortest f tie significand scale
        layout (decimalDigits digits) exponent

end Binary

/-- The plain text of a double: never an exponent, `-0` for negative zero. -/
def plainText (x : Float) : List Char :=
  (Binary.ofDouble x).text .double .awayFromZero Decimal.plain ['0']

def plainTextSingle (x : Float32) : List Char :=
  (Binary.ofSingle x).text .single .awayFromZero Decimal.plain ['0']

end SExprViewer
