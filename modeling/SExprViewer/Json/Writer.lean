import SExprViewer.Json.Value
import SExprViewer.Number.Text
import SExprViewer.Text.Hex

/-! # Writing JSON

Texts are compact.  A real number has its shortest digits, positionally with at least one
fractional digit when it is zero or `1e-5 ≤ |x| < 1e16`, else with a signed exponent; NaN
and the infinities are `null`.  In a string the quote, the backslash and the control
characters are escaped, nothing else. -/
set_option autoImplicit false

namespace SExprViewer

namespace Json

/-- A real number's digits in JSON: which powers are positional, and `.0` for whole ones. -/
def layoutReal (digits : List Char) (exponent : Int) : List Char :=
  let power := exponent + digits.length - 1
  if power < -5 ∨ 16 ≤ power then Decimal.scientific digits exponent
  else if 0 ≤ exponent then Decimal.plain digits exponent ++ ['.', '0']
  else Decimal.plain digits exponent

def realText (x : Float) : List Char :=
  match Binary.ofDouble x with
  | .finite negative significand scale =>
    (Binary.finite negative significand scale).text .double .toEven layoutReal ['0', '.', '0']
  | _ => ['n', 'u', 'l', 'l']

def escape (c : Char) : List Char :=
  if c = '"' then ['\\', '"']
  else if c = '\\' then ['\\', '\\']
  else if c = '\x08' then ['\\', 'b']
  else if c = '\t' then ['\\', 't']
  else if c = '\n' then ['\\', 'n']
  else if c = '\x0c' then ['\\', 'f']
  else if c = '\r' then ['\\', 'r']
  else if c.toNat < 32 then
    ['\\', 'u', '0', '0', hexDigitLower (c.toNat / 16), hexDigitLower (c.toNat % 16)]
  else [c]

def quote (s : List Char) : List Char := '"' :: (s.flatMap escape ++ ['"'])

mutual

def write : Json → List Char
  | .null | .valueless => ['n', 'u', 'l', 'l']
  | .bool true => ['t', 'r', 'u', 'e']
  | .bool false => ['f', 'a', 'l', 's', 'e']
  | .natural n => decimalDigits n
  | .real x => realText x
  | .string s => quote s.toList
  | .array items => '[' :: writeItems items
  | .object members => '\x7b' :: writeMembers members

/-- The items of an array and its closing bracket. -/
def writeItems : List Json → List Char
  | [] => [']']
  | [j] => j.write ++ [']']
  | j :: rest => j.write ++ ',' :: writeItems rest

/-- The members of an object and its closing brace. -/
def writeMembers : List (String × Json) → List Char
  | [] => ['\x7d']
  | [(name, j)] => quote name.toList ++ ':' :: (j.write ++ ['\x7d'])
  | (name, j) :: rest => quote name.toList ++ ':' :: (j.write ++ ',' :: writeMembers rest)

end

def render (j : Json) : String := String.ofList j.write

end Json

end SExprViewer
