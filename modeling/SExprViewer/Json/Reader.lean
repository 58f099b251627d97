import SExprViewer.Json.Value
import SExprViewer.Number.Decimal
import SExprViewer.Text.Hex

/-! # Reading JSON

`Json.parse?` reads one value with white space around it and nothing else.

A number's digits are gathered into a 64-bit significand: digits of the whole part that no
longer fit only raise the exponent, those of the fraction are dropped.  The value is the
significand, as a double, times or divided by a power of ten, so the last bit of a long
literal may differ from the nearest double.  -/
set_option autoImplicit false

namespace SExprViewer

namespace Json

def isBlank (c : Char) : Bool := c = ' ' || c = '\t' || c = '\n' || c = '\r'

def skipBlank (cs : List Char) : List Char := cs.dropWhile isBlank

theorem length_dropWhile_le {α : Type} (p : α → Bool) (cs : List α) :
    (cs.dropWhile p).length ≤ cs.length := (List.dropWhile_suffix p).length_le

theorem length_of_skipBlank {c : Char} {cs rest : List Char} (h : skipBlank cs = c :: rest) :
    rest.length < cs.length := by
  have hle := length_dropWhile_le isBlank cs
  rw [skipBlank] at h
  rw [h, List.length_cons] at hle
  exact hle

/-! ### Numbers -/

/-- The significand as digits are gathered, and the power of ten that goes with it. -/
structure Gathered where
  significand : Nat
  exponent : Int
  full : Bool

namespace Gathered

def fits (g : Gathered) (digit : Nat) : Bool := g.significand * 10 + digit < 2 ^ (64 : Nat)

def whole (g : Gathered) (c : Char) : Gathered :=
  let digit := c.toNat - '0'.toNat
  if g.full || !g.fits digit then { g with exponent := g.exponent + 1, full := true }
  else { g with significand := g.significand * 10 + digit }

def fraction (g : Gathered) (c : Char) : Gathered :=
  let digit := c.toNat - '0'.toNat
  if g.full || !g.fits digit then { g with full := true }
  else { g with significand := g.significand * 10 + digit, exponent := g.exponent - 1 }

end Gathered

def powerOfTen (n : Nat) : Float := Decimal.toFloat ⟨false, 1, n⟩

/-- Division by powers of ten that a double can hold, one after another. -/
def divideByPower : Nat → Float → Nat → Float
  | 0, x, _ => x
  | steps + 1, x, n =>
    if n ≤ 308 then x / powerOfTen n
    else if x == 0 then x
    else divideByPower steps (x / powerOfTen 308) (n - 308)

/-- `significand * 10 ^ exponent` in double arithmetic, `none` beyond the largest double.
Three divisions by `10 ^ 308` bring any 64-bit significand to zero. -/
def scaled (significand : Nat) (exponent : Int) : Option Float :=
  let x := Decimal.toFloat ⟨false, significand, 0⟩
  match exponent with
  | .ofNat n =>
    if n ≤ 308 then
      let y := x * powerOfTen n
      if y.isFinite then some y else none
    else if x == 0 then some x else none
  | .negSucc n => some (divideByPower 5 x (n + 1))

structure Literal where
  negative : Bool
  whole : List Char
  fraction : List Char
  power : Option (Bool × List Char)

namespace Literal

def exponent (l : Literal) : Int :=
  match l.power with
  | none => 0
  | some (true, ds) => -(Decimal.ofDigits ds : Int)
  | some (false, ds) => Decimal.ofDigits ds

def value (l : Literal) : Json :=
  let whole := Decimal.ofDigits l.whole
  if l.fraction = [] ∧ l.power = none ∧ whole < 2 ^ (64 : Nat) then
    if !l.negative then .natural whole
    else .real (Decimal.toFloat ⟨true, whole, 0⟩)
  else
    let start := l.whole.foldl Gathered.whole ⟨0, 0, false⟩
    -- A full whole part does not keep the fraction from being gathered.
    let g := l.fraction.foldl Gathered.fraction { start with full := false }
    match scaled g.significand (g.exponent + l.exponent) with
    | some x => .real (if l.negative then -x else x)
    | none => .valueless

end Literal

def digits? (cs : List Char) : Option (List Char × List Char) :=
  if cs.takeWhile Char.isDigit = [] then none
  else some (cs.takeWhile Char.isDigit, cs.dropWhile Char.isDigit)

def power? (cs : List Char) : Option ((Bool × List Char) × List Char) :=
  match cs with
  | '-' :: rest => (digits? rest).map fun (ds, rest) => ((true, ds), rest)
  | '+' :: rest => (digits? rest).map fun (ds, rest) => ((false, ds), rest)
  | rest => (digits? rest).map fun (ds, rest) => ((false, ds), rest)

/-- A number literal: no superfluous leading zero, and digits on both sides of a point. -/
def literal? (cs : List Char) : Option (Literal × List Char) := do
  let (negative, cs) := match cs with
    | '-' :: rest => (true, rest)
    | rest => (false, rest)
  let (whole, cs) ← digits? cs
  if whole.length ≠ 1 ∧ whole.head? = some '0' then none
  let (fraction, cs) ← match cs with
    | '.' :: rest => digits? rest
    | rest => some ([], rest)
  match cs with
  | 'e' :: rest | 'E' :: rest =>
    let (power, cs) ← power? rest
    some (⟨negative, whole, fraction, some power⟩, cs)
  | rest => some (⟨negative, whole, fraction, none⟩, rest)

/-! ### Strings -/

def hexUnit? (a b c d : Char) : Option Nat := do
  some (((← hexDigitValue? a) * 16 + (← hexDigitValue? b)) * 256 +
    (← hexDigitValue? c) * 16 + (← hexDigitValue? d))

def unescape? (c : Char) : Option Char :=
  match c with
  | '"' | '\\' | '/' => some c
  | 'b' => some '\x08'
  | 'f' => some '\x0c'
  | 'n' => some '\n'
  | 'r' => some '\r'
  | 't' => some '\t'
  | _ => none

/-- The code points and surrogates of a string up to its closing quote, and the rest. -/
def units? : List Char → Option (List Nat × List Char)
  | [] => none
  | '"' :: rest => some ([], rest)
  | '\\' :: 'u' :: a :: b :: c :: d :: rest => do
    let unit ← hexUnit? a b c d
    let (units, rest) ← units? rest
    some (unit :: units, rest)
  | '\\' :: c :: rest => do
    let c ← unescape? c
    let (units, rest) ← units? rest
    some (c.toNat :: units, rest)
  | c :: rest =>
    if c.toNat < 32 then none
    else do
      let (units, rest) ← units? rest
      some (c.toNat :: units, rest)

def isHighSurrogate (n : Nat) : Bool := 0xD800 ≤ n && n < 0xDC00
def isLowSurrogate (n : Nat) : Bool := 0xDC00 ≤ n && n < 0xE000

/-- The characters of a string: a high and a low surrogate make one, and neither stands
alone. -/
def pairUp? : List Nat → Option (List Char)
  | [] => some []
  | high :: low :: rest =>
    if isHighSurrogate high then
      if isLowSurrogate low then
        (pairUp? rest).map (Char.ofNat (0x10000 + (high - 0xD800) * 0x400 + (low - 0xDC00)) :: ·)
      else none
    else if isLowSurrogate high then none
    else (pairUp? (low :: rest)).map (Char.ofNat high :: ·)
  | [unit] =>
    if isHighSurrogate unit || isLowSurrogate unit then none else some [Char.ofNat unit]

def decodeUnits (units : List Nat) : Option String := (pairUp? units).map String.ofList

/-! ### Values -/

abbrev Rest (cs : List Char) := { rest : List Char // rest.length < cs.length }

def word? (word cs : List Char) : Option (List Char) :=
  if word.isPrefixOf cs then some (cs.drop word.length) else none

def scalar? (cs : List Char) : Option (Json × List Char) :=
  match cs with
  | '"' :: rest => (units? rest).map fun (units, rest) =>
      (match decodeUnits units with
        | some s => .string s
        | none => .valueless, rest)
  | 'n' :: _ => (word? ['n', 'u', 'l', 'l'] cs).map (.null, ·)
  | 't' :: _ => (word? ['t', 'r', 'u', 'e'] cs).map (.bool true, ·)
  | 'f' :: _ => (word? ['f', 'a', 'l', 's', 'e'] cs).map (.bool false, ·)
  | cs => (literal? cs).map fun (l, rest) => (l.value, rest)

def progress? {α : Type} (cs : List Char) : Option (α × List Char) → Option (α × Rest cs)
  | some (a, rest) => if h : rest.length < cs.length then some (a, ⟨rest, h⟩) else none
  | none => none

/-- A name and the colon after it, standing at the opening quote. The name is `none` when
no text can hold it. -/
def name? (cs : List Char) : Option (Option String × List Char) :=
  match cs with
  | '"' :: rest => do
    let (units, rest) ← units? rest
    match skipBlank rest with
    | ':' :: rest => some (decodeUnits units, rest)
    | _ => none
  | _ => none

/-- An object of members some of whose names no text can hold stands for nothing. -/
def ofMembers (members : List (Option String × Json)) : Json :=
  match members.mapM fun (name, j) => name.map (·, j) with
  | some members => .object members
  | none => .valueless

mutual

def value? (cs : List Char) : Option (Json × Rest cs) :=
  match h : skipBlank cs with
  | '[' :: rest =>
    have hr := length_of_skipBlank h
    match h' : skipBlank rest with
    | ']' :: rest' =>
      have hr' := length_of_skipBlank h'
      some (.array [], ⟨rest', by omega⟩)
    | _ => match items? rest with
      | some (items, ⟨rest', h''⟩) => some (.array items, ⟨rest', by omega⟩)
      | none => none
  | '\x7b' :: rest =>
    have hr := length_of_skipBlank h
    match h' : skipBlank rest with
    | '\x7d' :: rest' =>
      have hr' := length_of_skipBlank h'
      some (.object [], ⟨rest', by omega⟩)
    | _ => match members? rest with
      | some (members, ⟨rest', h''⟩) => some (ofMembers members, ⟨rest', by omega⟩)
      | none => none
  | rest => progress? cs (scalar? rest)
termination_by 2 * cs.length
decreasing_by all_goals omega

def items? (cs : List Char) : Option (List Json × Rest cs) :=
  match value? cs with
  | none => none
  | some (j, ⟨rest, hr⟩) =>
    match h : skipBlank rest with
    | ',' :: rest' =>
      have hr' := length_of_skipBlank h
      match items? rest' with
      | some (items, ⟨last, hl⟩) => some (j :: items, ⟨last, by omega⟩)
      | none => none
    | ']' :: rest' =>
      have hr' := length_of_skipBlank h
      some ([j], ⟨rest', by omega⟩)
    | _ => none
termination_by 2 * cs.length + 1
decreasing_by all_goals omega

def members? (cs : List Char) : Option (List (Option String × Json) × Rest cs) :=
  match progress? (skipBlank cs) (name? (skipBlank cs)) with
  | none => none
  | some (name, ⟨afterName, ha⟩) =>
    have hc := length_dropWhile_le isBlank cs
    have hn : afterName.length < cs.length := Nat.lt_of_lt_of_le ha hc
    match value? afterName with
    | none => none
    | some (j, ⟨rest, hr⟩) =>
      match h : skipBlank rest with
      | ',' :: rest' =>
        have hr' := length_of_skipBlank h
        match members? rest' with
        | some (members, ⟨last, hl⟩) => some ((name, j) :: members, ⟨last, by omega⟩)
        | none => none
      | '\x7d' :: rest' =>
        have hr' := length_of_skipBlank h
        some ([(name, j)], ⟨rest', by omega⟩)
      | _ => none
termination_by 2 * cs.length + 1
decreasing_by all_goals omega

end

def parse? (text : String) : Option Json :=
  match value? text.toList with
  | some (j, rest) => if skipBlank rest.1 = [] then some j else none
  | none => none

end Json

end SExprViewer
