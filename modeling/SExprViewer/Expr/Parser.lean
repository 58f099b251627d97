import SExprViewer.Expr.Basic
import SExprViewer.Expr.Error

/-! # Reading expressions

A source text is white space, one list, and anything at all behind it.  Inside a list,
items may be separated by white space: lists, texts in single or double quotes, and atoms,
which are longest runs of characters other than white space, parentheses and quotes.  A
word `-?[0-9]+(\.[0-9]+)?` is a number, every other word a symbol.

The readers work on what is left of the source and tell how many characters are left at a
fault, from which `parse` finds its position. -/
set_option autoImplicit false

namespace SExprViewer

structure ParseSettings where
  maxDepth : Nat
deriving DecidableEq, Repr

def ParseSettings.standard : ParseSettings := ⟨256⟩

namespace Expr

def isWhite (c : Char) : Bool := c = ' ' || c = '\t' || c = '\r' || c = '\n'

def isQuote (c : Char) : Bool := c = '"' || c = '\''

def isWordChar (c : Char) : Bool := !isWhite c && c != '(' && c != ')' && !isQuote c

def skipWhite (cs : List Char) : List Char := cs.dropWhile isWhite

/-- A fault and the number of characters from it to the end of the source. -/
structure Failure where
  fault : SyntaxFault
  left : Nat
deriving DecidableEq, Repr

def splitNumeral? (word : List Char) : Option (List Char × List Char) :=
  let whole := word.takeWhile Char.isDigit
  if whole = [] then none
  else
    match word.dropWhile Char.isDigit with
    | [] => some (whole, [])
    | c :: fraction =>
      if c = '.' ∧ fraction ≠ [] ∧ fraction.all Char.isDigit then some (whole, fraction)
      else none

def numeral? (word : List Char) : Option Decimal :=
  let (negative, digits) := match word with
    | '-' :: rest => (true, rest)
    | rest => (false, rest)
  (splitNumeral? digits).map fun (whole, fraction) =>
    ⟨negative, Decimal.ofDigits (whole ++ fraction), -(fraction.length : Int)⟩

def atomOfWord (word : List Char) : Atom :=
  match numeral? word with
  | some d => .number d.toFloat
  | none => .symbol ⟨String.ofList word⟩

/-- A text behind its opening quote: the characters up to the closing one, and the rest. -/
def readText? (quote : Char) (cs : List Char) : Option (List Char × List Char) :=
  match cs.dropWhile (· != quote) with
  | [] => none
  | _ :: rest => some (cs.takeWhile (· != quote), rest)

def readWord (cs : List Char) : List Char × List Char :=
  (cs.takeWhile isWordChar, cs.dropWhile isWordChar)

theorem length_readText? {quote : Char} {cs text rest : List Char}
    (h : readText? quote cs = some (text, rest)) : rest.length < cs.length := by
  have hle := (List.dropWhile_suffix (l := cs) (· != quote)).length_le
  unfold readText? at h
  split at h
  · simp at h
  · rename_i heq
    simp only [Option.some.injEq, Prod.mk.injEq] at h
    rw [heq, List.length_cons, h.2] at hle
    omega

theorem length_readWord {c : Char} (cs : List Char) (h : isWordChar c = true) :
    (readWord (c :: cs)).2.length < (c :: cs).length := by
  have hle := (List.dropWhile_suffix (l := cs) isWordChar).length_le
  simp only [readWord, List.dropWhile_cons, h, if_true, List.length_cons]
  omega

abbrev Rest (cs : List Char) := { rest : List Char // rest.length < cs.length }

/-- The items of a list from the next one on, up to its closing parenthesis, when `depth`
lists are open. -/
def readItems (limit depth : Nat) (cs : List Char) : Except Failure (List Expr × Rest cs) :=
  have hs := (List.dropWhile_suffix (l := cs) isWhite).length_le
  match h : skipWhite cs with
  | [] => .error ⟨.unexpectedEnd ')', 0⟩
  | c :: tail =>
    have ht : tail.length < cs.length := by
      rw [skipWhite] at h; rw [h, List.length_cons] at hs; omega
    if c = ')' then .ok ([], ⟨tail, ht⟩)
    else if c = '(' then
      if limit ≤ depth then .error ⟨.tooDeep limit, tail.length + 1⟩
      else
        match readItems limit (depth + 1) tail with
        | .error e => .error e
        | .ok (inner, ⟨rest, hr⟩) =>
          match readItems limit depth rest with
          | .error e => .error e
          | .ok (items, ⟨last, hl⟩) => .ok (.list inner :: items, ⟨last, by omega⟩)
    else if hq : isQuote c then
      match h' : readText? c tail with
      | none => .error ⟨.unterminated c, tail.length + 1⟩
      | some (text, rest) =>
        have hr := length_readText? h'
        match readItems limit depth rest with
        | .error e => .error e
        | .ok (items, ⟨last, hl⟩) =>
          .ok (.atom (.text (String.ofList text)) :: items, ⟨last, by omega⟩)
    else if ha : isWordChar c then
      have hw := length_readWord tail ha
      match readItems limit depth (readWord (c :: tail)).2 with
      | .error e => .error e
      | .ok (items, ⟨last, hl⟩) =>
        .ok (.atom (atomOfWord (readWord (c :: tail)).1) :: items,
          ⟨last, by rw [List.length_cons] at hw; omega⟩)
    else .error ⟨.expectedList, tail.length + 1⟩
termination_by cs.length
decreasing_by all_goals (first | omega | (rw [List.length_cons] at hw; omega))

def readList (limit depth : Nat) (cs : List Char) : Except Failure (Expr × List Char) :=
  if limit ≤ depth then .error ⟨.tooDeep limit, cs.length⟩
  else
    match readItems limit (depth + 1) cs.tail with
    | .error e => .error e
    | .ok (items, rest) => .ok (.list items, rest.1)

/-- The list that a source begins with, and what stands behind it. A quoted text in its
place is not a list, but an unterminated one is reported as such. -/
def readSource (limit : Nat) (source : List Char) : Except Failure (Expr × List Char) :=
  match skipWhite source with
  | [] => .error ⟨.unexpectedEnd '(', 0⟩
  | c :: tail =>
    if c = '(' then readList limit 0 (c :: tail)
    else if isQuote c ∧ readText? c tail = none then .error ⟨.unterminated c, tail.length + 1⟩
    else .error ⟨.expectedList, tail.length + 1⟩

def parse (settings : ParseSettings) (source : String) : Except SyntaxError Expr :=
  match readSource settings.maxDepth source.toList with
  | .ok (e, _) => .ok e
  | .error ⟨fault, left⟩ =>
    .error ⟨fault, Position.ofOffset source.toList (source.toList.length - left)⟩

end Expr

end SExprViewer
