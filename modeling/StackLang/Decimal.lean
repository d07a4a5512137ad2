/-
Decimal numbers `coefficient · 10 ^ exponent`: the double nearest to one, how one is laid out as text, and
how a text is read as one. In a layout's range of exponents the notation is positional, with at least one
digit after the point; outside of it one digit stands before the point and an exponent follows. A text is
read as an optional sign, digits with at most one point and at least one digit in all, and optionally an
exponent mark with an optional sign and at least one digit. Where a double is wanted, the words for the
infinities and for NaN are read as well; a double that is to be finite is refused afterwards if it is not.
-/
import StackLang.Text.Numeral

namespace StackLang

/-- The number `coefficient · 10 ^ exponent`. -/
structure Decimal where
  coefficient : Nat
  exponent : Int
  deriving DecidableEq, Repr

/-- The exponents of the leading digit that are written positionally, both ends included. -/
structure Layout where
  least : Int
  most : Int
  deriving DecidableEq, Repr

/-- Literals are positional from 10^-4 up to, but not including, 10^16. -/
def Layout.literal : Layout := ⟨-4, 15⟩

namespace Decimal

/-- The number of digits of the coefficient. -/
def length (d : Decimal) : Nat := (Nat.toDigits 10 d.coefficient).length

/-- The double nearest to `± d`. Decimals at or above 10^309 are infinite and those below 10^-324
are zero, which is decided before any power is formed. -/
def toFloat (negative : Bool) (d : Decimal) : Float :=
  if d.coefficient = 0 then Binary.ofRatio negative 0 1
  else if 310 ≤ d.length + d.exponent then Binary.ofRatio negative (pow2 1024) 1
  else if d.length + d.exponent ≤ -324 then Binary.ofRatio negative 0 1
  else Binary.ofRatio negative (d.coefficient * pow10 d.exponent.toNat) (pow10 (-d.exponent).toNat)

/-! ## Writing -/

/-- Positional notation of digits with `point` of them before the point. -/
def positional (digits : List Char) (point : Int) : List Char :=
  if point ≤ 0 then '0' :: '.' :: (List.replicate (-point).toNat '0' ++ digits)
  else if digits.length ≤ point then
    digits ++ List.replicate (point.toNat - digits.length) '0' ++ ['.', '0']
  else digits.take point.toNat ++ '.' :: digits.drop point.toNat

/-- Notation with an exponent: a point stands only between digits. -/
def scientific (digits : List Char) (exponent : Int) : List Char :=
  match digits with
  | [] => []
  | [d] => d :: 'e' :: Text.Numeral.ofInt exponent
  | d :: ds => d :: '.' :: (ds ++ 'e' :: Text.Numeral.ofInt exponent)

/-- The text of a decimal in a layout. -/
def render (layout : Layout) (d : Decimal) : List Char :=
  let digits := Text.Numeral.ofNat d.coefficient
  let point := digits.length + d.exponent
  if layout.least ≤ point - 1 ∧ point - 1 ≤ layout.most then positional digits point
  else scientific digits (point - 1)

/-! ## Reading -/

/-- Splits a sign off: whether it is a minus, and the rest. -/
def splitSign : List Char → Bool × List Char
  | '-' :: cs => (true, cs)
  | '+' :: cs => (false, cs)
  | cs => (false, cs)

/-- The value of a list of digits. -/
def ofDigits (cs : List Char) : Nat :=
  cs.foldl (fun n c => n * 10 + (c.toNat - '0'.toNat)) 0

/-- Reads what follows the digits: nothing, or an exponent. -/
def readExponent? : List Char → Option Int
  | [] => some 0
  | c :: cs =>
    if c = 'e' ∨ c = 'E' then
      let (negative, digits) := splitSign cs
      if digits ≠ [] ∧ digits.all Char.isDigit then
        some (if negative then -(ofDigits digits : Int) else ofDigits digits)
      else none
    else none

/-- The digits after a point, if the text starts with one, and the rest. -/
def splitFraction : List Char → List Char × List Char
  | '.' :: cs => (cs.takeWhile Char.isDigit, cs.dropWhile Char.isDigit)
  | cs => ([], cs)

/-- Reads a decimal without a sign. -/
def readUnsigned? (cs : List Char) : Option Decimal :=
  let whole := cs.takeWhile Char.isDigit
  let (fraction, rest) := splitFraction (cs.dropWhile Char.isDigit)
  if whole = [] ∧ fraction = [] then none
  else (readExponent? rest).map fun e => ⟨ofDigits (whole ++ fraction), e - fraction.length⟩

/-- Reads a decimal: whether it has a minus sign, and its magnitude. -/
def read? (cs : List Char) : Option (Bool × Decimal) :=
  let (negative, rest) := splitSign cs
  (readUnsigned? rest).map fun d => (negative, d)

/-- The double that a word names, in capitals or not: an infinity or NaN. -/
def ofWord? (negative : Bool) (cs : List Char) : Option Float :=
  let word := cs.map Char.toLower
  if word = ['i', 'n', 'f'] ∨ word = ['i', 'n', 'f', 'i', 'n', 'i', 't', 'y'] then
    some (Binary.infinity negative)
  else if word = ['n', 'a', 'n'] then some (Binary.nan negative)
  else none

/-- Reads a double: the one nearest to the decimal that the text spells, which is infinite when the decimal
is too large, or else the one that a word names behind an optional sign. -/
def readFloat? (cs : List Char) : Option Float :=
  let (negative, rest) := splitSign cs
  match readUnsigned? rest with
  | some d => some (d.toFloat negative)
  | none => ofWord? negative rest

/-- Reads a double and refuses infinities and NaN. -/
def readFinite? (cs : List Char) : Option Float := (readFloat? cs).filter fun x => x.isFinite

end Decimal

end StackLang
