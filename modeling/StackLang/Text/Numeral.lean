/-
Decimal numerals of integers: writing them, and reading them into a bounded range with the reason
why a text is none. Reading goes from left to right; at each character a wrong digit is noticed
before a value that has left the range. A numeral may stand between blanks, which trimming removes at
both ends of a text; a character is blank when it has the Unicode property White_Space.
-/
import StackLang.Binary.Double

namespace StackLang.Text

/-! ## Blanks -/

/-- The 25 characters with the Unicode property White_Space. -/
def isBlank (c : Char) : Bool :=
  let n := c.toNat
  (9 ≤ n && n ≤ 13) || n == 0x20 || n == 0x85 || n == 0xA0 || n == 0x1680 ||
    (0x2000 ≤ n && n ≤ 0x200A) || n == 0x2028 || n == 0x2029 || n == 0x202F || n == 0x205F ||
    n == 0x3000

/-- The text without the blanks at its start. -/
def trimStart (cs : List Char) : List Char := cs.dropWhile isBlank

/-- The text without the blanks at its end. -/
def trimEnd (cs : List Char) : List Char := (cs.reverse.dropWhile isBlank).reverse

/-- The text without the blanks at either end. -/
def trim (cs : List Char) : List Char := trimEnd (trimStart cs)

/-! ## Numerals -/

namespace Numeral

/-- Why a text is not a numeral of the wanted range. -/
inductive Fault where
  | empty
  | invalidDigit
  | tooLarge
  | tooSmall
  deriving DecidableEq, Repr

/-- The wording of a fault. -/
def Fault.message : Fault → String
  | .empty => "cannot parse integer from empty string"
  | .invalidDigit => "invalid digit found in string"
  | .tooLarge => "number too large to fit in target type"
  | .tooSmall => "number too small to fit in target type"

/-- The digits of a natural number. -/
def ofNat (n : Nat) : List Char := Nat.toDigits 10 n

/-- The numeral of an integer, with a minus sign when it is negative. -/
def ofInt (n : Int) : List Char :=
  if n < 0 then '-' :: ofNat n.natAbs else ofNat n.natAbs

/-- The text of a natural number. -/
def text (n : Nat) : String := String.ofList (ofNat n)

/-- The value of an ASCII digit. -/
def digit? (c : Char) : Option Nat :=
  if c.isDigit then some (c.toNat - '0'.toNat) else none

/-- Reads digits after a prefix of value `acc`; a value above `bound` is the fault `excess`. -/
def readDigits (bound : Nat) (excess : Fault) : Nat → List Char → Except Fault Nat
  | acc, [] => .ok acc
  | acc, c :: cs =>
    match digit? c with
    | none => .error .invalidDigit
    | some d =>
      if acc * 10 + d ≤ bound then readDigits bound excess (acc * 10 + d) cs else .error excess

/-- Reads the digits of a magnitude. There has to be one: a sign alone is a wrong digit. -/
def readMagnitude (bound : Nat) (excess : Fault) : List Char → Except Fault Nat
  | [] => .error .invalidDigit
  | cs => readDigits bound excess 0 cs

/-- Reads a signed integer of 64 bits: an optional sign and at least one digit. -/
def readInt64 : List Char → Except Fault Int64
  | [] => .error .empty
  | '-' :: cs => (readMagnitude (pow2 63) .tooSmall cs).map fun n => Int64.ofInt (-n)
  | '+' :: cs => (readMagnitude (pow2 63 - 1) .tooLarge cs).map fun n => Int64.ofNat n
  | cs => (readMagnitude (pow2 63 - 1) .tooLarge cs).map fun n => Int64.ofNat n

/-- Reads a natural number below 2^64: an optional plus sign and at least one digit. -/
def readWord : List Char → Except Fault Nat
  | [] => .error .empty
  | '+' :: cs => readMagnitude (pow2 64 - 1) .tooLarge cs
  | cs => readMagnitude (pow2 64 - 1) .tooLarge cs

end Numeral

end StackLang.Text
