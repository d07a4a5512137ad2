/-
Numbers, the operands of arithmetic, and the coercion of values to them. Integers and doubles are
numbers, a boolean counts as one or zero, and a text is the number it spells between its blanks, if
that is an integer of 64 bits or a finite double. Integer arithmetic wraps around; as soon as one
operand is a double, both are taken as doubles.
-/
import StackLang.Value.Basic
import StackLang.Decimal

namespace StackLang

/-- An operand of arithmetic. -/
inductive Number where
  | int (n : Int64)
  | float (x : Float)
  deriving DecidableEq

namespace Number

/-- The number as a double, the nearest one for an integer. -/
def toFloat : Number → Float
  | .int n => Binary.ofInt n.toInt
  | .float x => x

/-- The number as a value. -/
def toValue : Number → Value
  | .int n => .int n
  | .float x => .float x

/-- The sum, wrapping around on integers. -/
def add : Number → Number → Number
  | .int m, .int n => .int (m + n)
  | x, y => .float (x.toFloat + y.toFloat)

/-- The product, wrapping around on integers. -/
def mul : Number → Number → Number
  | .int m, .int n => .int (m * n)
  | x, y => .float (x.toFloat * y.toFloat)

/-- Reads an integer of 64 bits, or else a finite double. The whole text has to be the number. -/
def read? (cs : List Char) : Option Number :=
  match Text.Numeral.readInt64 cs with
  | .ok n => some (.int n)
  | .error _ => (Decimal.readFinite? cs).map .float

end Number

/-- The number a value stands for, if any. -/
def Value.toNumber? : Value → Option Number
  | .int n => some (.int n)
  | .float x => some (.float x)
  | .bool b => some (.int (if b then 1 else 0))
  | .str s => Number.read? (Text.trim s.toList)

end StackLang
