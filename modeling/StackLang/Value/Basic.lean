/-
The values a stack holds: integers of 64 bits, doubles, booleans and texts.
-/

namespace StackLang

/-- The kinds of values. -/
inductive Kind where
  | int
  | float
  | bool
  | str
  deriving DecidableEq, Repr

/-- The name of a kind, as messages show it. -/
def Kind.name : Kind → String
  | .int => "Int"
  | .float => "Float"
  | .bool => "Bool"
  | .str => "Str"

/-- A value of a stack. -/
inductive Value where
  | int (n : Int64)
  | float (x : Float)
  | bool (b : Bool)
  | str (s : String)
  deriving DecidableEq

namespace Value

/-- The kind of a value. -/
def kind : Value → Kind
  | .int _ => .int
  | .float _ => .float
  | .bool _ => .bool
  | .str _ => .str

/-- The integer, if the value is one. -/
def int? : Value → Option Int64
  | .int n => some n
  | _ => none

/-- The double, if the value is one. -/
def float? : Value → Option Float
  | .float x => some x
  | _ => none

/-- The boolean, if the value is one. -/
def bool? : Value → Option Bool
  | .bool b => some b
  | _ => none

/-- The text, if the value is one. -/
def str? : Value → Option String
  | .str s => some s
  | _ => none

/-- Whether two values agree: they have the same kind and the same content, doubles being compared
as numbers, so that NaN agrees with nothing and the two zeros agree. -/
def agrees : Value → Value → Bool
  | .int m, .int n => m == n
  | .float x, .float y => x.beq y
  | .bool a, .bool b => a == b
  | .str s, .str t => s == t
  | _, _ => false

end Value

end StackLang
