/-
The literal form of values. Doubles have the fewest digits that read back and always a point or an
exponent, so they never look like integers; texts are quoted.
-/
import StackLang.Value.Basic
import StackLang.Text.Literal
import StackLang.Decimal.Shortest

namespace StackLang

namespace Binary

/-- The magnitude of the finite double `m · 2 ^ q` as literals show it. -/
def renderMagnitude (m : Nat) (q : Int) : List Char :=
  (if m = 0 then ⟨0, 0⟩ else Decimal.shortest m q : Decimal).render .literal

/-- The literal form of a double. -/
def Double.render : Double → List Char
  | .nan => ['n', 'a', 'n']
  | .infinite negative => (if negative then ['-'] else []) ++ ['i', 'n', 'f']
  | .finite negative m q => (if negative then ['-'] else []) ++ renderMagnitude m q

end Binary

namespace Value

/-- The characters of a value's literal form. -/
def literal : Value → List Char
  | .int n => Text.Numeral.ofInt n.toInt
  | .float x => (Binary.Double.ofFloat x).render
  | .bool true => ['t', 'r', 'u', 'e']
  | .bool false => ['f', 'a', 'l', 's', 'e']
  | .str s => Text.Literal.encode s.toList

/-- The literal form of a value. -/
def render (v : Value) : String := String.ofList v.literal

end Value

end StackLang
