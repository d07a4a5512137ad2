/-
Stacks of values. The buffer keeps the bottom first, so that the top is at the end where pushing and
popping are cheap; everything a reader sees goes by depth, the top first.
-/
import StackLang.Value.Render

namespace StackLang

/-- A stack of values; `items` has the bottom first. -/
structure Stack where
  items : Array Value
  deriving DecidableEq

namespace Stack

/-- The stack without values. -/
def empty : Stack := ⟨#[]⟩

/-- The stack of the given values, the top first. -/
def ofList (values : List Value) : Stack := ⟨values.reverse.toArray⟩

/-- The values from the top to the bottom. -/
def toList (s : Stack) : List Value := s.items.toListRev

/-- The values from the bottom to the top. -/
def toListRev (s : Stack) : List Value := s.items.toList

/-- The number of values. -/
def size (s : Stack) : Nat := s.items.size

/-- Whether there are no values. -/
def isEmpty (s : Stack) : Bool := s.items.isEmpty

/-- The top value. -/
def top? (s : Stack) : Option Value := s.items.back?

/-- The value at a depth, zero being the top. -/
def get? (s : Stack) (depth : Nat) : Option Value :=
  if depth < s.size then s.items[s.size - 1 - depth]? else none

/-- Puts a value on top. -/
def push (s : Stack) (v : Value) : Stack := ⟨s.items.push v⟩

/-- Takes the top value off. -/
def pop? (s : Stack) : Option (Value × Stack) :=
  match s.items.back? with
  | none => none
  | some v => some (v, ⟨s.items.pop⟩)

/-- Puts the top value on once more. -/
def dup? (s : Stack) : Option Stack :=
  match s.items.back? with
  | none => none
  | some v => some ⟨s.items.push v⟩

/-- Exchanges the top two values. -/
def swap? (s : Stack) : Option Stack :=
  if h : 2 ≤ s.items.size then
    some ⟨s.items.swap (s.items.size - 1) (s.items.size - 2) (by omega) (by omega)⟩
  else none

/-- Whether two stacks have the same size and agreeing values at every depth. -/
def agrees (s t : Stack) : Bool := s.items.isEqv t.items Value.agrees

/-- The characters of a stack's written form: its values, the top first, between brackets. -/
def literal (s : Stack) : List Char :=
  '[' :: ((s.toList.map Value.literal).intersperse [',', ' ']).flatten ++ [']']

/-- The written form of a stack. -/
def render (s : Stack) : String := String.ofList s.literal

end Stack

end StackLang
