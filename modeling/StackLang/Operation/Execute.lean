/-
Executing an operation on a stack. Depth is checked before operands are coerced, and of two operands
that are no numbers the top one is blamed.
-/
import StackLang.Operation.Failure
import StackLang.Value.Number

namespace StackLang.Operation

/-- The failure of an operation on a stack of `found` values that is too short for it. -/
def underflow (op : Operation) (found : Nat) : Failure :=
  .underflow op.name op.requiredDepth found

/-- Replaces the top two values by `f` of the numbers they stand for, the top one first. -/
def combine (op : Operation) (f : Number → Number → Number) (s : Stack) : Except Failure Stack :=
  let depth := s.size
  match s.pop? with
  | none => .error (op.underflow depth)
  | some (top, rest) =>
    match rest.pop? with
    | none => .error (op.underflow depth)
    | some (second, rest) =>
      match top.toNumber? with
      | none => .error (.typeMismatch op.name top.kind depth)
      | some x =>
        match second.toNumber? with
        | none => .error (.typeMismatch op.name second.kind depth)
        | some y => .ok (rest.push (f x y).toValue)

/-- The stack after an operation, or why it failed. -/
def execute (op : Operation) (s : Stack) : Except Failure Stack :=
  let depth := s.size
  match op with
  | .push v => .ok (s.push v)
  | .pop =>
    match s.pop? with
    | some (_, rest) => .ok rest
    | none => .error (pop.underflow depth)
  | .dup =>
    match s.dup? with
    | some t => .ok t
    | none => .error (dup.underflow depth)
  | .swap =>
    match s.swap? with
    | some t => .ok t
    | none => .error (swap.underflow depth)
  | .add => add.combine Number.add s
  | .mul => mul.combine Number.mul s
  | .apply t =>
    match t.run s with
    | .ok r => .ok r
    | .error fault => .error (.transform t.name depth fault)

end StackLang.Operation
