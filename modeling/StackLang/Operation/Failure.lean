/-
Failures: why an operation, or an evaluation, came to no result, and the wording of each.
-/
import StackLang.Operation.Basic

namespace StackLang

/-- Why there is no result. -/
inductive Failure where
  /-- The stack holds fewer values than the operation needs. -/
  | underflow (operation : String) (required found : Nat)
  /-- An operand of arithmetic is no number; `depth` is the stack's size before the operation. -/
  | typeMismatch (operation : String) (found : Kind) (depth : Nat)
  /-- The transform failed on a stack of size `depth`. -/
  | transform (name : Option String) (depth : Nat) (fault : Fault)
  /-- The program goes on after the permitted number of operations. -/
  | stepLimit (limit : Nat)

namespace Failure

/-- The wording of a failure. -/
def message : Failure → String
  | .underflow operation required found =>
    "stack underflow: `" ++ operation ++ "` needs " ++ Text.Numeral.text required ++
      " value(s) but the stack holds " ++ Text.Numeral.text found
  | .typeMismatch operation found depth =>
    "type mismatch: `" ++ operation ++ "` cannot use a " ++ found.name ++
      " value as a number (stack depth " ++ Text.Numeral.text depth ++ ")"
  | .transform name depth _ =>
    "transform `" ++ name.getD "<anonymous>" ++ "` failed (stack depth " ++
      Text.Numeral.text depth ++ ")"
  | .stepLimit limit =>
    "step limit exceeded: more than " ++ Text.Numeral.text limit ++ " operations executed"

/-- The error of the transform that failed, if one did. -/
def fault? : Failure → Option Fault
  | .transform _ _ fault => some fault
  | _ => none

/-- The messages of what caused the failure, the nearest first. -/
def causes (f : Failure) : List String :=
  match f.fault? with
  | some fault => fault.message :: fault.causes
  | none => []

/-- Whether the stack was too short. -/
def isUnderflow : Failure → Bool
  | .underflow .. => true
  | _ => false

/-- Whether an operand was no number. -/
def isTypeMismatch : Failure → Bool
  | .typeMismatch .. => true
  | _ => false

end Failure

end StackLang
