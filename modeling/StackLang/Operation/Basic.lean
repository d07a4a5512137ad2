/-
Operations, the single transitions of a stack, and the transforms that one of them applies.
-/
import StackLang.Stack

namespace StackLang

/-- The errors of a type say what happened, and what caused it, the nearest cause first. -/
class ErrorText (E : Type) where
  message : E → String
  causes : E → List String

/-- The error of a transform, which may be of any type whose errors say what happened. -/
structure Fault : Type 1 where
  {Error : Type}
  [text : ErrorText Error]
  error : Error

/-- What the error says. -/
def Fault.message (fault : Fault) : String := fault.text.message fault.error

/-- What the causes of the error say, the nearest first. -/
def Fault.causes (fault : Fault) : List String := fault.text.causes fault.error

/-- A function on whole stacks, which may fail and may have a name. The evaluation log says its
remarks about the stack it is called on. -/
structure Transform where
  name : Option String
  run : Stack → Except Fault Stack
  remark : Stack → List String

namespace Transform

/-- A transform that always succeeds. -/
def total (f : Stack → Stack) : Transform := ⟨none, fun s => .ok (f s), fun _ => []⟩

/-- A transform that may fail, with errors of a type `E`. -/
def fallible {E : Type} [ErrorText E] (f : Stack → Except E Stack) : Transform :=
  ⟨none, fun s => (f s).mapError fun e => ⟨e⟩, fun _ => []⟩

/-- The transform under a name. -/
def named (name : String) (t : Transform) : Transform := { t with name := some name }

/-- The transform with remarks for the evaluation log. -/
def remarking (remark : Stack → List String) (t : Transform) : Transform := { t with remark }

/-- The name that messages show. -/
def label (t : Transform) : String := t.name.getD "<anonymous>"

/-- The description of a transform. -/
def describe (t : Transform) : String := "Transform(" ++ t.label ++ ")"

end Transform

/-- A single stack transition. -/
inductive Operation where
  | push (v : Value)
  | pop
  | dup
  | swap
  | add
  | mul
  | apply (t : Transform)

namespace Operation

/-- The mnemonic of an operation. -/
def name : Operation → String
  | .push _ => "push"
  | .pop => "pop"
  | .dup => "dup"
  | .swap => "swap"
  | .add => "add"
  | .mul => "mul"
  | .apply _ => "apply"

/-- How many values the stack has to hold. -/
def requiredDepth : Operation → Nat
  | .push _ => 0
  | .apply _ => 0
  | .pop => 1
  | .dup => 1
  | .swap => 2
  | .add => 2
  | .mul => 2

/-- The operation as a reader writes it. -/
def render : Operation → String
  | .push v => "push " ++ v.render
  | .apply ⟨some name, _, _⟩ => "apply " ++ name
  | op => op.name

/-- The description of an operation. -/
def describe : Operation → String
  | .push v => "Push(" ++ v.render ++ ")"
  | .pop => "Pop"
  | .dup => "Dup"
  | .swap => "Swap"
  | .add => "Add"
  | .mul => "Mul"
  | .apply t => "Apply(" ++ t.describe ++ ")"

end Operation

end StackLang
