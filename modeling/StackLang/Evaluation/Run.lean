/-
Evaluation: executing the operation a program is suspended on, resuming the program with a copy of
the stack, and so on until the program is done, an operation fails or the step limit is reached.
The live stack is changed by operations only; a program's result is a value of its own and may
differ from it.
-/
import StackLang.Operation.Execute
import StackLang.Program.Resume
import StackLang.Evaluation.Event

namespace StackLang

/-- The end of a successful evaluation: the result, the live stack and the operations executed. -/
structure Outcome (R : Type) where
  value : R
  stack : Stack
  steps : Nat

/-- The end of a failed evaluation: why, and how many operations were executed before. -/
structure EvalError where
  failure : Failure
  step : Nat

namespace EvalError

/-- The wording of an evaluation's error. -/
def message (e : EvalError) : String :=
  e.failure.message ++ " (at step " ++ Text.Numeral.text e.step ++ ")"

/-- The messages of what caused the error, the nearest first. -/
def causes (e : EvalError) : List String := e.failure.message :: e.failure.causes

end EvalError

/-- How an evaluation ends. -/
abbrev Verdict (R : Type) := Except EvalError (Outcome R)

/-- A state of an evaluation: what is left, the live stack and the operations executed. -/
structure Config (R : Type) where
  program : Program R
  stack : Stack
  steps : Nat

/-- What one transition comes to. -/
inductive Progress (R : Type) : Type 1 where
  | running (config : Config R)
  | halted (verdict : Verdict R)

variable {R : Type}

/-- Whether the number of operations executed has reached the limit, if there is one. -/
def limitReached (limit : Option Nat) (steps : Nat) : Option Nat :=
  match limit with
  | some l => if l ≤ steps then some l else none
  | none => none

namespace Config

/-- The start of an evaluation. -/
def start (p : Program R) (s : Stack) : Config R := ⟨p, s, 0⟩

/-- One transition, with the events it gives rise to. -/
def step (limit : Option Nat) : Config R → List Event × Progress R
  | ⟨.done r, s, n⟩ => ([.finished n s.size], .halted (.ok ⟨r, s, n⟩))
  | ⟨.suspended op rest, s, n⟩ =>
    match limitReached limit n with
    | some l => ([.limitExceeded l], .halted (.error ⟨.stepLimit l, n⟩))
    | none =>
      let before := .executing n op s.size :: op.events s
      match op.execute s with
      | .error failure => (before ++ [.failed n failure], .halted (.error ⟨failure, n⟩))
      | .ok t =>
        let next := rest.feed t
        (before ++ next.remarks.map .remark, .running ⟨next.program, t, n + 1⟩)

/-- Runs an evaluation to its end and adds its events to a log. There is no result when the evaluation
goes on for ever, as it may without a limit. -/
def run (limit : Option Nat) (config : Config R) (log : Array Event) :
    Option (Array Event × Verdict R) :=
  match config.step limit with
  | (events, .halted verdict) => some (log.appendList events, verdict)
  | (events, .running next) => next |>.run limit (log.appendList events)
partial_fixpoint

end Config

end StackLang
