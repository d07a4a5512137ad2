/-
Interpreters: an initial stack and an optional step limit, under which programs are evaluated. An
interpreter is never changed by an evaluation.
-/
import StackLang.Evaluation.Run

namespace StackLang

/-- Where evaluations start and how many operations they may execute. -/
structure Interpreter where
  initial : Stack
  maxSteps : Option Nat

namespace Interpreter

/-- Starts with the empty stack, without a limit. -/
def default : Interpreter := ⟨.empty, none⟩

/-- Starts with the given stack, without a limit. -/
def startingAt (initial : Stack) : Interpreter := ⟨initial, none⟩

variable {R : Type}

/-- Evaluates a program from a given stack: the events, and the verdict if the evaluation ends. -/
def runOn (i : Interpreter) (s : Stack) (p : Program R) : Array Event × Option (Verdict R) :=
  match (Config.start p s).run i.maxSteps #[] with
  | some (log, verdict) => (log, some verdict)
  | none => (#[], none)

/-- Evaluates a program from the initial stack. -/
def run (i : Interpreter) (p : Program R) : Array Event × Option (Verdict R) := i.runOn i.initial p

/-- The result of a program evaluated from the initial stack. -/
def eval (i : Interpreter) (p : Program R) : Array Event × Option (Except EvalError R) :=
  let (log, verdict) := i.run p
  (log, verdict.map fun v => v.map Outcome.value)

end Interpreter

end StackLang
