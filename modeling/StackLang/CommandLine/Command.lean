/-
Commands, and what was asked for with them.
-/
import StackLang.Evaluation.Event
import StackLang.Text.Literal

namespace StackLang.CommandLine

/-- What to do. -/
inductive Command where
  /-- Evaluate the demonstration programs. -/
  | demo
  /-- List the words of the dictionary. -/
  | words
  /-- Evaluate a word on a stack of values, the top first. -/
  | run (word : String) (values : List String)
  /-- Evaluate the factorial of a number. -/
  | factorial (n : Int64)
  deriving DecidableEq, Repr

/-- The description of a command. -/
def Command.describe : Command → String
  | .demo => "Demo"
  | .words => "Words"
  | .run word values =>
    "Run \x7b word: " ++ Text.Quoted.text word ++ ", values: [" ++
      ", ".intercalate (values.map Text.Quoted.text) ++ "] \x7d"
  | .factorial n => "Factorial \x7b n: " ++ String.ofList (Text.Numeral.ofInt n.toInt) ++ " \x7d"

/-- A command with its options. -/
structure Invocation where
  maxSteps : Option Nat
  verbose : Bool
  command : Command
  deriving DecidableEq, Repr

/-- The first line of the log. -/
def Invocation.startingLine (i : Invocation) : String :=
  let limit :=
    match i.maxSteps with
    | none => "None"
    | some n => "Some(" ++ Text.Numeral.text n ++ ")"
  Event.line "DEBUG" "Starting"
    [("options", "EvaluatorOptions \x7b max_steps: " ++ limit ++ " \x7d"),
     ("command", i.command.describe)]

end StackLang.CommandLine
