/-
Carrying out a command line: what it prints, what it logs, which errors it reports and its exit code.
-/
import StackLang.CommandLine.Arguments
import StackLang.Dictionary
import StackLang.Evaluation.Interpreter

namespace StackLang.CommandLine

/-- What a command line comes to. -/
structure Report where
  exitCode : Nat
  /-- The lines printed. -/
  output : List String
  /-- The log's lines, whether they are shown or not. -/
  log : List String
  /-- The message of the error and those of its causes. -/
  errors : List String

/-- The boolean that an argument names, and otherwise the text itself. -/
def readNonNumber (arg : String) : Value :=
  if arg = "true" then .bool true else if arg = "false" then .bool false else .str arg

/-- The value that an argument spells: an integer, or else a double, unless it is infinite or NaN, or else a
boolean, and otherwise the text itself. Blanks are not removed. -/
def readValue (arg : String) : Value :=
  match Text.Numeral.readInt64 arg.toList with
  | .ok n => .int n
  | .error _ =>
    match Decimal.readFloat? arg.toList with
    | some x => if x.isFinite then .float x else readNonNumber arg
    | none => readNonNumber arg

/-- The events of an evaluation as lines. -/
def logLines (log : Array Event) : List String := log.toList.map Event.render

/-- Reports an evaluation that printed nothing before its end. -/
def reportEval (log : Array Event) (result : Option (Except EvalError Stack)) : Report :=
  match result with
  | some (.ok s) => ⟨0, [s.render], logLines log, []⟩
  | some (.error e) => ⟨1, [], logLines log, e.message :: e.causes⟩
  | none => ⟨1, [], logLines log, ["evaluation did not end"]⟩

/-! ## Demonstration -/

/-- A program of the demonstration, with a label and the stack it starts from. -/
structure Sample where
  label : String
  initial : Stack
  program : Program Stack

/-- The programs of the demonstration. -/
def samples : List Sample :=
  open Program in
  let int (n : Int64) := push (.int n)
  [⟨"push 2, push 3, add, push 4, mul", .empty, sequence [int 2, int 3, add, int 4, mul]⟩,
   ⟨"squared", .ofList [.int 5], Words.squared⟩,
   ⟨"push 5, squared, push 3, push 2, sum3", .empty,
     sequence [int 5, Words.squared, int 3, int 2, Words.sum3]⟩,
   ⟨"factorial 5", .empty, Words.factorial 5⟩,
   ⟨"pop", .empty, pop⟩]

/-- The text with blanks after it up to a width. -/
def padTo (width : Nat) (s : String) : String :=
  s ++ String.ofList (List.replicate (width - s.length) ' ')

/-- The line of a sample and the log of its evaluation. -/
def Sample.report (maxSteps : Option Nat) (sample : Sample) : String × List String :=
  let (log, result) := Interpreter.eval ⟨sample.initial, maxSteps⟩ sample.program
  let shown :=
    match result with
    | some (.ok s) => s.render
    | some (.error e) => "error: " ++ e.message
    | none => "error: evaluation did not end"
  (padTo 40 sample.label ++ " " ++ sample.initial.render ++ " => " ++ shown, logLines log)

/-! ## Commands -/

/-- Carries out a command. -/
def Command.report (maxSteps : Option Nat) : Command → Report
  | .demo =>
    let rows := samples.map (Sample.report maxSteps)
    ⟨0, rows.map Prod.fst, rows.flatMap Prod.snd, []⟩
  | .words => ⟨0, Dictionary.standard.names, [], []⟩
  | .run word values =>
    match Dictionary.standard.get? word with
    | none =>
      ⟨1, [], [], ["unknown word `" ++ word ++ "` (known words: " ++
        ", ".intercalate Dictionary.standard.names ++ ")"]⟩
    | some p =>
      let (log, result) := Interpreter.eval ⟨.ofList (values.map readValue), maxSteps⟩ p
      reportEval log result
  | .factorial n =>
    let (log, result) := Interpreter.eval ⟨.empty, maxSteps⟩ (Words.factorial n)
    reportEval log result

/-- Carries out an invocation. The log is kept only when it was asked for. -/
def Invocation.report (i : Invocation) : Report :=
  let report := i.command.report i.maxSteps
  { report with log := if i.verbose then i.startingLine :: report.log else [] }

end StackLang.CommandLine
