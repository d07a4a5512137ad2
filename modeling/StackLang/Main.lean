/-
The command line program.
-/
import StackLang.CommandLine.Report

open StackLang.CommandLine

/-- Reads the arguments, carries out the command and prints what it comes to. -/
def main (args : List String) : IO UInt32 := do
  let err ← IO.getStderr
  match parse args with
  | .error (.help topic) =>
    for line in topic.lines do
      IO.println line
    return 0
  | .error (.usage fault) =>
    err.putStrLn fault.message
    return 2
  | .ok invocation =>
    let report := invocation.report
    for line in report.log do
      err.putStrLn line
    for line in report.output do
      IO.println line
    for message in report.errors do
      err.putStrLn message
    return report.exitCode.toUInt32
