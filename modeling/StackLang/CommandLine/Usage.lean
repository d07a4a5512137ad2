/-
Why a command line carries out no command: help was asked for, or the arguments are at fault. The
wording of faults shows what the user wrote without anything that controls a terminal.
-/
import StackLang.CommandLine.Help
import StackLang.Text.Numeral
import StackLang.Text.Terminal

namespace StackLang.CommandLine

/-- The arguments that take a value. -/
inductive Slot where
  | maxSteps
  | word
  | values
  | number
  deriving DecidableEq, Repr

/-- The argument as messages show it. -/
def Slot.label : Slot → String
  | .maxSteps => "--max-steps <MAX_STEPS>"
  | .word => "<WORD>"
  | .values => "[VALUES]..."
  | .number => "<N>"

/-- Why the arguments make no command. -/
inductive Fault where
  /-- Nothing was asked for. -/
  | nothingAsked
  | missingCommand
  | unknownCommand (name : String)
  | unexpectedArgument (text : String)
  | unexpectedValue (value option : String)
  | missingValue (slot : Slot)
  | repeated (label : String)
  | invalidValue (value : String) (slot : Slot) (reason : Text.Numeral.Fault)
  | missingArguments
  deriving DecidableEq, Repr

/-- What the user wrote, between quotes. -/
def quote (s : String) : String := "'" ++ Text.Terminal.plain s ++ "'"

/-- What is printed about a fault. Who asks for nothing is shown the help. -/
def Fault.message : Fault → String
  | .nothingAsked => "\n".intercalate Topic.overview.lines
  | .missingCommand => "error: 'stacklet' requires a subcommand but one was not provided"
  | .unknownCommand name => "error: unrecognized subcommand " ++ quote name
  | .unexpectedArgument text => "error: unexpected argument " ++ quote text ++ " found"
  | .unexpectedValue value option =>
    "error: unexpected value " ++ quote value ++ " for " ++ quote option ++
      " found; no more were expected"
  | .missingValue slot =>
    "error: a value is required for " ++ quote slot.label ++ " but none was supplied"
  | .repeated label => "error: the argument " ++ quote label ++ " cannot be used multiple times"
  | .invalidValue value slot reason =>
    "error: invalid value " ++ quote value ++ " for " ++ quote slot.label ++ ": " ++ reason.message
  | .missingArguments => "error: the following required arguments were not provided:"

/-- Why no command is carried out. -/
inductive Stop where
  | help (topic : Topic)
  | usage (fault : Fault)
  deriving DecidableEq, Repr

end StackLang.CommandLine
