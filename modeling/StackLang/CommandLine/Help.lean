/-
Help about the program and about each of its commands.
-/

namespace StackLang.CommandLine

/-- What help is about. -/
inductive Topic where
  /-- The program as a whole. -/
  | overview
  | demo
  | words
  | run
  | factorial
  /-- The command that shows help. -/
  | help
  deriving DecidableEq, Repr

namespace Topic

/-- The topics with a command of their own. -/
def commands : List Topic := [.demo, .words, .run, .factorial, .help]

/-- The name of a command. -/
def name : Topic → String
  | .overview => "stacklet"
  | .demo => "demo"
  | .words => "words"
  | .run => "run"
  | .factorial => "factorial"
  | .help => "help"

/-- The command of a name. -/
def ofName? (name : String) : Option Topic := commands.find? fun t => t.name == name

/-- What a topic is for. -/
def about : Topic → String
  | .overview => "Evaluate stacklet sample programs"
  | .demo => "Print the sample programs and the stacks they produce"
  | .words => "List the words of the standard dictionary"
  | .run => "Evaluate a dictionary word"
  | .factorial => "Evaluate factorial(n) on an empty stack"
  | .help => "Print this message or the help of the given subcommand(s)"

/-- How a topic's command is written. -/
def usage : Topic → String
  | .overview => "stacklet [OPTIONS] <COMMAND>"
  | .demo => "stacklet demo [OPTIONS]"
  | .words => "stacklet words [OPTIONS]"
  | .run => "stacklet run [OPTIONS] <WORD> [VALUES]..."
  | .factorial => "stacklet factorial [OPTIONS] <N>"
  | .help => "stacklet help [COMMAND]..."

/-- The positional arguments of a command, with what they are for. -/
def arguments : Topic → List (String × String)
  | .run =>
    [("<WORD>", "Name of the word to evaluate"),
     ("[VALUES]...", "Initial stack, top first (integers, floats, true/false, or text)")]
  | .factorial => [("<N>", "")]
  | .help => [("[COMMAND]...", "Print help for the subcommand(s)")]
  | _ => []

/-- The options of a command, with what they are for. -/
def options : Topic → List (String × String)
  | .help => []
  | _ =>
    [("    --max-steps <MAX_STEPS>", "Maximum number of operations a single evaluation may execute"),
     ("-v, --verbose", "Log every executed operation to stderr"),
     ("-h, --help", "Print help")]

/-- The commands that may follow, with what they are for. -/
def subcommands : Topic → List (String × String)
  | .overview => commands.map fun t => (t.name, t.about)
  | _ => []

/-- A titled list in two columns; nothing when the list is empty. -/
def block (title : String) (rows : List (String × String)) : List String :=
  let width := (rows.map fun row => row.1.length).foldl max 0
  let line (row : String × String) :=
    "  " ++ row.1 ++ String.ofList (List.replicate (width - row.1.length) ' ') ++ "  " ++ row.2
  if rows.isEmpty then [] else ["", title ++ ":"] ++ rows.map line

/-- The lines of the help about a topic. -/
def lines (t : Topic) : List String :=
  [t.about, "", "Usage: " ++ t.usage] ++ block "Commands" t.subcommands ++
    block "Arguments" t.arguments ++ block "Options" t.options

end Topic

end StackLang.CommandLine
