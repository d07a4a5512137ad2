/-
Reading the arguments. They are read from left to right on two levels: before the command's name and
after it. On both levels stand the options `--max-steps`, `--verbose` or `-v`, and `--help` or `-h`;
after `--` every argument is positional. A value given to an argument is looked at only when the next option comes,
when the next positional argument starts, or at the end of its level, and the values of the first
level only after the second level has been read. What is unknown is a fault at once, and so is what
the command `help` finds no help about.
-/
import StackLang.CommandLine.Command
import StackLang.CommandLine.Usage

namespace StackLang.CommandLine

/-! ## The shape of an argument -/

/-- What an argument looks like. -/
inductive Token where
  /-- Two dashes alone: what follows is positional. -/
  | escape
  /-- A long option, perhaps with a value after an equals sign. -/
  | long (name : String) (value : Option String)
  /-- Short options behind one dash. -/
  | short (flags : List Char)
  /-- Anything else. -/
  | plain
  deriving DecidableEq, Repr

/-- The shape of an argument. A dash alone is no option. -/
def Token.ofString (arg : String) : Token :=
  match arg.toList with
  | ['-', '-'] => .escape
  | '-' :: '-' :: cs =>
    let name := String.ofList (cs.takeWhile (· != '='))
    match cs.dropWhile (· != '=') with
    | [] => .long name none
    | _ :: value => .long name (some (String.ofList value))
  | ['-'] => .plain
  | '-' :: cs => .short cs
  | _ => .plain

/-! ## What a level has been given -/

/-- The arguments that have been looked at. -/
structure Given where
  maxSteps : Option Nat
  verbose : Bool
  word : Option String
  values : List String
  number : Option Int64

/-- Nothing has been given. -/
def Given.nothing : Given := ⟨none, false, none, [], none⟩

/-- Looks at the values of an argument. An option needs one and is given once only. -/
def Given.store (g : Given) : Slot → List String → Except Stop Given
  | .maxSteps, [] => .error (.usage (.missingValue .maxSteps))
  | .maxSteps, v :: _ =>
    if g.maxSteps.isSome then .error (.usage (.repeated Slot.maxSteps.label))
    else
      match Text.Numeral.readWord v.toList with
      | .ok n => .ok { g with maxSteps := some n }
      | .error reason => .error (.usage (.invalidValue v .maxSteps reason))
  | .number, [] => .error (.usage (.missingValue .number))
  | .number, v :: _ =>
    match Text.Numeral.readInt64 v.toList with
    | .ok n => .ok { g with number := some n }
    | .error reason => .error (.usage (.invalidValue v .number reason))
  | .word, vs => .ok { g with word := vs.head? }
  | .values, vs => .ok { g with values := g.values ++ vs }

/-- Values of an argument that have not been looked at, the latest first. -/
structure Pending where
  slot : Slot
  values : List String

/-- What may stand on a level: the names of commands, or positional arguments; and what help there is
about it. -/
structure Level where
  topic : Topic
  commands : List Topic
  slots : List Slot

namespace Level

/-- The level before the command's name. -/
def outer : Level := ⟨.overview, Topic.commands, []⟩

/-- The level behind a command's name. -/
def inner (command : Topic) : Level :=
  match command with
  | .run => ⟨.run, [], [.word, .values]⟩
  | .factorial => ⟨.factorial, [], [.number]⟩
  | topic => ⟨topic, [], []⟩

/-- The command of the given name, if it may stand on the level. -/
def command? (level : Level) (name : String) : Option Topic :=
  level.commands.find? fun t => t.name == name

/-- The fault of an argument for which a level has no place. Where a command is expected anything else
is an unknown command; a command's name behind `--` is out of place. -/
def surplus (level : Level) (positionalOnly : Bool) (arg : String) : Fault :=
  if level.commands.isEmpty then .unexpectedArgument arg
  else if positionalOnly && (level.command? arg).isSome then .unexpectedArgument arg
  else .unknownCommand arg

end Level

/-- The state of reading a level: what has been given, what is still to be looked at, whether the
option there waits for its value, and the positional arguments to come. -/
structure Reading where
  given : Given
  pending : Option Pending
  waiting : Bool
  slots : List Slot

namespace Reading

/-- The start of a level with the given positional arguments. -/
def start (slots : List Slot) : Reading := ⟨.nothing, none, false, slots⟩

/-- Looks at the pending values. -/
def settle (r : Reading) : Except Stop Reading :=
  match r.pending with
  | none => .ok r
  | some p =>
    match r.given.store p.slot p.values.reverse with
    | .ok given => .ok { r with given, pending := none }
    | .error stop => .error stop

/-- Takes the option `--verbose`, once only. -/
def takeVerbose (r : Reading) : Except Stop Reading := do
  let r ← r.settle
  if r.given.verbose then .error (.usage (.repeated "--verbose"))
  else .ok { r with given := { r.given with verbose := true }, waiting := false }

/-- Takes the option `--help`, which ends the reading. -/
def takeHelp (r : Reading) (topic : Topic) : Except Stop Reading := do
  let _ ← r.settle
  .error (.help topic)

/-- Takes a long option. -/
def takeLong (r : Reading) (topic : Topic) (name : String) (value : Option String) :
    Except Stop Reading :=
  if name = "max-steps" then do
    let r ← r.settle
    match value with
    | none => .ok { r with pending := some ⟨.maxSteps, []⟩, waiting := true }
    | some v =>
      let given ← r.given.store .maxSteps [v]
      .ok { r with given, waiting := false }
  else if name = "verbose" ∨ name = "help" then
    match value with
    | some v => .error (.usage (.unexpectedValue v ("--" ++ name)))
    | none => if name = "help" then r.takeHelp topic else r.takeVerbose
  else .error (.usage (.unexpectedArgument ("--" ++ name)))

/-- Takes short options one by one. -/
def takeShort (topic : Topic) : Reading → List Char → Except Stop Reading
  | r, [] => .ok r
  | r, c :: cs =>
    if c = 'v' then do
      let r ← r.takeVerbose
      takeShort topic r cs
    else if c = 'h' then r.takeHelp topic
    else .error (.usage (.unexpectedArgument (String.ofList ['-', c])))

/-- Takes a positional argument, if one is to come. Only a list of values takes more than one. -/
def takePositional? (r : Reading) (arg : String) : Option (Except Stop Reading) :=
  match r.slots with
  | [] => none
  | .values :: _ =>
    match r.pending with
    | some ⟨.values, vs⟩ => some (.ok { r with pending := some ⟨.values, arg :: vs⟩ })
    | _ => some (r.settle.map fun r => { r with pending := some ⟨.values, [arg]⟩ })
  | slot :: slots =>
    some (r.settle.map fun r => { r with pending := some ⟨slot, [arg]⟩, slots })

end Reading

/-! ## Levels -/

/-- Reads the arguments of a level up to a command's name, if one comes; the command and the arguments
behind its name are left. -/
def Level.read (level : Level) :
    Bool → Reading → List String → Except Stop (Reading × Option (Topic × List String))
  | _, r, [] => .ok (r, none)
  | positionalOnly, r, arg :: args =>
    match if positionalOnly || r.waiting then none else level.command? arg with
    | some command => .ok (r, some (command, args))
    | none =>
      match if positionalOnly then .plain else Token.ofString arg with
      | .escape => level.read true r args
      | .long name value => do
        let r ← r.takeLong level.topic name value
        level.read false r args
      | .short flags => do
        let r ← Reading.takeShort level.topic r flags
        level.read false r args
      | .plain =>
        if !positionalOnly && r.waiting then
          level.read false { r with pending := some ⟨.maxSteps, [arg]⟩, waiting := false } args
        else
          match r.takePositional? arg with
          | none => .error (.usage (level.surplus positionalOnly arg))
          | some taken => do
            let r ← taken
            level.read positionalOnly r args

/-- The help that the arguments of the command `help` ask for: that of a command, or the overview. -/
def helpOn : List String → Stop
  | [] => .help .overview
  | name :: names =>
    match Topic.ofName? name, names with
    | none, _ => .usage (.unknownCommand name)
    | some topic, [] => .help topic
    | some _, other :: _ => .usage (.unknownCommand other)

/-- The command of a topic, if all it needs has been given. -/
def commandOf (command : Topic) (g : Given) : Except Stop Command :=
  match command with
  | .run =>
    match g.word with
    | some word => .ok (.run word g.values)
    | none => .error (.usage .missingArguments)
  | .factorial =>
    match g.number with
    | some n => .ok (.factorial n)
    | none => .error (.usage .missingArguments)
  | .words => .ok .words
  | .demo => .ok .demo
  | topic => .error (.help topic)

/-- Reads the arguments behind a command's name. -/
def readCommand (command : Topic) (args : List String) : Except Stop (Given × Command) :=
  if command = .help then .error (helpOn args)
  else do
    let level := Level.inner command
    let (r, _) ← level.read false (.start level.slots) args
    let r ← r.settle
    let asked ← commandOf command r.given
    .ok (r.given, asked)

/-- Reads all arguments. An option given behind the command's name counts more than before it. -/
def parse (args : List String) : Except Stop Invocation := do
  let (r, rest) ← Level.outer.read false (.start []) args
  match rest with
  | some (command, args) =>
    let (inner, asked) ← readCommand command args
    let outer ← r.settle
    .ok ⟨inner.maxSteps.or outer.given.maxSteps, inner.verbose || outer.given.verbose, asked⟩
  | none =>
    let r ← r.settle
    .error (.usage
      (if r.given.maxSteps.isNone && !r.given.verbose then .nothingAsked else .missingCommand))

end StackLang.CommandLine
