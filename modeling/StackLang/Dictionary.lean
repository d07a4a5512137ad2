/-
Dictionaries: programs under names, and the sample words, which are worth a name. A dictionary keeps its
words in no order. The last definition of a name counts, and listing the names sorts them by their code
points.
-/
import Std.Data.HashMap
import StackLang.Evaluation.Event
import StackLang.Program.Basic
import StackLang.Text.Literal

namespace StackLang

/-! ## Sample words -/

namespace Words

open Program

/-- Replaces the top value by its square. -/
def squared : Program Stack := sequence [dup, mul]

/-- Replaces the top three values by their sum, added from the top. -/
def sum3 : Program Stack := sequence [add, add]

/-- Puts the product of the numbers from 1 to `n` on the stack. The program of a smaller product is
built only when the evaluation gets to it. -/
def product : Nat → Program Stack
  | 0 => push (.int 1)
  | 1 => push (.int 1)
  | n + 2 =>
    sequence [(push (.int (Int64.ofNat (n + 2)))).bind fun _ => product (n + 1), mul]

/-- Puts the factorial of `n` on the stack, modulo 2^64, and 1 when `n` is negative. -/
def factorial (n : Int64) : Program Stack := product n.toInt.toNat

end Words

/-! ## Dictionaries -/

/-- Programs under names. -/
structure Dictionary where
  words : Std.HashMap String (Program Stack)

/-- What a definition comes to: the new dictionary, the program that had the name before, and the
events. -/
structure Definition where
  dictionary : Dictionary
  previous : Option (Program Stack)
  log : List Event

namespace Dictionary

/-- The dictionary without words. -/
def empty : Dictionary := ⟨∅⟩

/-- The program of a name. -/
def get? (d : Dictionary) (name : String) : Option (Program Stack) := d.words[name]?

/-- Whether a name has a program. -/
def contains (d : Dictionary) (name : String) : Bool := d.words.contains name

/-- The names, in increasing order. -/
def names (d : Dictionary) : List String := d.words.keys.mergeSort fun s t => s ≤ t

/-- The number of words. -/
def size (d : Dictionary) : Nat := d.words.size

/-- Whether there are no words. -/
def isEmpty (d : Dictionary) : Bool := d.words.isEmpty

/-- Puts a program under a name: the program that makes room for it, if there is one, and the dictionary
after it. A name that is there gets the new program in the place of the old one. -/
def insert (d : Dictionary) (name : String) (p : Program Stack) : Option (Program Stack) × Dictionary :=
  match d.words.getThenInsertIfNew? name p with
  | (none, words) => (none, ⟨words⟩)
  | (some old, words) => (some old, ⟨words.insert name p⟩)

/-- Gives a name a program. Taking the name from another program is worth an event. -/
def define (d : Dictionary) (name : String) (p : Program Stack) : Definition :=
  let (previous, dictionary) := d.insert name p
  ⟨dictionary, previous, if previous.isSome then [.redefined name] else []⟩

/-- The sample words. -/
def standard : Dictionary :=
  ((empty.define "squared" Words.squared).dictionary.define "sum3" Words.sum3).dictionary

/-- The description of a dictionary: its words, each with its program. -/
def describe (d : Dictionary) : String :=
  let rows := d.words.toList.map fun (name, p) => Text.Quoted.text name ++ ": " ++ p.describe
  "Dictionary \x7b words: \x7b" ++ ", ".intercalate rows ++ "\x7d \x7d"

end Dictionary

end StackLang
