/-
Plain text out of text that may control a terminal. Control sequences are left out whole, and so are
control characters other than tab, line feed, form feed and carriage return. A sequence starts with
an escape character and ends as its kind demands: after one letter, after the final letter of a
control sequence, or at the terminator of a string.
-/

namespace StackLang.Text.Terminal

/-- What kind of sequence the text is in. -/
inductive Mode where
  /-- No sequence. -/
  | ground
  /-- Right behind an escape character. -/
  | escape
  /-- Behind an escape character and intermediate characters. -/
  | intermediate
  /-- A control sequence, up to its final letter. -/
  | control
  /-- A device control string before, in and behind its parameters. -/
  | deviceEntry
  | deviceParameters
  | deviceIntermediate
  /-- A string that lasts until its terminator. -/
  | string
  /-- A string that the bell ends too, and that the one-byte terminator does not end. -/
  | command
  deriving DecidableEq, Repr

/-- Whether one of the bytes behind the first in the encoding of a character is the one-byte string
terminator 0x9C. -/
def holdsTerminator (c : Char) : Bool :=
  let n := c.toNat
  n % 64 == 0x1C || (0x800 ≤ n && n / 64 % 64 == 0x1C) || (0x10000 ≤ n && n / 4096 % 64 == 0x1C)

/-- The mode behind a character that is left out. -/
def Mode.next (mode : Mode) (c : Char) : Mode :=
  let n := c.toNat
  let within (low high : Nat) : Bool := low ≤ n && n ≤ high
  if n = 0x18 ∨ n = 0x1A then .ground
  else if n = 0x1B then .escape
  else
    match mode with
    | .ground => .ground
    | .escape =>
      if within 0x20 0x2F then .intermediate
      else if c = '[' then .control
      else if c = ']' then .command
      else if c = 'P' then .deviceEntry
      else if c = 'X' ∨ c = '^' ∨ c = '_' then .string
      else if within 0x30 0x7E then .ground
      else .escape
    | .intermediate => if within 0x30 0x7E then .ground else .intermediate
    | .control => if within 0x40 0x7E then .ground else .control
    | .deviceEntry =>
      if within 0x20 0x2F then .deviceIntermediate
      else if within 0x30 0x3F then .deviceParameters
      else if within 0x40 0x7E then .string
      else .deviceEntry
    | .deviceParameters =>
      if within 0x20 0x2F then .deviceIntermediate
      else if within 0x3C 0x7E then .string
      else .deviceParameters
    | .deviceIntermediate => if within 0x30 0x7E then .string else .deviceIntermediate
    | .string => if 0x80 ≤ n ∧ holdsTerminator c then .ground else .string
    | .command => if n = 7 then .ground else .command

/-- The control characters that stay: tab, line feed, form feed and carriage return. -/
def isLayout (c : Char) : Bool := c == '\t' || c == '\n' || c == '\x0c' || c == '\r'

/-- Whether a character outside sequences stays. -/
def isPlain (c : Char) : Bool :=
  isLayout c || (0x20 ≤ c.toNat && c.toNat ≠ 0x7F)

/-- Whether a mode lets layout characters through. -/
def Mode.passesLayout : Mode → Bool
  | .ground | .escape | .intermediate | .control => true
  | _ => false

/-- The characters that stay. While `copying`, text is taken as plain although an unfinished sequence
came before it; what is left out then belongs to that sequence again. -/
def keep : Mode → Bool → List Char → List Char
  | _, _, [] => []
  | mode, copying, c :: cs =>
    let stays := if copying || mode == .ground then isPlain c else mode.passesLayout && isLayout c
    if stays then c :: keep (if 0x80 ≤ c.toNat then .ground else mode) true cs
    else keep (mode.next c) false cs

/-- The text without control sequences and control characters. -/
def plain (s : String) : String := String.ofList (keep .ground false s.toList)

end StackLang.Text.Terminal
