/-
Texts between double quotes, with escapes for the characters that cannot stand for themselves there: a
backslash with a letter, or the code point notation `\u{…}` with lower-case hexadecimal digits. In a
literal, the written form of a text value, quotes, backslashes and control characters are escaped and
every other character is written as it is, so a literal never holds a control character and never a
quote that does not end it. In a quoted name, the form in which descriptions show a name or an argument,
the code point notation is not padded, NUL has a mark of its own, and every character that is not
printable is escaped.
-/
import StackLang.Text.Printable

namespace StackLang.Text

/-! ## Escapes -/

/-- A backslash followed by the given mark. -/
def backslashed (mark : Char) : List Char := ['\\', mark]

/-- The hexadecimal digits of `n` in lower case, with leading zeros up to `width`. -/
def hexDigits (width n : Nat) : List Char :=
  let digits := Nat.toDigits 16 n
  List.replicate (width - digits.length) '0' ++ digits

/-- The code point notation of `c`, with at least `width` digits. -/
def codePointEscape (width : Nat) (c : Char) : List Char :=
  ['\\', 'u', '\x7b'] ++ hexDigits width c.toNat ++ ['\x7d']

/-- Control characters: U+0000 to U+001F and U+007F to U+009F. -/
def isControl (c : Char) : Bool :=
  c.toNat < 0x20 || (0x7F ≤ c.toNat && c.toNat ≤ 0x9F)

/-! ## Literals -/

namespace Literal

/-- How one character is written inside a literal. -/
def escape (c : Char) : List Char :=
  match c with
  | '"' => backslashed '"'
  | '\\' => backslashed '\\'
  | '\n' => backslashed 'n'
  | '\r' => backslashed 'r'
  | '\t' => backslashed 't'
  | c => if isControl c then codePointEscape 4 c else [c]

/-- The literal of a text. -/
def encode (cs : List Char) : List Char :=
  '"' :: (cs.flatMap escape ++ ['"'])

end Literal

/-! ## Quoted names -/

namespace Quoted

/-- How one character is written inside a quoted name. -/
def escape (c : Char) : List Char :=
  match c with
  | '"' => backslashed '"'
  | '\\' => backslashed '\\'
  | '\n' => backslashed 'n'
  | '\r' => backslashed 'r'
  | '\t' => backslashed 't'
  | '\x00' => backslashed '0'
  | c => if isPrintable c then [c] else codePointEscape 0 c

/-- The quoted form of a name. -/
def encode (cs : List Char) : List Char :=
  '"' :: (cs.flatMap escape ++ ['"'])

/-- The quoted form of a name, as text. -/
def text (name : String) : String := String.ofList (encode name.toList)

end Quoted

end StackLang.Text
