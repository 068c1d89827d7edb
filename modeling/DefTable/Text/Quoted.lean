import DefTable.Text.Printable

/-!
# Quoted text

The quoted form of texts and characters, in which the generated file writes its strings and the messages show
names. The delimiter and the backslash are written behind a backslash; line feed, carriage return, tab and null have
short forms; every other character without a printed form of its own is written by its code point. So a quoted text
stands on one line, whatever it holds.
-/

namespace DefTable.Text

/-- The form of one character between the given delimiters. -/
def escape (delimiter c : Char) : List Char :=
  match c with
  | '\x00' => ['\\', '0']
  | '\t' => ['\\', 't']
  | '\r' => ['\\', 'r']
  | '\n' => ['\\', 'n']
  | '\\' => ['\\', '\\']
  | c =>
    if c = delimiter then ['\\', c]
    else if extendsGrapheme c || !isPrintable c then
      ['\\', 'u', '{'] ++ Nat.toDigits 16 c.toNat ++ ['}']
    else [c]

/-- A text between the given delimiters. -/
def enclose (delimiter : Char) (cs : List Char) : List Char :=
  delimiter :: cs.flatMap (escape delimiter) ++ [delimiter]

/-- A text in double quotes. -/
def quoted (s : String) : String :=
  String.ofList (enclose '"' s.toList)

/-- A character in single quotes. -/
def quotedChar (c : Char) : String :=
  String.ofList (enclose '\x27' [c])

end DefTable.Text
