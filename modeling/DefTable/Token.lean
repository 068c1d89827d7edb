import DefTable.Operator
import DefTable.Text.Quoted

/-!
# Tokens

The tokens of a definition source, and how a message names them (`Token.describe`). A string is one token, whatever
it holds: its interpolations stay source text with the offset at which it starts.
-/

namespace DefTable

open Text

inductive Keyword where
  | define | as | if | then | elif | else | end | and | or | try | catch | reduce | foreach | label | break
  | import | include
deriving DecidableEq, Repr

namespace Keyword

def all : List Keyword :=
  [.define, .as, .if, .then, .elif, .else, .end, .and, .or, .try, .catch, .reduce, .foreach, .label, .break,
   .import, .include]

def text : Keyword → String
  | .define => "def"
  | .as => "as"
  | .if => "if"
  | .then => "then"
  | .elif => "elif"
  | .else => "else"
  | .end => "end"
  | .and => "and"
  | .or => "or"
  | .try => "try"
  | .catch => "catch"
  | .reduce => "reduce"
  | .foreach => "foreach"
  | .label => "label"
  | .break => "break"
  | .import => "import"
  | .include => "include"

def ofText? (s : String) : Option Keyword :=
  all.find? fun k => k.text == s

theorem ofText?_text (k : Keyword) : ofText? k.text = some k := by
  cases k <;> rfl

end Keyword

inductive StringPart where
  /-- Characters as they stand after decoding. -/
  | literal (text : String)
  /-- The source of an interpolation, without its parentheses, and the byte offset at which it starts. -/
  | interpolation (source : String) (offset : Nat)
deriving DecidableEq, Repr

/-- The words and signs of a source. -/
inductive Token where
  | ident (name : String)
  | keyword (k : Keyword)
  /-- A name behind a dot, which is not part of it. -/
  | field (name : String)
  /-- A name behind its sigil `$`, which is part of it. -/
  | variable (name : String)
  /-- A name behind its sigil `@`, which is part of it. -/
  | format (name : String)
  | number (digits : String)
  | str (parts : List StringPart)
  | op (o : Operator)
  | dot
  | dotDot
  | leftParen
  | rightParen
  | leftBracket
  | rightBracket
  | leftBrace
  | rightBrace
  | colon
  | semicolon
  | question
  /-- The sign `?//` between alternative patterns. -/
  | alternative
  /-- The end of the source. -/
  | eof
deriving DecidableEq, Repr

namespace Token

/-- The name of a token in a message. -/
def describe : Token → String
  | .ident name => "identifier " ++ quoted name
  | .keyword k => "keyword " ++ quoted k.text
  | .field name => "field ." ++ name
  | .variable name => name
  | .format name => name
  | .number digits => "number " ++ digits
  | .str _ => "string literal"
  | .op o => quoted o.text
  | .dot => quoted "."
  | .dotDot => quoted ".."
  | .leftParen => quoted "("
  | .rightParen => quoted ")"
  | .leftBracket => quoted "["
  | .rightBracket => quoted "]"
  | .leftBrace => quoted "\x7b"
  | .rightBrace => quoted "\x7d"
  | .colon => quoted ":"
  | .semicolon => quoted ";"
  | .question => quoted "?"
  | .alternative => quoted "?//"
  | .eof => "end of input"

end Token

structure Lexeme where
  token : Token
  offset : Nat
deriving DecidableEq, Repr

end DefTable
