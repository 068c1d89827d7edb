import DefTable.Diagnostic
import DefTable.Token

/-!
# Syntax errors

What can be wrong with a source, where, and the words for it. The causes up to `unterminatedInterpolation` arise when
the source is cut into tokens, the others when the tokens are put together.
-/

namespace DefTable

open Text

/-- What would have been accepted in place of an unexpected token. -/
inductive Expectation where
  | token (t : Token)
  | term
  | variable
  | string
  | definition
  | functionName
  | parameterName
  | objectKey
  | patternKey
  | pattern
  | endOfQuery
  /-- Anything but another operator of the same precedence. -/
  | noChain
deriving DecidableEq, Repr

def Expectation.text : Expectation → String
  | .token t => "expected " ++ t.describe
  | .term => "expected term"
  | .variable => "expected variable"
  | .string => "expected string literal"
  | .definition => "expected function definition"
  | .functionName => "expected function name"
  | .parameterName => "expected parameter name"
  | .objectKey => "expected object key"
  | .patternKey => "expected object pattern key"
  | .pattern => "expected pattern"
  | .endOfQuery => "expected end of query"
  | .noChain => "non-associative operator"

/-- What is wrong with a source. -/
inductive SyntaxError.Cause where
  /-- A sigil `$` without a name. -/
  | variableName
  /-- A sigil `@` without a name. -/
  | formatName
  | strayCharacter (c : Char)
  | unterminatedString
  /-- A backslash before a character that it does not go with; the message shows that character's first byte. -/
  | unknownEscape (c : Char)
  | unicodeEscape
  | unterminatedInterpolation
  | unexpected (found : Token) (wanted : Expectation)
  | moduleDirective
deriving DecidableEq, Repr

/-- A fault of a source at a byte offset. -/
structure SyntaxError where
  cause : SyntaxError.Cause
  offset : Nat
deriving DecidableEq, Repr

namespace SyntaxError

def Cause.message : Cause → String
  | .variableName => "expected variable name after " ++ quoted "$"
  | .formatName => "expected format name after " ++ quoted "@"
  | .strayCharacter c => "unexpected character " ++ quotedChar c
  | .unterminatedString => "unterminated string literal"
  | .unknownEscape c => "invalid escape sequence \"\\" ++ String.singleton (Char.ofNat (leadByte c)) ++ "\""
  | .unicodeEscape => "invalid unicode escape"
  | .unterminatedInterpolation => "unterminated string interpolation"
  | .unexpected found wanted => "unexpected " ++ found.describe ++ ", " ++ wanted.text
  | .moduleDirective => "module directives are not supported"

def diagnostic (e : SyntaxError) : Diagnostic :=
  Diagnostic.unlocated e.cause.message e.offset

end SyntaxError

end DefTable
