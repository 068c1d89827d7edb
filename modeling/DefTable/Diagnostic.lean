import DefTable.Text.CodePoint

/-!
# Diagnostics

A message about a place in a text. The place is a byte offset; a reader is shown line and column, which count
characters and start at one (`Position.ofOffset`), and are known once the diagnostic has been located in its text.
-/

namespace DefTable

open Text

/-- A place in a text as a reader counts it. -/
structure Position where
  line : Nat
  column : Nat
deriving DecidableEq, Repr

namespace Position

def start : Position := ⟨1, 1⟩

def next (p : Position) (c : Char) : Position :=
  if c = '\n' then ⟨p.line + 1, 1⟩ else ⟨p.line, p.column + 1⟩

/-- The place that the given number of bytes leads to, from a place before `cs`: all characters are passed that
begin before it. -/
def advance (p : Position) : Nat → List Char → Position
  | 0, _ => p
  | _ + 1, [] => p
  | bytes + 1, c :: cs => (p.next c).advance (bytes + 1 - c.utf8Size) cs

/-- The place at a byte offset; an offset past the end is the end. -/
def ofOffset (source : String) (offset : Nat) : Position :=
  start.advance offset source.toList

end Position

structure Diagnostic where
  message : String
  offset : Nat
  position : Position
deriving DecidableEq, Repr

namespace Diagnostic

/-- A message at a byte offset that has not been located yet. -/
def unlocated (message : String) (offset : Nat) : Diagnostic :=
  ⟨message, offset, ⟨0, 0⟩⟩

def locate (d : Diagnostic) (source : String) : Diagnostic :=
  ⟨d.message, d.offset, Position.ofOffset source d.offset⟩

def text (d : Diagnostic) : String :=
  toString d.position.line ++ ":" ++ toString d.position.column ++ ": " ++ d.message

end Diagnostic

end DefTable
