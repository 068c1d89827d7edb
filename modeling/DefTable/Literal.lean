/-!
# Literal trees

A literal is an expression that builds a value in the generated file. The tree tells what is built and from what, with
paths in full and codes as numbers; how it is written is decided when it is printed.
-/

namespace DefTable

/-- An expression that builds a value. -/
inductive Literal where
  | int (n : Int)
  | bool (b : Bool)
  | str (s : String)
  | path (p : String)
  | call (func : String) (args : List Literal)
  | vec (items : List Literal)
  /-- A record with some of its fields. With `rest`, the others have their default values. -/
  | record (path : String) (fields : List (String × Literal)) (rest : Bool)
  /-- A table from keys to values with the type of the table. -/
  | map (type : String) (entries : List (String × Literal))

namespace Literal

def owned (s : String) : Literal :=
  .call "String::from" [.str s]

def boxed (l : Literal) : Literal :=
  .call "Box::new" [l]

def given (l : Literal) : Literal :=
  .call "Some" [l]

def missing : Literal :=
  .path "None"

/-- A further item in front of those of a list. -/
def prepend (l : Literal) : Literal → Literal
  | .vec items => .vec (l :: items)
  | other => other

/-- A record of all its fields, of which those without a literal are left to their defaults. -/
def ofFields (path : String) (fields : List (String × Option Literal)) : Literal :=
  .record path (fields.filterMap fun f => f.2.map fun l => (f.1, l)) (fields.any fun f => f.2.isNone)

end Literal

end DefTable
