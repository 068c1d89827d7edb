import DefTable.Literal
import DefTable.NamedCodes
import DefTable.Rules
import DefTable.Text.Quoted

/-!
# Renderings of literals

The literal of a table is printed entry by entry (`Literal.renderBy`). A style says which qualifier is left out and
which codes are printed as names. Paths and field names are checked by given rules before they are printed, each entry
once it is complete, and the first violation is the error: that of the type comes before those of the entries, and within
an entry that of a record's path before those of its fields, that of a field's name before those of its value.
-/

namespace DefTable

/-- How literals are printed. -/
structure Style where
  qualifier : Option String
  /-- The codes that are printed as names; of those that apply to a field, the first ones count. -/
  codes : List NamedCodes
deriving DecidableEq, Repr

namespace Style

def stripped (style : Style) (path : String) : String :=
  match style.qualifier with
  | some q => String.ofList (Qualifier.strip q.toList path.toList)
  | none => path

def strippedType (style : Style) (type : String) : String :=
  match style.qualifier with
  | some q => String.ofList (Qualifier.stripEach q.toList type.toList)
  | none => type

/-- The name that is printed for the value of a field: for a code that has a name, or for a given one. -/
def symbol? (style : Style) (record field : String) (value : Literal) : Option String :=
  match style.codes.find? fun codes => codes.appliesTo record field with
  | none => none
  | some codes =>
    match value with
    | .int code => (codes.path? code).map style.stripped
    | .call "Some" [.int code] => (codes.path? code).map fun path => "Some(" ++ style.stripped path ++ ")"
    | _ => none

end Style

/-- Why a literal has no rendering. -/
inductive RenderError where
  /-- The literal is no table. -/
  | notTable
  /-- A table is part of the entry with the key. -/
  | nestedTable (key : String)
  | invalidName (name : String)
  | invalidType (type reason : String)
  | invalidEntry (key reason : String)
deriving DecidableEq, Repr

def RenderError.message : RenderError → String
  | notTable => "expected a map literal at the top level"
  | nestedTable key => "unexpected map literal in entry " ++ Text.quoted key
  | invalidName name => "invalid identifier " ++ Text.quoted name
  | invalidType type reason => "invalid container type " ++ Text.quoted type ++ ": " ++ reason
  | invalidEntry key reason => "entry " ++ Text.quoted key ++ " is not a valid expression: " ++ reason

/-- A printed table: its type, and its entries by their keys. -/
structure Rendering where
  type : String
  entries : List (String × String)
deriving DecidableEq, Repr

namespace Literal

def pathText (rules : Rules) (style : Style) (name : String) : Except RenderError String :=
  if rules.isPath name then .ok (style.stripped name) else .error (.invalidName name)

/-- Texts with commas between them. -/
def commas : List String → String
  | [] => ""
  | [t] => t
  | t :: ts => t ++ ", " ++ commas ts

/-- A record of its path and its printed fields. -/
def recordText (name : String) (fields : List String) (rest : Bool) : String :=
  match fields ++ (if rest then ["..Default::default()"] else []) with
  | [] => name ++ " \x7b\x7d"
  | parts => name ++ " \x7b " ++ commas parts ++ " \x7d"

mutual

/-- A literal as it is printed in the entry with the key. -/
def text (rules : Rules) (style : Style) (key : String) : Literal → Except RenderError String
  | .int n => .ok (toString n)
  | .bool b => .ok (if b then "true" else "false")
  | .str s => .ok (Text.quoted s)
  | .path p => pathText rules style p
  | .call func args => do
    let func ← pathText rules style func
    let args ← texts rules style key args
    return func ++ "(" ++ commas args ++ ")"
  | .vec items => do
    let items ← texts rules style key items
    return "vec![" ++ commas items ++ "]"
  | .record name fields rest => do
    let printed ← pathText rules style name
    let fields ← fieldTexts rules style key name fields
    return recordText printed fields rest
  | .map _ _ => .error (.nestedTable key)

def texts (rules : Rules) (style : Style) (key : String) : List Literal → Except RenderError (List String)
  | [] => .ok []
  | l :: ls => do
    let t ← text rules style key l
    let ts ← texts rules style key ls
    return t :: ts

def fieldTexts (rules : Rules) (style : Style) (key record : String) :
    List (String × Literal) → Except RenderError (List String)
  | [] => .ok []
  | (name, value) :: fields => do
    if rules.isIdentifier name then
      let t ←
        match style.symbol? record name value with
        | some symbol => .ok symbol
        | none => text rules style key value
      let ts ← fieldTexts rules style key record fields
      return (name ++ ": " ++ t) :: ts
    else .error (.invalidName name)

end

def entryText (rules : Rules) (style : Style) (entry : String × Literal) :
    Except RenderError (String × String) := do
  let t ← text rules style entry.1 entry.2
  match rules.expressionFault? t with
  | none => return (entry.1, t)
  | some reason => .error (.invalidEntry entry.1 reason)

theorem entryText_eq_ok {rules : Rules} {style : Style} {entry : String × Literal} {t : String}
    (ht : text rules style entry.1 entry.2 = .ok t) (hrules : rules.expressionFault? t = none) :
    entryText rules style entry = .ok (entry.1, t) := by
  rw [entryText, ht]
  dsimp only [bind, Except.bind]
  rw [hrules]
  rfl

theorem entryText_eq_error {rules : Rules} {style : Style} {entry : String × Literal} {t reason : String}
    (ht : text rules style entry.1 entry.2 = .ok t) (hrules : rules.expressionFault? t = some reason) :
    entryText rules style entry = .error (.invalidEntry entry.1 reason) := by
  rw [entryText, ht]
  dsimp only [bind, Except.bind]
  rw [hrules]

/-- A table as it is printed under rules for what may be written. -/
def renderBy (rules : Rules) (style : Style) : Literal → Except RenderError Rendering
  | .map type entries =>
    match rules.typeFault? (style.strippedType type) with
    | some reason => .error (.invalidType (style.strippedType type) reason)
    | none => do
      let entries ← entries.mapM (entryText rules style)
      return ⟨style.strippedType type, entries⟩
  | _ => .error .notTable

end Literal

end DefTable
