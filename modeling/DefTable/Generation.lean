import DefTable.Grammar
import DefTable.Grouping
import DefTable.Node.Minify
import DefTable.SourceFile

/-!
# Generation

From a source to the text of the generated file: its definitions are parsed, minified, grouped by name and printed. Only
a source that does not parse, or a table that cannot be printed, has no generated file. What can be printed is up to the
rules of the language of the file.
-/

namespace DefTable

/-- Why there is no generated file. -/
inductive GenerationError where
  | unreadable (path reason : String)
  | malformed (d : Diagnostic)
  | unprintable (e : RenderError)
  | unwritable (path reason : String)
deriving DecidableEq, Repr

namespace GenerationError

def message : GenerationError → String
  | unreadable path reason => "failed to read " ++ path ++ ": " ++ reason
  | malformed d => "parse error at " ++ d.text
  | unprintable e => "failed to render literal: " ++ e.message
  | unwritable path reason => "failed to write " ++ path ++ ": " ++ reason

/-- What the error stems from, as far as that is an error of its own. -/
def cause? : GenerationError → Option String
  | malformed d => some d.text
  | unprintable e => some e.message
  | _ => none

end GenerationError

/-- The printed table of definitions. -/
def Settings.renderTable (s : Settings) (rules : Rules) (ds : List Definition) : Except RenderError Rendering :=
  (literal (Definition.group ds)).renderBy rules s.style

/-- The generated file of definitions as they are. -/
def Settings.fileOf (s : Settings) (rules : Rules) (ds : List Definition) : Except RenderError String := do
  let r ← s.renderTable rules ds
  return SourceFile.text s r

/-- The generated file of a source. -/
def Settings.generate (s : Settings) (rules : Rules) (source : String) : Except GenerationError String :=
  match Definition.parseAll source with
  | .error d => .error (.malformed d)
  | .ok ds =>
    match s.fileOf rules (ds.map Node.minify) with
    | .error e => .error (.unprintable e)
    | .ok text => .ok text

end DefTable
