import DefTable.Generation

/-!
# The workbench

A list of definitions that is built up, looked at and edited step by step (`Workbench.step`). A step that fails leaves
the list as it is.
-/

namespace DefTable

abbrev Workbench := List Definition

namespace Workbench

/-- A step on a workbench. Definitions are named by their places, which count from zero. -/
inductive Step where
  /-- Appends the definitions of a source. -/
  | load (source : String)
  /-- Appends a definition whose body is the query of a source. -/
  | query (name source : String)
  /-- Appends a definition whose body is a term of a kind without any payload. -/
  | bareTerm (name : String) (kind : TermKind)
  /-- Appends a definition without any content in its body. -/
  | empty (name : String)
  /-- Appends a definition whose body joins the bodies of two others. -/
  | join (name : String) (left : Nat) (op : Operator) (right : Nat)
  | look (place : Nat)
  | minify (place : Nat)
  | minifyAll
  /-- Puts a body into parentheses. -/
  | parenthesize (place : Nat)
  /-- Makes a copy of a definition the last local one of a body. -/
  | nest (place other : Nat)
  /-- Puts a suffix behind the term of a body. -/
  | extend (place : Nat) (suffix : Suffix)
  | rename (place : Nat) (name : String)
  | remove (place : Nat)
  | compare (place other : Nat)
  | compareBodies (place other : Nat)
  /-- Shows the parameter counts of the definitions of each name. -/
  | group
  | literal (place : Nat)
  /-- Shows the generated file of all definitions. -/
  | emit (settings : Settings)
deriving DecidableEq, Repr

/-- What a step shows. -/
inductive View where
  | loaded (added total : Nat)
  | definition (d : Definition)
  | definitions (ds : List Definition)
  | signature (name : String) (arity : Nat)
  | truth (b : Bool)
  | groups (gs : List (String × List Nat))
  | literal (l : Literal)
  | file (text : String)

/-- Why a step fails. -/
inductive Failure where
  | noDefinition
  /-- A body has no term to put a suffix behind. -/
  | noTerm
  | malformed (d : Diagnostic)
  | unprintable (e : RenderError)
deriving DecidableEq, Repr

abbrev Outcome := Except Failure (Workbench × View)

def definitionAt (w : Workbench) (place : Nat) : Except Failure Definition :=
  match w[place]? with
  | some d => .ok d
  | none => .error .noDefinition

/-- Appends a definition without parameters. -/
def add (w : Workbench) (name : String) (body : Query) : Workbench × View :=
  (w ++ [.definition name [] body], .definition (.definition name [] body))

/-- Puts another definition at a place. -/
def replace (w : Workbench) (place : Nat) (d : Definition) : Workbench × View :=
  (w.set place d, .definition d)

def withBody (body : Query) : Definition → Definition
  | .definition name params _ => .definition name params body

def withName (name : String) : Definition → Definition
  | .definition _ params body => .definition name params body

/-- A query with a further local definition behind its own. -/
def withLocal (d : Definition) : Query → Query
  | .query defs term left op right func => .query (defs.append (.cons d .nil)) term left op right func

/-- A query with a suffix behind its term, if it has one. -/
def withSuffix? (x : Suffix) : Query → Option Query
  | .query defs (.present t) left op right func =>
    some (.query defs (.present (Term.withSuffixes [x] t)) left op right func)
  | _ => none

def step (rules : Rules) (w : Workbench) : Step → Outcome
  | .load source =>
    match Definition.parseAll source with
    | .ok ds => .ok (w ++ ds, .loaded ds.length (w ++ ds).length)
    | .error d => .error (.malformed d)
  | .query name source =>
    match Query.parse source with
    | .ok q => .ok (w.add name q)
    | .error d => .error (.malformed d)
  | .bareTerm name kind => .ok (w.add name (Query.ofTerm (Term.ofKind kind)))
  | .empty name => .ok (w.add name Query.empty)
  | .join name left op right => do
    let l ← w.definitionAt left
    let r ← w.definitionAt right
    return w.add name (Query.binary l.body op r.body)
  | .look place => do
    let d ← w.definitionAt place
    return (w, .definition d)
  | .minify place => do
    let d ← w.definitionAt place
    return w.replace place d.minify
  | .minifyAll => .ok (w.map Node.minify, .definitions (w.map Node.minify))
  | .parenthesize place => do
    let d ← w.definitionAt place
    return w.replace place (withBody (Query.ofTerm (Term.ofQuery d.body)) d)
  | .nest place other => do
    let d ← w.definitionAt place
    let o ← w.definitionAt other
    return w.replace place (withBody (withLocal o d.body) d)
  | .extend place x => do
    let d ← w.definitionAt place
    match withSuffix? x d.body with
    | some q => return w.replace place (withBody q d)
    | none => .error .noTerm
  | .rename place name => do
    let d ← w.definitionAt place
    return (w.set place (withName name d), .signature name d.arity)
  | .remove place => do
    let d ← w.definitionAt place
    return (w.eraseIdx place, .definition d)
  | .compare place other => do
    let d ← w.definitionAt place
    let o ← w.definitionAt other
    return (w, .truth (d = o))
  | .compareBodies place other => do
    let d ← w.definitionAt place
    let o ← w.definitionAt other
    return (w, .truth (d.body = o.body))
  | .group => .ok (w, .groups ((Definition.group w).sorted.map fun e => (e.1, e.2.map Definition.arity)))
  | .literal place => do
    let d ← w.definitionAt place
    return (w, .literal d.literal)
  | .emit settings =>
    match settings.fileOf rules w with
    | .ok text => .ok (w, .file text)
    | .error e => .error (.unprintable e)

/-- A step that may fail, and what is left of the workbench. -/
def advance (rules : Rules) (w : Workbench) (s : Step) : Workbench × Except Failure View :=
  match w.step rules s with
  | .ok (w, v) => (w, .ok v)
  | .error e => (w, .error e)

end Workbench

end DefTable
