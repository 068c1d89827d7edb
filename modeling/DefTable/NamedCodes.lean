import DefTable.Operator
import DefTable.Qualifier
import DefTable.TermKind
import DefTable.Literal.Form

/-!
# Named codes

A literal tree holds operators and kinds as numbers. `NamedCodes` says which fields hold the codes of a type and how the
codes are called, so that a printed record shows names. Two such types occur in definitions: `NamedCodes.operators` and
`NamedCodes.termKinds`.
-/

namespace DefTable

/-- Names for the codes of a type. -/
structure NamedCodes where
  type : String
  fields : List String
  /-- The name of the only records whose fields count; without it, those of all records do. -/
  owner : Option String
  names : List (Int × String)
deriving DecidableEq, Repr

namespace NamedCodes

/-- Names for the codes from a first to a last one, as far as they have one. -/
def ofRange (type : String) (fields : List String) (owner : Option String) (first last : Nat)
    (name : Nat → Option String) : NamedCodes :=
  ⟨type, fields, owner, (List.range' first (last + 1 - first)).filterMap fun code =>
    (name code).map fun text => ((code : Int), text)⟩

/-- Whether a field of a record holds codes of the type. -/
def appliesTo (codes : NamedCodes) (record field : String) : Bool :=
  codes.fields.contains field && codes.owner.all fun owner => Qualifier.lastSegment record == owner

def path? (codes : NamedCodes) (code : Int) : Option String :=
  (codes.names.lookup code).map fun name => codes.type ++ "::" ++ name

/-- The operators, which the fields for them hold in all records. -/
def operators : NamedCodes :=
  ofRange (typeName Operator) ["op", "update_op"] none Operator.first.code Operator.last.code fun code =>
    (Operator.ofCode? code).map Operator.name

/-- The kinds of terms, which the field for them holds in a term. -/
def termKinds : NamedCodes :=
  ofRange (typeName TermKind) ["kind"] (some "Term") TermKind.first.code TermKind.last.code fun code =>
    (TermKind.ofCode? code).map TermKind.name

end NamedCodes

end DefTable
