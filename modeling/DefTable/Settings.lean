import DefTable.Rendering

/-!
# Settings

What a run may be told about the generated file: the names that it shows, and the qualifier that it leaves out.
-/

namespace DefTable

/-- The settings of a run. -/
structure Settings where
  /-- The name of the generated table. -/
  variableName : String
  /-- The module whose names the generated file uses. -/
  namespacePath : String
  /-- The beginning of paths that is left out. -/
  qualifier : String
  /-- The name of the generator in the head of the generated file. -/
  generator : String
deriving DecidableEq, Repr

/-- The settings of a run that was told nothing. -/
def Settings.default : Settings :=
  ⟨"BUILTIN_FUNC_DEFS", "crate::ast", nodePath "", "jqdefs-gen"⟩

/-- How tables are printed under the settings: operators and kinds by their names. -/
def Settings.style (s : Settings) : Style :=
  ⟨some s.qualifier, [NamedCodes.operators, NamedCodes.termKinds]⟩

end DefTable
