import DefTable.Node
import DefTable.Table

/-!
# Definitions by name

A source may define a name more than once, for another number of parameters or for the same one. The table of its
definitions keeps all of them, under each name in the order of the source.
-/

namespace DefTable.Definition

/-- A table with a further definition behind those of its name. -/
def addTo (t : Table (List Definition)) (d : Definition) : Table (List Definition) :=
  t.alter d.name fun ds => ds.getD [] ++ [d]

/-- The table of definitions by their names. -/
def group (ds : List Definition) : Table (List Definition) :=
  ds.foldl addTo Table.empty

end DefTable.Definition
