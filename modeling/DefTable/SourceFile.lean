import DefTable.Settings

/-!
# The generated file

The text of the file that declares a printed table, one line for each entry.
-/

namespace DefTable.SourceFile

/-- The lines up to the entries of a table. -/
def head (s : Settings) (type : String) : String :=
  "// Code generated by " ++ s.generator ++ "; DO NOT EDIT.\n\n"
    ++ "use std::collections::BTreeMap;\nuse std::sync::LazyLock;\n\n"
    ++ "use " ++ s.namespacePath ++ "::*;\n\n"
    ++ "#[rustfmt::skip]\n"
    ++ "pub static " ++ s.variableName ++ ": LazyLock<" ++ type ++ "> = LazyLock::new(|| \x7b\n"

def entryLine (entry : String × String) : String :=
  "        (" ++ Text.quoted entry.1 ++ ", " ++ entry.2 ++ "),\n"

def body (entries : List (String × String)) : String :=
  if entries.isEmpty then "    BTreeMap::from([])\n"
  else "    BTreeMap::from([\n" ++ (entries.map entryLine).foldr (· ++ ·) "" ++ "    ])\n"

def text (s : Settings) (r : Rendering) : String :=
  head s r.type ++ body r.entries ++ "\x7d);\n"

end DefTable.SourceFile
