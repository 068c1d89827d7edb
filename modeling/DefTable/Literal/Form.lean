import DefTable.Literal
import DefTable.Node
import DefTable.Table

/-!
# Literals of values

How the values of a type are written as literals (`LiteralForm`): truth values, strings, pointers, options, lists, and
tables, which are listed by their keys, whatever order they have. A value that is zero, that is, equal to the default
of its type, may be left out of a record.
-/

namespace DefTable

/-- How values of a type are written. -/
class LiteralForm (α : Type) where
  typeName : String
  /-- Whether a value is the default of its type. -/
  isZero : α → Bool
  literal : α → Literal

export LiteralForm (typeName isZero literal)

structure Boxed (α : Type) where
  content : α
deriving DecidableEq, Repr

instance : LiteralForm Bool where
  typeName := "bool"
  isZero b := !b
  literal := .bool

instance : LiteralForm String where
  typeName := "String"
  isZero s := s.isEmpty
  literal := Literal.owned

instance {α : Type} [LiteralForm α] : LiteralForm (Boxed α) where
  typeName := "Box<" ++ typeName α ++ ">"
  isZero b := isZero b.content
  literal b := Literal.boxed (literal b.content)

instance {α : Type} [LiteralForm α] : LiteralForm (Option α) where
  typeName := "Option<" ++ typeName α ++ ">"
  isZero o := o.isNone
  literal
    | some a => Literal.given (literal a)
    | none => Literal.missing

instance {α : Type} [LiteralForm α] : LiteralForm (List α) where
  typeName := "Vec<" ++ typeName α ++ ">"
  isZero as := as.isEmpty
  literal as := .vec (as.map literal)

def tableTypeName (valueType : String) : String :=
  "BTreeMap<&'static str, " ++ valueType ++ ">"

instance {α : Type} [LiteralForm α] : LiteralForm (Table α) where
  typeName := tableTypeName (typeName α)
  isZero t := t.isEmpty
  literal t := .map (tableTypeName (typeName α)) (t.sorted.map fun e => (e.1, literal e.2))

/-! ## Nodes -/

/-- The module that holds the node types of the generated file. -/
def nodeNamespace : String := "jqdefs_core::ast"

/-- The path of a name in the module of the node types. -/
def nodePath (name : String) : String :=
  nodeNamespace ++ "::" ++ name

instance : LiteralForm Operator where
  typeName := nodePath "Operator"
  isZero _ := false
  literal op := .int op.code

instance : LiteralForm TermKind where
  typeName := nodePath "TermKind"
  isZero _ := false
  literal kind := .int kind.code

def Shape.typeName : Shape → String
  | .definition => nodePath "FuncDef"
  | .query => nodePath "Query"
  | .term => nodePath "Term"
  | .index => nodePath "Index"
  | .call => nodePath "Func"
  | .text => nodePath "StringLit"
  | .object => nodePath "Object"
  | .entry => nodePath "ObjectKeyVal"
  | .array => nodePath "Array"
  | .unary => nodePath "Unary"
  | .suffix => nodePath "Suffix"
  | .binding => nodePath "Bind"
  | .pattern => nodePath "Pattern"
  | .patternEntry => nodePath "PatternObject"
  | .conditional => nodePath "If"
  | .branch => nodePath "IfElif"
  | .attempt => nodePath "Try"
  | .reduce => nodePath "Reduce"
  | .foreach => nodePath "Foreach"
  | .label => nodePath "Label"
  | .list s => "Vec<" ++ s.typeName ++ ">"
  | .optional s => "Option<Box<" ++ s.typeName ++ ">>"

namespace Literal

/-- A field with a value, which is left out when the value is zero. -/
def field {α : Type} [LiteralForm α] (name : String) (a : α) : String × Option Literal :=
  (name, if isZero a then none else some (literal a))

/-- A field with a node behind a pointer. -/
def boxedField (name : String) (l : Literal) : String × Option Literal :=
  (name, some l.boxed)

/-- A field with a list of nodes or an optional node, which is left out when there is none. -/
def nodeField {s : Shape} (name : String) (n : Node s) (l : Literal) : String × Option Literal :=
  (name, if n.isEmpty then none else some l)

end Literal

open Literal in
/-- The literal of a tree. -/
def Node.literal {s : Shape} : Node s → Literal
  | .definition name params b =>
    ofFields (Shape.typeName .definition)
      [field "name" name, field "args" params, boxedField "body" b.literal]
  | .query ds t l op r func =>
    ofFields (Shape.typeName .query)
      [nodeField "func_defs" ds ds.literal, nodeField "term" t t.literal, nodeField "left" l l.literal,
       field "op" op, nodeField "right" r r.literal, field "func" func]
  | .term kind i c o a num u fmt x cond att red fore lab brk q ss =>
    ofFields (Shape.typeName .term)
      [field "kind" kind, nodeField "index" i i.literal, nodeField "func" c c.literal,
       nodeField "object" o o.literal, nodeField "array" a a.literal, field "number" num,
       nodeField "unary" u u.literal, field "format" fmt, nodeField "str" x x.literal,
       nodeField "conditional" cond cond.literal, nodeField "try_catch" att att.literal,
       nodeField "reduce" red red.literal, nodeField "foreach" fore fore.literal, nodeField "label" lab lab.literal,
       field "break_label" brk, nodeField "query" q q.literal, nodeField "suffix_list" ss ss.literal]
  | .index name x start stop isSlice =>
    ofFields (Shape.typeName .index)
      [field "name" name, nodeField "str" x x.literal, nodeField "start" start start.literal,
       nodeField "end" stop stop.literal, field "is_slice" isSlice]
  | .call name args =>
    ofFields (Shape.typeName .call) [field "name" name, nodeField "args" args args.literal]
  | .text plain parts =>
    ofFields (Shape.typeName .text) [field "str" plain, nodeField "queries" parts parts.literal]
  | .object es => ofFields (Shape.typeName .object) [nodeField "key_vals" es es.literal]
  | .entry key x q v =>
    ofFields (Shape.typeName .entry)
      [field "key" key, nodeField "key_string" x x.literal, nodeField "key_query" q q.literal,
       nodeField "val" v v.literal]
  | .array q => ofFields (Shape.typeName .array) [nodeField "query" q q.literal]
  | .unary op t => ofFields (Shape.typeName .unary) [field "op" op, boxedField "term" t.literal]
  | .suffix i iter opt b =>
    ofFields (Shape.typeName .suffix)
      [nodeField "index" i i.literal, field "iter" iter, field "optional" opt, nodeField "bind" b b.literal]
  | .binding ps b =>
    ofFields (Shape.typeName .binding) [nodeField "patterns" ps ps.literal, boxedField "body" b.literal]
  | .pattern name a o =>
    ofFields (Shape.typeName .pattern)
      [field "name" name, nodeField "array" a a.literal, nodeField "object" o o.literal]
  | .patternEntry key x q v =>
    ofFields (Shape.typeName .patternEntry)
      [field "key" key, nodeField "key_string" x x.literal, nodeField "key_query" q q.literal,
       nodeField "val" v v.literal]
  | .conditional c t es e =>
    ofFields (Shape.typeName .conditional)
      [boxedField "cond" c.literal, boxedField "then" t.literal, nodeField "elif" es es.literal,
       nodeField "else_branch" e e.literal]
  | .branch c t => ofFields (Shape.typeName .branch) [boxedField "cond" c.literal, boxedField "then" t.literal]
  | .attempt b h => ofFields (Shape.typeName .attempt) [boxedField "body" b.literal, nodeField "catch" h h.literal]
  | .reduce t p start update =>
    ofFields (Shape.typeName .reduce)
      [boxedField "term" t.literal, boxedField "pattern" p.literal, boxedField "start" start.literal,
       boxedField "update" update.literal]
  | .foreach t p start update e =>
    ofFields (Shape.typeName .foreach)
      [boxedField "term" t.literal, boxedField "pattern" p.literal, boxedField "start" start.literal,
       boxedField "update" update.literal, nodeField "extract" e e.literal]
  | .label name b => ofFields (Shape.typeName .label) [field "ident" name, boxedField "body" b.literal]
  | .nil => .vec []
  | .cons n ns => prepend n.literal ns.literal
  | .absent => missing
  | .present n => given n.literal.boxed

theorem Node.literal_list {s : Shape} : ∀ ns : Node (.list s), ns.literal = .vec (ns.toList.map Node.literal)
  | .nil => by simp [Node.literal]
  | .cons n ns => by simp [Node.literal, Node.literal_list ns, Literal.prepend]

instance {s : Shape} : LiteralForm (Node s) where
  typeName := s.typeName
  isZero n := n.isEmpty
  literal n := n.literal

end DefTable
