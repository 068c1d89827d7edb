import DefTable.Operator
import DefTable.TermKind

/-!
# Syntax trees

The tree of a definition. All node types form one family, `Node`, indexed by the type of the node (`Shape`), so that a
traversal is one function and a property of every node type is one induction. Lists of nodes and optional nodes are
members of the family too; `Node.toList` and `Node.ofList` connect the former with ordinary lists.

The records are permissive: a term has a place for the payload of every kind, and a query has places for a term, for
two operands and for a name. Which of them are filled together is a matter of who builds the tree.
-/

namespace DefTable

/-- The types of nodes. -/
inductive Shape where
  | definition
  /-- A term, two operands of an operator, or a name, below local definitions. -/
  | query
  | term
  /-- Access by a field name, a string, a position or a range. -/
  | index
  | call
  /-- A string: plain text, or the parts of an interpolated one. -/
  | text
  | object
  /-- A key of an object with its value. -/
  | entry
  | array
  | unary
  /-- What follows a term: an access, an iteration, a question mark or a binding. -/
  | suffix
  | binding
  | pattern
  /-- A key of an object pattern with the pattern of its value. -/
  | patternEntry
  | conditional
  /-- A further condition with its branch. -/
  | branch
  | attempt
  | reduce
  | foreach
  | label
  | list (s : Shape)
  | optional (s : Shape)
deriving DecidableEq, Repr

/-- The type of the members of a list, which other nodes do not have. -/
def Shape.member : Shape → Shape
  | .list s => s
  | s => s

/-- Syntax trees by the type of their root. -/
inductive Node : Shape → Type where
  | definition (name : String) (params : List String) (body : Node .query) : Node .definition
  | query (defs : Node (.list .definition)) (term : Node (.optional .term)) (left : Node (.optional .query))
      (op : Option Operator) (right : Node (.optional .query)) (func : String) : Node .query
  | term (kind : TermKind) (index : Node (.optional .index)) (call : Node (.optional .call))
      (object : Node (.optional .object)) (array : Node (.optional .array)) (number : String)
      (unary : Node (.optional .unary)) (format : String) (text : Node (.optional .text))
      (conditional : Node (.optional .conditional)) (attempt : Node (.optional .attempt))
      (reduce : Node (.optional .reduce)) (foreach : Node (.optional .foreach)) (label : Node (.optional .label))
      (breakLabel : String) (query : Node (.optional .query)) (suffixes : Node (.list .suffix)) : Node .term
  | index (name : String) (text : Node (.optional .text)) (start stop : Node (.optional .query)) (isSlice : Bool) :
      Node .index
  | call (name : String) (args : Node (.list .query)) : Node .call
  | text (plain : String) (parts : Node (.list .query)) : Node .text
  | object (entries : Node (.list .entry)) : Node .object
  | entry (key : String) (keyText : Node (.optional .text)) (keyQuery value : Node (.optional .query)) : Node .entry
  | array (query : Node (.optional .query)) : Node .array
  | unary (op : Operator) (term : Node .term) : Node .unary
  | suffix (index : Node (.optional .index)) (iter optional : Bool) (binding : Node (.optional .binding)) :
      Node .suffix
  | binding (patterns : Node (.list .pattern)) (body : Node .query) : Node .binding
  | pattern (name : String) (array : Node (.list .pattern)) (object : Node (.list .patternEntry)) : Node .pattern
  | patternEntry (key : String) (keyText : Node (.optional .text)) (keyQuery : Node (.optional .query))
      (value : Node (.optional .pattern)) : Node .patternEntry
  | conditional (cond thenBranch : Node .query) (elifs : Node (.list .branch))
      (elseBranch : Node (.optional .query)) : Node .conditional
  | branch (cond thenBranch : Node .query) : Node .branch
  | attempt (body : Node .query) (handler : Node (.optional .query)) : Node .attempt
  | reduce (term : Node .term) (pattern : Node .pattern) (start update : Node .query) : Node .reduce
  | foreach (term : Node .term) (pattern : Node .pattern) (start update : Node .query)
      (extract : Node (.optional .query)) : Node .foreach
  | label (name : String) (body : Node .query) : Node .label
  | nil {s : Shape} : Node (.list s)
  | cons {s : Shape} (head : Node s) (tail : Node (.list s)) : Node (.list s)
  | absent {s : Shape} : Node (.optional s)
  | present {s : Shape} (node : Node s) : Node (.optional s)
deriving DecidableEq, Repr

abbrev Definition := Node .definition
abbrev Query := Node .query
abbrev Term := Node .term
abbrev Index := Node .index
abbrev Suffix := Node .suffix
abbrev Pattern := Node .pattern

namespace Node

variable {s : Shape}

/-- The members of a node that is a list. -/
def members {t : Shape} : Node t → List (Node t.member)
  | .nil => []
  | .cons head tail => head :: tail.members
  | _ => []

def toList (ns : Node (.list s)) : List (Node s) :=
  ns.members

def ofList : List (Node s) → Node (.list s)
  | [] => .nil
  | n :: ns => .cons n (ofList ns)

def ofOption : Option (Node s) → Node (.optional s)
  | none => .absent
  | some n => .present n

def toOption : Node (.optional s) → Option (Node s)
  | .absent => none
  | .present n => some n

/-- One list of nodes after another; a node that is no list stays as it is. -/
def append {t : Shape} : Node t → Node t → Node t
  | .nil, ns => ns
  | .cons head tail, ns => .cons head (tail.append ns)
  | n, _ => n

@[simp] theorem toList_nil : (nil : Node (.list s)).toList = [] := rfl

@[simp] theorem toList_cons (n : Node s) (ns : Node (.list s)) : (cons n ns).toList = n :: ns.toList := rfl

@[simp] theorem toList_ofList : ∀ ns : List (Node s), (ofList ns).toList = ns
  | [] => toList_nil
  | n :: ns => by rw [ofList, toList_cons, toList_ofList ns]

@[simp] theorem ofList_toList : ∀ ns : Node (.list s), ofList ns.toList = ns
  | .nil => rfl
  | .cons n ns => congrArg (cons n) (ofList_toList ns)

@[simp] theorem toList_append : ∀ as bs : Node (.list s), (as.append bs).toList = as.toList ++ bs.toList
  | .nil, _ => rfl
  | .cons n as, bs => congrArg (n :: ·) (toList_append as bs)

@[simp] theorem toOption_ofOption (n : Option (Node s)) : (ofOption n).toOption = n := by
  cases n <;> rfl

/-- Whether a node is an empty list or an absent optional; no other node counts as empty. -/
def isEmpty : Node s → Bool
  | .nil => true
  | .absent => true
  | _ => false

end Node

/-! ## Building trees -/

namespace Query

def empty : Query :=
  .query .nil .absent .absent none .absent ""

/-- The query that consists of one term. -/
def ofTerm (t : Term) : Query :=
  .query .nil (.present t) .absent none .absent ""

/-- Two queries joined by an operator. -/
def binary (left : Query) (op : Operator) (right : Query) : Query :=
  .query .nil .absent (.present left) (some op) (.present right) ""

/-- A query below further local definitions, which come before its own. -/
def withDefs (defs : Node (.list .definition)) : Query → Query
  | .query own term left op right func => .query (defs.append own) term left op right func

end Query

namespace Term

def ofKind (kind : TermKind) : Term :=
  .term kind .absent .absent .absent .absent "" .absent "" .absent .absent .absent .absent .absent .absent "" .absent .nil

def ofIndex (i : Index) : Term :=
  .term .index (.present i) .absent .absent .absent "" .absent "" .absent .absent .absent .absent .absent .absent ""
    .absent .nil

/-- A call of a function, or a variable when there are no arguments and the name has its sigil. -/
def ofCall (name : String) (args : List Query) : Term :=
  .term .func .absent (.present (.call name (.ofList args))) .absent .absent "" .absent "" .absent .absent .absent
    .absent .absent .absent "" .absent .nil

def ofObject (entries : List (Node .entry)) : Term :=
  .term .object .absent .absent (.present (.object (.ofList entries))) .absent "" .absent "" .absent .absent .absent
    .absent .absent .absent "" .absent .nil

/-- The construction of an array from what a query yields. -/
def ofArray (q : Option Query) : Term :=
  .term .array .absent .absent .absent (.present (.array (.ofOption q))) "" .absent "" .absent .absent .absent .absent
    .absent .absent "" .absent .nil

def ofNumber (digits : String) : Term :=
  .term .number .absent .absent .absent .absent digits .absent "" .absent .absent .absent .absent .absent .absent ""
    .absent .nil

def ofUnary (op : Operator) (t : Term) : Term :=
  .term .unary .absent .absent .absent .absent "" (.present (.unary op t)) "" .absent .absent .absent .absent .absent
    .absent "" .absent .nil

/-- A format, alone or applied to a string. -/
def ofFormat (name : String) (text : Option (Node .text)) : Term :=
  .term .format .absent .absent .absent .absent "" .absent name (.ofOption text) .absent .absent .absent .absent
    .absent "" .absent .nil

def ofText (text : Node .text) : Term :=
  .term .string .absent .absent .absent .absent "" .absent "" (.present text) .absent .absent .absent .absent .absent ""
    .absent .nil

def ofConditional (c : Node .conditional) : Term :=
  .term .conditional .absent .absent .absent .absent "" .absent "" .absent (.present c) .absent .absent .absent .absent
    "" .absent .nil

/-- An attempt, whose errors are handled. -/
def ofAttempt (a : Node .attempt) : Term :=
  .term .attempt .absent .absent .absent .absent "" .absent "" .absent .absent (.present a) .absent .absent .absent ""
    .absent .nil

def ofReduce (r : Node .reduce) : Term :=
  .term .reduce .absent .absent .absent .absent "" .absent "" .absent .absent .absent (.present r) .absent .absent ""
    .absent .nil

def ofForeach (f : Node .foreach) : Term :=
  .term .foreach .absent .absent .absent .absent "" .absent "" .absent .absent .absent .absent (.present f) .absent ""
    .absent .nil

def ofLabel (name : String) (body : Query) : Term :=
  .term .label .absent .absent .absent .absent "" .absent "" .absent .absent .absent .absent .absent
    (.present (.label name body)) "" .absent .nil

def ofBreak (name : String) : Term :=
  .term .break .absent .absent .absent .absent "" .absent "" .absent .absent .absent .absent .absent .absent name .absent
    .nil

/-- A query in parentheses. -/
def ofQuery (q : Query) : Term :=
  .term .query .absent .absent .absent .absent "" .absent "" .absent .absent .absent .absent .absent .absent ""
    (.present q) .nil

/-- A term with further suffixes after its own. -/
def withSuffixes (suffixes : List Suffix) : Term → Term
  | .term kind index call object array number unary format text conditional attempt reduce foreach label breakLabel
      query own =>
    .term kind index call object array number unary format text conditional attempt reduce foreach label breakLabel
      query (own.append (.ofList suffixes))

end Term

namespace Index

def ofName (name : String) : Index :=
  .index name .absent .absent .absent false

def ofText (text : Node .text) : Index :=
  .index "" (.present text) .absent .absent false

end Index

namespace Suffix

def ofIndex (i : Index) : Suffix :=
  .suffix (.present i) false false .absent

def iterate : Suffix :=
  .suffix .absent true false .absent

/-- The suffix that drops errors. -/
def optional : Suffix :=
  .suffix .absent false true .absent

/-- A binding, whose body is the rest of the pipeline. -/
def ofBinding (patterns : List Pattern) (body : Query) : Suffix :=
  .suffix .absent false false (.present (.binding (.ofList patterns) body))

end Suffix

namespace Pattern

def ofVariable (name : String) : Pattern :=
  .pattern name .nil .nil

def ofArray (items : List Pattern) : Pattern :=
  .pattern "" (.ofList items) .nil

def ofObject (entries : List (Node .patternEntry)) : Pattern :=
  .pattern "" .nil (.ofList entries)

end Pattern

namespace Definition

def arity : Definition → Nat
  | .definition _ params _ => params.length

def name : Definition → String
  | .definition name _ _ => name

def body : Definition → Query
  | .definition _ _ body => body

end Definition

/-! ## Default nodes -/

/-- The node that stands for an omitted field of its type. An operator has no default, so neither has a signed
term. -/
def Node.default? : (s : Shape) → Option (Node s)
  | .definition => some (.definition "" [] Query.empty)
  | .query => some Query.empty
  | .term => some (Term.ofKind .identity)
  | .index => some (.index "" .absent .absent .absent false)
  | .call => some (.call "" .nil)
  | .text => some (.text "" .nil)
  | .object => some (.object .nil)
  | .entry => some (.entry "" .absent .absent .absent)
  | .array => some (.array .absent)
  | .unary => none
  | .suffix => some (.suffix .absent false false .absent)
  | .binding => some (.binding .nil Query.empty)
  | .pattern => some (.pattern "" .nil .nil)
  | .patternEntry => some (.patternEntry "" .absent .absent .absent)
  | .conditional => some (.conditional Query.empty Query.empty .nil .absent)
  | .branch => some (.branch Query.empty Query.empty)
  | .attempt => some (.attempt Query.empty .absent)
  | .reduce => some (.reduce (Term.ofKind .identity) (.pattern "" .nil .nil) Query.empty Query.empty)
  | .foreach => some (.foreach (Term.ofKind .identity) (.pattern "" .nil .nil) Query.empty Query.empty .absent)
  | .label => some (.label "" Query.empty)
  | .list _ => some .nil
  | .optional _ => some .absent

end DefTable
