/-!
# Operators

The binary operators of the query language, which are also those of its unary and update terms: their codes in the
generated table, their spelling, and how they bind. Codes run without a gap from `Operator.first` to `Operator.last`
(`ofCode?_code`).
-/

namespace DefTable

/-- An operator between two queries. -/
inductive Operator where
  | pipe | comma
  | add | sub | mul | div | mod
  | eq | ne | gt | lt | ge | le
  | and | or
  | alt
  | assign | modify
  | updateAdd | updateSub | updateMul | updateDiv | updateMod | updateAlt
deriving DecidableEq, Repr

/-- To which side a chain of operators of one precedence groups; with `none`, such a chain is refused. -/
inductive Associativity where
  | left | right | none
deriving DecidableEq, Repr

namespace Operator

def all : List Operator :=
  [pipe, comma, add, sub, mul, div, mod, eq, ne, gt, lt, ge, le, and, or, alt,
   assign, modify, updateAdd, updateSub, updateMul, updateDiv, updateMod, updateAlt]

def first : Operator := pipe

def last : Operator := updateAlt

/-- The number that stands for an operator in a literal tree. -/
def code : Operator → Nat
  | pipe => 1
  | comma => 2
  | add => 3
  | sub => 4
  | mul => 5
  | div => 6
  | mod => 7
  | eq => 8
  | ne => 9
  | gt => 10
  | lt => 11
  | ge => 12
  | le => 13
  | and => 14
  | or => 15
  | alt => 16
  | assign => 17
  | modify => 18
  | updateAdd => 19
  | updateSub => 20
  | updateMul => 21
  | updateDiv => 22
  | updateMod => 23
  | updateAlt => 24

def ofCode? (n : Nat) : Option Operator :=
  all.find? fun op => op.code == n

theorem ofCode?_code (op : Operator) : ofCode? op.code = some op := by
  cases op <;> rfl

/-- The name of an operator in the generated file. -/
def name : Operator → String
  | pipe => "Pipe"
  | comma => "Comma"
  | add => "Add"
  | sub => "Sub"
  | mul => "Mul"
  | div => "Div"
  | mod => "Mod"
  | eq => "Eq"
  | ne => "Ne"
  | gt => "Gt"
  | lt => "Lt"
  | ge => "Ge"
  | le => "Le"
  | and => "And"
  | or => "Or"
  | alt => "Alt"
  | assign => "Assign"
  | modify => "Modify"
  | updateAdd => "UpdateAdd"
  | updateSub => "UpdateSub"
  | updateMul => "UpdateMul"
  | updateDiv => "UpdateDiv"
  | updateMod => "UpdateMod"
  | updateAlt => "UpdateAlt"

def text : Operator → String
  | pipe => "|"
  | comma => ","
  | add => "+"
  | sub => "-"
  | mul => "*"
  | div => "/"
  | mod => "%"
  | eq => "=="
  | ne => "!="
  | gt => ">"
  | lt => "<"
  | ge => ">="
  | le => "<="
  | and => "and"
  | or => "or"
  | alt => "//"
  | assign => "="
  | modify => "|="
  | updateAdd => "+="
  | updateSub => "-="
  | updateMul => "*="
  | updateDiv => "/="
  | updateMod => "%="
  | updateAlt => "//="

/-- How strongly an operator binds; the greater number binds tighter. -/
def precedence : Operator → Nat
  | pipe => 1
  | comma => 2
  | alt => 3
  | assign | modify | updateAdd | updateSub | updateMul | updateDiv | updateMod | updateAlt => 4
  | or => 5
  | and => 6
  | eq | ne | gt | lt | ge | le => 7
  | add | sub => 8
  | mul | div | mod => 9

/-- How a chain of operators of this one's precedence groups. -/
def associativity (op : Operator) : Associativity :=
  match op.precedence with
  | 1 | 3 => .right
  | 4 | 7 => .none
  | _ => .left

end Operator

end DefTable
