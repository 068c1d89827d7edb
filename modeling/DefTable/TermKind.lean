/-!
# Kinds of terms

A term is tagged with its kind, which tells which of its parts is the one that counts. Codes run without a gap from
`TermKind.first` to `TermKind.last` (`ofCode?_code`).
-/

namespace DefTable

/-- What a term is. -/
inductive TermKind where
  | identity | recurse | null | true | false
  | index | func | object | array | number | unary | format | string
  | conditional | attempt | reduce | foreach | label | break | query
deriving DecidableEq, Repr

namespace TermKind

def all : List TermKind :=
  [identity, recurse, null, true, false, index, func, object, array, number, unary, format, string,
   conditional, attempt, reduce, foreach, label, .break, query]

def first : TermKind := identity

def last : TermKind := query

/-- The number that stands for a kind in a literal tree. -/
def code : TermKind → Nat
  | identity => 1
  | recurse => 2
  | null => 3
  | true => 4
  | false => 5
  | index => 6
  | func => 7
  | object => 8
  | array => 9
  | number => 10
  | unary => 11
  | format => 12
  | string => 13
  | conditional => 14
  | attempt => 15
  | reduce => 16
  | foreach => 17
  | label => 18
  | .break => 19
  | query => 20

def ofCode? (n : Nat) : Option TermKind :=
  all.find? fun kind => kind.code == n

theorem ofCode?_code (kind : TermKind) : ofCode? kind.code = some kind := by
  cases kind <;> rfl

def name : TermKind → String
  | identity => "Identity"
  | recurse => "Recurse"
  | null => "Null"
  | true => "True"
  | false => "False"
  | index => "Index"
  | func => "Func"
  | object => "Object"
  | array => "Array"
  | number => "Number"
  | unary => "Unary"
  | format => "Format"
  | string => "String"
  | conditional => "If"
  | attempt => "Try"
  | reduce => "Reduce"
  | foreach => "Foreach"
  | label => "Label"
  | .break => "Break"
  | query => "Query"

end TermKind

end DefTable
