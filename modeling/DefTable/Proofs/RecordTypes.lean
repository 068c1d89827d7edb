import DefTable.Literal.Form

/-!
# Record types

The types of the values in a tree (`ValueType`), the fields of each record type (`Shape.fields`), and a node as the
values of its fields (`Node.values`). With that the literal of a node is the same for all record types
(`Node.literal_eq`), and one induction covers all values (`ValueType.induct`).
-/

namespace DefTable

/-- The types that literals are read at. -/
inductive ValueType where
  | bool
  | string
  | operator
  | termKind
  | node (s : Shape)
  | boxed (t : ValueType)
  | option (t : ValueType)
  | vec (t : ValueType)

namespace ValueType

/-- The values of a type. -/
@[reducible] def Value : ValueType → Type
  | bool => Bool
  | string => String
  | operator => Operator
  | termKind => TermKind
  | node s => Node s
  | boxed t => Boxed t.Value
  | option t => Option t.Value
  | vec t => List t.Value

instance form : (t : ValueType) → LiteralForm t.Value
  | bool => inferInstanceAs (LiteralForm Bool)
  | string => inferInstanceAs (LiteralForm String)
  | operator => inferInstanceAs (LiteralForm Operator)
  | termKind => inferInstanceAs (LiteralForm TermKind)
  | node s => inferInstanceAs (LiteralForm (Node s))
  | boxed t => have := form t; inferInstanceAs (LiteralForm (Boxed t.Value))
  | option t => have := form t; inferInstanceAs (LiteralForm (Option t.Value))
  | vec t => have := form t; inferInstanceAs (LiteralForm (List t.Value))

/-- The default value of a type, if it has one. -/
def default? : (t : ValueType) → Option t.Value
  | bool => some false
  | string => some ""
  | operator => none
  | termKind => some .identity
  | node s => Node.default? s
  | boxed t => t.default?.map Boxed.mk
  | option _ => some none
  | vec _ => some []

/-- Values of the types of some fields. -/
@[reducible] def Values : List (String × ValueType) → Type
  | [] => Unit
  | (_, t) :: fs => t.Value × Values fs

/-- A value that counts as zero is the default of its type. -/
theorem default?_of_isZero : ∀ (t : ValueType) (v : t.Value), isZero v = true → t.default? = some v
  | bool, v, h => congrArg some (by simpa [isZero] using h.symm)
  | string, v, h => congrArg some (String.isEmpty_iff.1 h).symm
  | operator, _, h => by cases h
  | termKind, _, h => by cases h
  | node _, .nil, _ => rfl
  | node _, .absent, _ => rfl
  | boxed t, ⟨v⟩, h => congrArg (Option.map Boxed.mk) (default?_of_isZero t v h)
  | option _, none, _ => rfl
  | vec _, [], _ => rfl

end ValueType
open ValueType (Values)

/-- The fields of a record type with their types, in the order of its declaration. -/
def Shape.fields : Shape → List (String × ValueType)
  | .definition => [("name", .string), ("args", .vec .string), ("body", .boxed (.node .query))]
  | .query =>
    [("func_defs", .node (.list .definition)), ("term", .node (.optional .term)), ("left", .node (.optional .query)),
     ("op", .option .operator), ("right", .node (.optional .query)), ("func", .string)]
  | .term =>
    [("kind", .termKind), ("index", .node (.optional .index)), ("func", .node (.optional .call)),
     ("object", .node (.optional .object)), ("array", .node (.optional .array)), ("number", .string),
     ("unary", .node (.optional .unary)), ("format", .string), ("str", .node (.optional .text)),
     ("conditional", .node (.optional .conditional)), ("try_catch", .node (.optional .attempt)),
     ("reduce", .node (.optional .reduce)), ("foreach", .node (.optional .foreach)),
     ("label", .node (.optional .label)), ("break_label", .string), ("query", .node (.optional .query)),
     ("suffix_list", .node (.list .suffix))]
  | .index =>
    [("name", .string), ("str", .node (.optional .text)), ("start", .node (.optional .query)),
     ("end", .node (.optional .query)), ("is_slice", .bool)]
  | .call => [("name", .string), ("args", .node (.list .query))]
  | .text => [("str", .string), ("queries", .node (.list .query))]
  | .object => [("key_vals", .node (.list .entry))]
  | .entry =>
    [("key", .string), ("key_string", .node (.optional .text)), ("key_query", .node (.optional .query)),
     ("val", .node (.optional .query))]
  | .array => [("query", .node (.optional .query))]
  | .unary => [("op", .operator), ("term", .boxed (.node .term))]
  | .suffix =>
    [("index", .node (.optional .index)), ("iter", .bool), ("optional", .bool), ("bind", .node (.optional .binding))]
  | .binding => [("patterns", .node (.list .pattern)), ("body", .boxed (.node .query))]
  | .pattern => [("name", .string), ("array", .node (.list .pattern)), ("object", .node (.list .patternEntry))]
  | .patternEntry =>
    [("key", .string), ("key_string", .node (.optional .text)), ("key_query", .node (.optional .query)),
     ("val", .node (.optional .pattern))]
  | .conditional =>
    [("cond", .boxed (.node .query)), ("then", .boxed (.node .query)), ("elif", .node (.list .branch)),
     ("else_branch", .node (.optional .query))]
  | .branch => [("cond", .boxed (.node .query)), ("then", .boxed (.node .query))]
  | .attempt => [("body", .boxed (.node .query)), ("catch", .node (.optional .query))]
  | .reduce =>
    [("term", .boxed (.node .term)), ("pattern", .boxed (.node .pattern)), ("start", .boxed (.node .query)),
     ("update", .boxed (.node .query))]
  | .foreach =>
    [("term", .boxed (.node .term)), ("pattern", .boxed (.node .pattern)), ("start", .boxed (.node .query)),
     ("update", .boxed (.node .query)), ("extract", .node (.optional .query))]
  | .label => [("ident", .string), ("body", .boxed (.node .query))]
  | .list _ => []
  | .optional _ => []

def Shape.fieldNames (s : Shape) : List String :=
  s.fields.map Prod.fst

/-- The fields of a node; a list and an optional node have none. -/
def Node.values : {s : Shape} → Node s → Values s.fields
  | _, .definition name params b => (name, params, ⟨b⟩, ())
  | _, .query ds t l op r func => (ds, t, l, op, r, func, ())
  | _, .term kind i c o a num u fmt x cond att red fore lab brk q ss =>
    (kind, i, c, o, a, num, u, fmt, x, cond, att, red, fore, lab, brk, q, ss, ())
  | _, .index name x start stop isSlice => (name, x, start, stop, isSlice, ())
  | _, .call name args => (name, args, ())
  | _, .text plain parts => (plain, parts, ())
  | _, .object es => (es, ())
  | _, .entry key x q v => (key, x, q, v, ())
  | _, .array q => (q, ())
  | _, .unary op t => (op, ⟨t⟩, ())
  | _, .suffix i iter opt b => (i, iter, opt, b, ())
  | _, .binding ps b => (ps, ⟨b⟩, ())
  | _, .pattern name a o => (name, a, o, ())
  | _, .patternEntry key x q v => (key, x, q, v, ())
  | _, .conditional c t es e => (⟨c⟩, ⟨t⟩, es, e, ())
  | _, .branch c t => (⟨c⟩, ⟨t⟩, ())
  | _, .attempt b h => (⟨b⟩, h, ())
  | _, .reduce t p start update => (⟨t⟩, ⟨p⟩, ⟨start⟩, ⟨update⟩, ())
  | _, .foreach t p start update e => (⟨t⟩, ⟨p⟩, ⟨start⟩, ⟨update⟩, e, ())
  | _, .label name b => (name, ⟨b⟩, ())
  | _, .nil => ()
  | _, .cons _ _ => ()
  | _, .absent => ()
  | _, .present _ => ()

/-- Whether a type is that of a record, unlike those of lists and optional nodes. -/
def Shape.isRecord : Shape → Bool
  | .list _ => false
  | .optional _ => false
  | _ => true

theorem Node.isEmpty_of_isRecord {s : Shape} (hs : s.isRecord = true) (n : Node s) : n.isEmpty = false := by
  cases n <;> first | rfl | cases hs

namespace Literal

/-- The literals of values under the names of their fields. -/
def fieldLiterals : (fs : List (String × ValueType)) → Values fs → List (String × Option Literal)
  | [], () => []
  | (name, _) :: fs, (v, vs) => field name v :: fieldLiterals fs vs

theorem fieldLiterals_fst : ∀ (fs : List (String × ValueType)) (vs : Values fs),
    (fieldLiterals fs vs).map Prod.fst = fs.map Prod.fst
  | [], () => rfl
  | (_, _) :: fs, (_, vs) => congrArg (_ :: ·) (fieldLiterals_fst fs vs)

theorem boxedField_eq {s : Shape} (hs : s.isRecord = true) (name : String) (n : Node s) :
    boxedField name n.literal = field name (⟨n⟩ : ValueType.Value (.boxed (.node s))) := by
  have h : isZero (⟨n⟩ : ValueType.Value (.boxed (.node s))) = false := n.isEmpty_of_isRecord hs
  rw [field, h]
  rfl

end Literal

open Literal in
/-- **The literal of a node is the record of its type with the literals of its fields.** -/
theorem Node.literal_eq {s : Shape} (hs : s.isRecord = true) (n : Node s) :
    n.literal = ofFields s.typeName (fieldLiterals s.fields n.values) := by
  cases n with
  | nil | cons | absent | present => cases hs
  | _ =>
    simp only [Node.literal, boxedField_eq (s := .query) rfl, boxedField_eq (s := .term) rfl,
      boxedField_eq (s := .pattern) rfl]
    rfl

/-! ## Induction over values -/

/-- A property of the values of fields, one by one. -/
def ValueType.AllValues (P : (t : ValueType) → t.Value → Prop) : (fs : List (String × ValueType)) → Values fs → Prop
  | [], () => True
  | (_, t) :: fs, (v, vs) => P t v ∧ AllValues P fs vs

/-- A property that a value has when its parts have it. -/
structure ValueType.Hereditary (P : (t : ValueType) → t.Value → Prop) : Prop where
  bool : ∀ b, P .bool b
  string : ∀ s, P .string s
  operator : ∀ op, P .operator op
  termKind : ∀ kind, P .termKind kind
  boxed : ∀ t v, P t v → P (.boxed t) ⟨v⟩
  missing : ∀ t, P (.option t) none
  given : ∀ t v, P t v → P (.option t) (some v)
  vec : ∀ t vs, (∀ v ∈ vs, P t v) → P (.vec t) vs
  list : ∀ s (ns : Node (.list s)), (∀ n ∈ ns.toList, P (.node s) n) → P (.node (.list s)) ns
  absent : ∀ s, P (.node (.optional s)) .absent
  present : ∀ s n, P (.node s) n → P (.node (.optional s)) (.present n)
  record : ∀ s n, s.isRecord = true → AllValues P s.fields n.values → P (.node s) n

namespace ValueType.Hereditary

variable {P : (t : ValueType) → t.Value → Prop}

theorem node (h : Hereditary P) {s : Shape} (n : Node s) :
    P (.node s) n ∧ ∀ m ∈ n.members, P (.node s.member) m := by
  induction n with
  | definition name params b hb =>
    exact ⟨h.record _ _ rfl ⟨h.string _, h.vec _ _ fun s _ => h.string s, h.boxed _ _ hb.1, trivial⟩, nofun⟩
  | query ds t l op r func hds ht hl hr =>
    have hop : P (.option .operator) op := by
      cases op with
      | none => exact h.missing _
      | some op => exact h.given _ _ (h.operator op)
    exact ⟨h.record _ _ rfl ⟨hds.1, ht.1, hl.1, hop, hr.1, h.string _, trivial⟩, nofun⟩
  | term kind i c o a num u fmt x cond att red fore lab brk q ss hi hc ho ha hu hx hcond hatt hred hfore hlab hq hss =>
    exact ⟨h.record _ _ rfl ⟨h.termKind _, hi.1, hc.1, ho.1, ha.1, h.string _, hu.1, h.string _, hx.1, hcond.1, hatt.1,
      hred.1, hfore.1, hlab.1, h.string _, hq.1, hss.1, trivial⟩, nofun⟩
  | index name x start stop isSlice hx hstart hstop =>
    exact ⟨h.record _ _ rfl ⟨h.string _, hx.1, hstart.1, hstop.1, h.bool _, trivial⟩, nofun⟩
  | call name args hargs => exact ⟨h.record _ _ rfl ⟨h.string _, hargs.1, trivial⟩, nofun⟩
  | text plain parts hparts => exact ⟨h.record _ _ rfl ⟨h.string _, hparts.1, trivial⟩, nofun⟩
  | object es hes => exact ⟨h.record _ _ rfl ⟨hes.1, trivial⟩, nofun⟩
  | entry key x q v hx hq hv => exact ⟨h.record _ _ rfl ⟨h.string _, hx.1, hq.1, hv.1, trivial⟩, nofun⟩
  | array q hq => exact ⟨h.record _ _ rfl ⟨hq.1, trivial⟩, nofun⟩
  | unary op t ht => exact ⟨h.record _ _ rfl ⟨h.operator _, h.boxed _ _ ht.1, trivial⟩, nofun⟩
  | suffix i iter opt b hi hb => exact ⟨h.record _ _ rfl ⟨hi.1, h.bool _, h.bool _, hb.1, trivial⟩, nofun⟩
  | binding ps b hps hb => exact ⟨h.record _ _ rfl ⟨hps.1, h.boxed _ _ hb.1, trivial⟩, nofun⟩
  | pattern name a o ha ho => exact ⟨h.record _ _ rfl ⟨h.string _, ha.1, ho.1, trivial⟩, nofun⟩
  | patternEntry key x q v hx hq hv => exact ⟨h.record _ _ rfl ⟨h.string _, hx.1, hq.1, hv.1, trivial⟩, nofun⟩
  | conditional c t es e hc ht hes he =>
    exact ⟨h.record _ _ rfl ⟨h.boxed _ _ hc.1, h.boxed _ _ ht.1, hes.1, he.1, trivial⟩, nofun⟩
  | branch c t hc ht => exact ⟨h.record _ _ rfl ⟨h.boxed _ _ hc.1, h.boxed _ _ ht.1, trivial⟩, nofun⟩
  | attempt b c hb hc => exact ⟨h.record _ _ rfl ⟨h.boxed _ _ hb.1, hc.1, trivial⟩, nofun⟩
  | reduce t p start update ht hp hstart hupdate =>
    exact ⟨h.record _ _ rfl ⟨h.boxed _ _ ht.1, h.boxed _ _ hp.1, h.boxed _ _ hstart.1, h.boxed _ _ hupdate.1, trivial⟩,
      nofun⟩
  | foreach t p start update e ht hp hstart hupdate he =>
    exact ⟨h.record _ _ rfl ⟨h.boxed _ _ ht.1, h.boxed _ _ hp.1, h.boxed _ _ hstart.1, h.boxed _ _ hupdate.1, he.1,
      trivial⟩, nofun⟩
  | label name b hb => exact ⟨h.record _ _ rfl ⟨h.string _, h.boxed _ _ hb.1, trivial⟩, nofun⟩
  | nil => exact ⟨h.list _ _ nofun, nofun⟩
  | cons n ns hn hns =>
    have hmem : ∀ m ∈ (Node.cons n ns).toList, P (.node _) m := fun m hm => by
      rcases List.mem_cons.1 hm with rfl | hm
      · exact hn.1
      · exact hns.2 m hm
    exact ⟨h.list _ _ hmem, hmem⟩
  | absent => exact ⟨h.absent _, nofun⟩
  | present n hn => exact ⟨h.present _ _ hn.1, nofun⟩

/-- **A hereditary property holds of all values.** -/
theorem all (h : Hereditary P) : ∀ (t : ValueType) (v : t.Value), P t v
  | .bool, b => h.bool b
  | .string, s => h.string s
  | .operator, op => h.operator op
  | .termKind, kind => h.termKind kind
  | .node _, n => (h.node n).1
  | .boxed t, ⟨v⟩ => h.boxed t v (all h t v)
  | .option t, none => h.missing t
  | .option t, some v => h.given t v (all h t v)
  | .vec t, vs => h.vec t vs fun v _ => all h t v

end ValueType.Hereditary

end DefTable
