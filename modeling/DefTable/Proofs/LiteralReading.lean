import DefTable.Proofs.RecordTypes
import DefTable.Proofs.Tables

/-!
# Reading literals

What a literal builds at a type (`Literal.read`): a record whose fields are not all there takes the defaults of the
others, and numbers are codes. Reading the literal of a value gives the value (`read_literal`), and a record in it is
open exactly when it leaves fields out (`recordsFaithful_literal`).
-/

namespace DefTable

open ValueType (Values AllValues Hereditary)

/-! ## Reading -/

/-- The values of fields, each found by its name and its type. -/
def ValueType.collect (value? : String → (t : ValueType) → Option t.Value) :
    (fs : List (String × ValueType)) → Option (Values fs)
  | [] => some ()
  | (name, t) :: fs =>
    match value? name t, collect value? fs with
    | some v, some vs => some (v, vs)
    | _, _ => none

/-- The node of a record type with the given fields. -/
def Node.ofValues : (s : Shape) → Values s.fields → Option (Node s)
  | .definition, (name, params, b, ()) => some (.definition name params b.content)
  | .query, (ds, t, l, op, r, func, ()) => some (.query ds t l op r func)
  | .term, (kind, i, c, o, a, num, u, fmt, x, cond, att, red, fore, lab, brk, q, ss, ()) =>
    some (.term kind i c o a num u fmt x cond att red fore lab brk q ss)
  | .index, (name, x, start, stop, isSlice, ()) => some (.index name x start stop isSlice)
  | .call, (name, args, ()) => some (.call name args)
  | .text, (plain, parts, ()) => some (.text plain parts)
  | .object, (es, ()) => some (.object es)
  | .entry, (key, x, q, v, ()) => some (.entry key x q v)
  | .array, (q, ()) => some (.array q)
  | .unary, (op, t, ()) => some (.unary op t.content)
  | .suffix, (i, iter, opt, b, ()) => some (.suffix i iter opt b)
  | .binding, (ps, b, ()) => some (.binding ps b.content)
  | .pattern, (name, a, o, ()) => some (.pattern name a o)
  | .patternEntry, (key, x, q, v, ()) => some (.patternEntry key x q v)
  | .conditional, (c, t, es, e, ()) => some (.conditional c.content t.content es e)
  | .branch, (c, t, ()) => some (.branch c.content t.content)
  | .attempt, (b, h, ()) => some (.attempt b.content h)
  | .reduce, (t, p, start, update, ()) => some (.reduce t.content p.content start.content update.content)
  | .foreach, (t, p, start, update, e, ()) => some (.foreach t.content p.content start.content update.content e)
  | .label, (name, b, ()) => some (.label name b.content)
  | .list _, () => none
  | .optional _, () => none

theorem Node.ofValues_values {s : Shape} (hs : s.isRecord = true) (n : Node s) :
    Node.ofValues s n.values = some n := by
  cases n <;> first | rfl | cases hs

/-- Whether a record of a type may name the given fields and, with `rest`, leave the others to their defaults. -/
def Shape.Admits (s : Shape) (names : List String) (rest : Bool) : Prop :=
  names.Nodup ∧ (∀ name ∈ names, name ∈ s.fieldNames) ∧ (rest = true → (Node.default? s).isSome = true)

instance (s : Shape) (names : List String) (rest : Bool) : Decidable (s.Admits names rest) :=
  inferInstanceAs (Decidable (_ ∧ _ ∧ _))

namespace Literal

mutual

/-- The value that a literal builds at a type. -/
def read : Literal → (t : ValueType) → Option t.Value
  | .bool b, .bool => some b
  | .call "String::from" [.str s], .string => some s
  | .int n, .operator => Operator.ofCode? n.toNat
  | .int n, .termKind => TermKind.ofCode? n.toNat
  | .call "Box::new" [l], .boxed t => (read l t).map Boxed.mk
  | .path "None", .option _ => some none
  | .call "Some" [l], .option t => (read l t).map some
  | .vec items, .vec t => readAll items t
  | .vec items, .node (.list s) => (readAll items (.node s)).map Node.ofList
  | .path "None", .node (.optional _) => some .absent
  | .call "Some" [.call "Box::new" [l]], .node (.optional s) => (read l (.node s)).map .present
  | .record name fields rest, .node s =>
    if name = s.typeName ∧ s.Admits (fields.map Prod.fst) rest then
      (ValueType.collect (readField fields rest) s.fields).bind (Node.ofValues s)
    else none
  | _, _ => none

def readAll : List Literal → (t : ValueType) → Option (List t.Value)
  | [], _ => some []
  | l :: ls, t =>
    match read l t, readAll ls t with
    | some v, some vs => some (v :: vs)
    | _, _ => none

/-- The value of a field of a record by its name and type: the one that is given, or with `rest` the default. -/
def readField : List (String × Literal) → Bool → String → (t : ValueType) → Option t.Value
  | [], rest, _, t => if rest then t.default? else none
  | (given, l) :: fields, rest, name, t => if given = name then read l t else readField fields rest name t

end

/-- The table that a literal builds, of values of a type. -/
def readTable (t : ValueType) : Literal → Option (Table t.Value)
  | .map type entries =>
    if type = tableTypeName (typeName t.Value) then
      (readAll (entries.map Prod.snd) t).map fun vs => Table.ofList ((entries.map Prod.fst).zip vs)
    else none
  | _ => none

/-! ## Records -/

/-- The fields that have a literal. -/
def listed (items : List (String × Option Literal)) : List (String × Literal) :=
  items.filterMap fun f => f.2.map fun l => (f.1, l)

theorem ofFields_eq (name : String) (items : List (String × Option Literal)) :
    ofFields name items = .record name (listed items) (items.any fun f => f.2.isNone) := rfl

@[simp] theorem listed_some (name : String) (l : Literal) (items : List (String × Option Literal)) :
    listed ((name, some l) :: items) = (name, l) :: listed items := rfl

@[simp] theorem listed_none (name : String) (items : List (String × Option Literal)) :
    listed ((name, none) :: items) = listed items := rfl

theorem mem_listed {items : List (String × Option Literal)} {name : String} {l : Literal} :
    (name, l) ∈ listed items ↔ (name, some l) ∈ items := by
  simp only [listed, List.mem_filterMap, Option.map_eq_some_iff, Prod.mk.injEq]
  constructor
  · rintro ⟨⟨_, _⟩, hmem, _, rfl, rfl, rfl⟩
    exact hmem
  · intro hmem
    exact ⟨_, hmem, l, rfl, rfl, rfl⟩

theorem listed_sublist : ∀ items : List (String × Option Literal),
    ((listed items).map Prod.fst).Sublist (items.map Prod.fst)
  | [] => List.Sublist.slnil
  | (name, none) :: items => (listed_sublist items).cons name
  | (name, some _) :: items => (listed_sublist items).cons_cons name

theorem readField_of_not_mem (rest : Bool) {name : String} (t : ValueType) : ∀ {fields : List (String × Literal)},
    name ∉ fields.map Prod.fst → readField fields rest name t = if rest then t.default? else none
  | [], _ => by rw [readField]
  | (given, _) :: fields, h => by
    rw [List.map_cons, List.mem_cons, not_or] at h
    rw [readField, if_neg (Ne.symm h.1), readField_of_not_mem rest t h.2]

theorem readField_listed (rest : Bool) {name : String} (t : ValueType) :
    ∀ {items : List (String × Option Literal)} {o : Option Literal}, (items.map Prod.fst).Nodup → (name, o) ∈ items →
      readField (listed items) rest name t =
        match o with
        | some l => l.read t
        | none => if rest then t.default? else none
  | (name', o') :: items, o, hnd, hmem => by
    rw [List.map_cons, List.nodup_cons] at hnd
    rcases List.mem_cons.1 hmem with heq | hmem
    · obtain ⟨rfl, rfl⟩ := Prod.mk.inj heq
      cases o with
      | some l => rw [listed_some, readField, if_pos rfl]
      | none =>
        rw [listed_none]
        exact readField_of_not_mem rest t fun h => hnd.1 ((listed_sublist items).subset h)
    · have hne : name' ≠ name := fun he => hnd.1 (List.mem_map.2 ⟨_, hmem, he.symm⟩)
      have ih := readField_listed rest t hnd.2 hmem
      cases o' with
      | some l => rw [listed_some, readField, if_neg hne, ih]
      | none => rw [listed_none, ih]

theorem fieldNames_nodup (s : Shape) : s.fieldNames.Nodup := by
  cases s with
  | list | optional => exact List.nodup_nil
  | _ => decide

theorem collect_listed {items : List (String × Option Literal)} (hnd : (items.map Prod.fst).Nodup) :
    ∀ (fs : List (String × ValueType)) (vs : Values fs),
      AllValues (fun t v => (literal v).read t = some v) fs vs → (∀ f ∈ fieldLiterals fs vs, f ∈ items) →
      ValueType.collect (readField (listed items) (items.any fun f => f.2.isNone)) fs = some vs
  | [], (), _, _ => rfl
  | (name, t) :: fs, (v, vs), h, hmem => by
    have hfield : field name v ∈ items := hmem _ List.mem_cons_self
    have hv : readField (listed items) (items.any fun f => f.2.isNone) name t = some v := by
      rw [readField_listed _ t hnd hfield]
      cases hz : isZero v with
      | false => exact h.1
      | true =>
        have hany : (items.any fun f => f.2.isNone) = true :=
          List.any_eq_true.2 ⟨_, hfield, by simp [field, hz]⟩
        rw [if_pos rfl, hany]
        exact t.default?_of_isZero v hz
    have hvs := collect_listed hnd fs vs h.2 fun f hf => hmem f (List.mem_cons_of_mem _ hf)
    rw [ValueType.collect, hv, hvs]

theorem default_isSome_of_open {s : Shape} (hs : s.isRecord = true) (n : Node s)
    (h : ((fieldLiterals s.fields n.values).any fun f => f.2.isNone) = true) : (Node.default? s).isSome = true := by
  cases n with
  | nil | cons | absent | present => cases hs
  | unary op t => cases t; cases h
  | _ => rfl

theorem admits_listed {s : Shape} (hs : s.isRecord = true) (n : Node s) :
    s.Admits ((listed (fieldLiterals s.fields n.values)).map Prod.fst)
      ((fieldLiterals s.fields n.values).any fun f => f.2.isNone) := by
  have hsub := listed_sublist (fieldLiterals s.fields n.values)
  rw [fieldLiterals_fst] at hsub
  exact ⟨(fieldNames_nodup s).sublist hsub, fun _ h => hsub.subset h, default_isSome_of_open hs n⟩

theorem read_record {s : Shape} (hs : s.isRecord = true) (n : Node s)
    (h : AllValues (fun t v => (literal v).read t = some v) s.fields n.values) :
    n.literal.read (.node s) = some n := by
  have hnd : ((fieldLiterals s.fields n.values).map Prod.fst).Nodup := by
    rw [fieldLiterals_fst]
    exact fieldNames_nodup s
  rw [Node.literal_eq hs, ofFields_eq, read, if_pos ⟨rfl, admits_listed hs n⟩,
    collect_listed hnd s.fields n.values h fun _ hf => hf]
  exact Node.ofValues_values hs n

theorem readAll_map {t : ValueType} {α : Type} {f : α → Literal} {g : α → t.Value} : ∀ {as : List α},
    (∀ a ∈ as, (f a).read t = some (g a)) → readAll (as.map f) t = some (as.map g)
  | [], _ => by rw [List.map_nil, readAll, List.map_nil]
  | a :: as, h => by
    rw [List.map_cons, readAll, h a List.mem_cons_self, readAll_map fun b hb => h b (List.mem_cons_of_mem _ hb),
      List.map_cons]

/-- **Reading the literal of a value gives the value.** -/
theorem read_literal : ∀ (t : ValueType) (v : t.Value), (literal v).read t = some v :=
  Hereditary.all {
    bool := fun b => by rfl
    string := fun s => by rfl
    operator := fun op => by cases op <;> rfl
    termKind := fun kind => by cases kind <;> rfl
    boxed := fun t v h => by
      show (Literal.call "Box::new" [literal v]).read (.boxed t) = _
      rw [read, h]
      rfl
    missing := fun t => by rfl
    given := fun t v h => by
      show (Literal.call "Some" [literal v]).read (.option t) = _
      rw [read, h]
      rfl
    vec := fun t vs h => by
      show (Literal.vec (vs.map literal)).read (.vec t) = _
      rw [read, readAll_map h, List.map_id']
    list := fun s ns h => by
      show ns.literal.read (.node (.list s)) = _
      have hread : readAll (ns.toList.map Node.literal) (.node s) = some ns.toList := by
        rw [readAll_map (t := .node s) (f := Node.literal) (g := id) h, List.map_id]
      rw [Node.literal_list, read, hread, Option.map_some, Node.ofList_toList]
    absent := fun s => by rfl
    present := fun s n h => by
      show (Literal.call "Some" [.call "Box::new" [n.literal]]).read (.node (.optional s)) = _
      have hread : n.literal.read (.node s) = some n := h
      rw [read, hread]
      rfl
    record := fun s n hs h => read_record hs n h }

/-! ## The records in a literal -/

mutual

/-- A literal with everything that it is made of. -/
def parts : Literal → List Literal
  | .call func args => .call func args :: partsOfAll args
  | .vec items => .vec items :: partsOfAll items
  | .record name fields rest => .record name fields rest :: partsOfFields fields
  | .map type entries => .map type entries :: partsOfFields entries
  | l => [l]

def partsOfAll : List Literal → List Literal
  | [] => []
  | l :: ls => parts l ++ partsOfAll ls

def partsOfFields : List (String × Literal) → List Literal
  | [] => []
  | (_, l) :: fields => parts l ++ partsOfFields fields

end

theorem mem_partsOfAll {p : Literal} : ∀ {ls : List Literal}, p ∈ partsOfAll ls ↔ ∃ l ∈ ls, p ∈ l.parts
  | [] => by simp [partsOfAll]
  | l :: ls => by simp [partsOfAll, @mem_partsOfAll p ls]

theorem mem_partsOfFields {p : Literal} : ∀ {fields : List (String × Literal)},
    p ∈ partsOfFields fields ↔ ∃ f ∈ fields, p ∈ f.2.parts
  | [] => by simp [partsOfFields]
  | (name, l) :: fields => by simp [partsOfFields, @mem_partsOfFields p fields]

/-- What a record of a type is like: it names fields of the type, each once and in their order, and it is open exactly
when one is missing, which the type must have a default for. -/
structure Faithful (s : Shape) (names : List String) (rest : Bool) : Prop where
  sublist : names.Sublist s.fieldNames
  open_iff : rest = true ↔ ∃ name ∈ s.fieldNames, name ∉ names
  hasDefault : rest = true → (Node.default? s).isSome = true

/-- All records in a literal are faithful to the types that they build. -/
def RecordsFaithful (l : Literal) : Prop :=
  ∀ name fields rest, .record name fields rest ∈ l.parts →
    ∃ s : Shape, name = s.typeName ∧ Faithful s (fields.map Prod.fst) rest

theorem any_isNone_iff {items : List (String × Option Literal)} (hnd : (items.map Prod.fst).Nodup) :
    (items.any fun f => f.2.isNone) = true ↔ ∃ name ∈ items.map Prod.fst, name ∉ (listed items).map Prod.fst := by
  rw [List.any_eq_true]
  constructor
  · rintro ⟨⟨name, o⟩, hmem, ho⟩
    obtain rfl := Option.isNone_iff_eq_none.1 ho
    refine ⟨name, List.mem_map.2 ⟨_, hmem, rfl⟩, fun hname => ?_⟩
    obtain ⟨⟨_, l⟩, hl, rfl⟩ := List.mem_map.1 hname
    have := List.inj_on_of_nodup_map hnd hmem (mem_listed.1 hl) rfl
    cases this
  · rintro ⟨name, hname, hnot⟩
    obtain ⟨⟨_, o⟩, hmem, rfl⟩ := List.mem_map.1 hname
    refine ⟨_, hmem, ?_⟩
    cases o with
    | none => rfl
    | some l => exact absurd (List.mem_map.2 ⟨_, mem_listed.2 hmem, rfl⟩) hnot

theorem faithful_listed {s : Shape} (hs : s.isRecord = true) (n : Node s) :
    Faithful s ((listed (fieldLiterals s.fields n.values)).map Prod.fst)
      ((fieldLiterals s.fields n.values).any fun f => f.2.isNone) where
  sublist := by
    rw [Shape.fieldNames, ← fieldLiterals_fst s.fields n.values]
    exact listed_sublist _
  open_iff := by
    rw [Shape.fieldNames, ← fieldLiterals_fst s.fields n.values]
    exact any_isNone_iff (by rw [fieldLiterals_fst]; exact fieldNames_nodup s)
  hasDefault := default_isSome_of_open hs n

theorem recordsFaithful_call {func : String} {args : List Literal} (h : ∀ l ∈ args, l.RecordsFaithful) :
    (call func args).RecordsFaithful := fun name fields rest hmem => by
  rw [parts, List.mem_cons, mem_partsOfAll] at hmem
  obtain ⟨l, hl, hmem⟩ := hmem.resolve_left nofun
  exact h l hl name fields rest hmem

theorem recordsFaithful_wrap {func : String} {l : Literal} (h : l.RecordsFaithful) : (call func [l]).RecordsFaithful :=
  recordsFaithful_call fun _ hl => List.mem_singleton.1 hl ▸ h

theorem recordsFaithful_vec {items : List Literal} (h : ∀ l ∈ items, l.RecordsFaithful) :
    (vec items).RecordsFaithful := fun name fields rest hmem => by
  rw [parts, List.mem_cons, mem_partsOfAll] at hmem
  obtain ⟨l, hl, hmem⟩ := hmem.resolve_left nofun
  exact h l hl name fields rest hmem

theorem recordsFaithful_map {type : String} {entries : List (String × Literal)}
    (h : ∀ e ∈ entries, e.2.RecordsFaithful) : (map type entries).RecordsFaithful := fun name fields rest hmem => by
  rw [parts, List.mem_cons, mem_partsOfFields] at hmem
  obtain ⟨e, he, hmem⟩ := hmem.resolve_left nofun
  exact h e he name fields rest hmem

theorem recordsFaithful_record {s : Shape} {fields : List (String × Literal)} {rest : Bool}
    (hrecord : Faithful s (fields.map Prod.fst) rest) (h : ∀ f ∈ fields, f.2.RecordsFaithful) :
    (record s.typeName fields rest).RecordsFaithful := fun name' fields' rest' hmem => by
  rw [parts, List.mem_cons, mem_partsOfFields] at hmem
  rcases hmem with heq | ⟨f, hf, hmem⟩
  · obtain ⟨rfl, rfl, rfl⟩ := Literal.record.inj heq
    exact ⟨s, rfl, hrecord⟩
  · exact h f hf name' fields' rest' hmem

theorem forall_listed {Q : Literal → Prop} : ∀ (fs : List (String × ValueType)) (vs : Values fs),
    AllValues (fun _ v => Q (literal v)) fs vs → ∀ f ∈ listed (fieldLiterals fs vs), Q f.2
  | [], (), _, _, hf => by cases hf
  | (name, t) :: fs, (v, vs), h, f, hf => by
    have ih := forall_listed fs vs h.2
    rw [fieldLiterals, field] at hf
    cases hz : isZero v with
    | true =>
      rw [hz, if_pos rfl, listed_none] at hf
      exact ih f hf
    | false =>
      rw [hz, if_neg Bool.false_ne_true, listed_some] at hf
      rcases List.mem_cons.1 hf with rfl | hf
      · exact h.1
      · exact ih f hf

/-- **Every record in the literal of a value is open exactly when it leaves a field out.** -/
theorem recordsFaithful_literal : ∀ (t : ValueType) (v : t.Value), (literal v).RecordsFaithful :=
  Hereditary.all {
    bool := fun b => nofun
    string := fun s => recordsFaithful_wrap nofun
    operator := fun op => nofun
    termKind := fun kind => nofun
    boxed := fun t v h => recordsFaithful_wrap h
    missing := fun t => nofun
    given := fun t v h => recordsFaithful_wrap h
    vec := fun t vs h => recordsFaithful_vec fun l hl => by
      obtain ⟨v, hv, rfl⟩ := List.mem_map.1 hl
      exact h v hv
    list := fun s ns h => by
      show ns.literal.RecordsFaithful
      rw [Node.literal_list]
      refine recordsFaithful_vec fun l hl => ?_
      obtain ⟨n, hn, rfl⟩ := List.mem_map.1 hl
      exact h n hn
    absent := fun s => nofun
    present := fun s n h => recordsFaithful_wrap (recordsFaithful_wrap h)
    record := fun s n hs h => by
      show n.literal.RecordsFaithful
      rw [Node.literal_eq hs, ofFields_eq]
      exact recordsFaithful_record (faithful_listed hs n) (forall_listed s.fields n.values h) }

/-! ## Tables -/

theorem readTable_literal (t : ValueType) (table : Table t.Value) :
    (literal table).readTable t = some table.sort := by
  have hfst : (table.sorted.map fun e => (e.1, literal e.2)).map Prod.fst = table.sorted.map Prod.fst := by
    rw [List.map_map]
    rfl
  have hsnd : (table.sorted.map fun e => (e.1, literal e.2)).map Prod.snd = table.sorted.map fun e => literal e.2 := by
    rw [List.map_map]
    rfl
  have hread : readAll (table.sorted.map fun e => literal e.2) t = some (table.sorted.map Prod.snd) :=
    readAll_map fun e _ => read_literal t e.2
  show (Literal.map (tableTypeName (typeName t.Value)) _).readTable t = _
  rw [readTable, if_pos rfl, hfst, hsnd, hread, Option.map_some, ← List.zip_of_prod rfl rfl, Table.ofList_sorted]

theorem recordsFaithful_table (t : ValueType) (table : Table t.Value) : (literal table).RecordsFaithful :=
  recordsFaithful_map fun e he => by
    obtain ⟨e', _, rfl⟩ := List.mem_map.1 he
    exact recordsFaithful_literal t e'.2

/-- **Literals lose nothing.** The literal of a value reads as the value, and that of a table as the table with its
entries in order, which has the same values under the same keys; and a record in such a literal names fields of its
type, and is open exactly when one is missing, which never happens to a type without a default. -/
theorem literal_faithful :
    (∀ (t : ValueType) (v : t.Value), (literal v).read t = some v ∧ (literal v).RecordsFaithful) ∧
    ∀ table : Table (List Definition), (literal table).readTable (.vec (.node .definition)) = some table.sort ∧
      (∀ key, table.sort.get? key = table.get? key) ∧ (literal table).RecordsFaithful :=
  ⟨fun t v => ⟨read_literal t v, recordsFaithful_literal t v⟩, fun table =>
    ⟨readTable_literal (.vec (.node .definition)) table, table.get?_sort,
      recordsFaithful_table (.vec (.node .definition)) table⟩⟩

end Literal
end DefTable
