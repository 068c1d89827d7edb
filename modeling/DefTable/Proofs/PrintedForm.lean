import DefTable.Proofs.PrintedNames

/-!
# The printed form of values

What is written for the literal of a value under the settings of a run that was told nothing (`PrintedForm`): paths
without their qualifier, codes by the names of what they stand for. Every value has a printed form, and it is what the
literal is rendered as (`printable`), except that a code on its own has no rendering: it gets its name from the field
that it stands in. All that is asked of the rules of the language is that they allow what is printed for tables
(`Rules.AllowTables`).
-/

namespace DefTable

open ValueType (Values AllValues Hereditary)

namespace ValueType

/-- The names for the codes of a type that a field holds. -/
def codes? : ValueType → Option NamedCodes
  | operator => some .operators
  | option operator => some .operators
  | termKind => some .termKinds
  | _ => none

/-- Whether the values of a type are written without codes of their own; those in the fields of nodes do not count. -/
def codeFree : ValueType → Bool
  | operator => false
  | termKind => false
  | boxed t => t.codeFree
  | option t => t.codeFree
  | vec t => t.codeFree
  | _ => true

end ValueType

theorem Literal.toList_commas (x y : String) (ys : List String) :
    (commas (x :: y :: ys)).toList = x.toList ++ ',' :: ' ' :: (commas (y :: ys)).toList := by
  rw [commas, String.toList_append, String.toList_append, List.append_assoc]
  · rfl
  · nofun

def Shape.fieldType (s : Shape) (name : String) : ValueType :=
  (s.fields.lookup name).getD .bool

/-- A call of a function with one argument as it is printed. -/
def callText (func x : String) : String :=
  func ++ "(" ++ x ++ ")"

open Literal in
/-- What is printed for a literal that builds a value of a type. -/
inductive PrintedForm : ValueType → Literal → String → Prop
  | bool (b : Bool) : PrintedForm .bool (.bool b) (if b then "true" else "false")
  | string (s : String) : PrintedForm .string (owned s) (callText "String::from" (Text.quoted s))
  | operator (op : Operator) : PrintedForm .operator (.int op.code) ("Operator" ++ "::" ++ op.name)
  | termKind (kind : TermKind) : PrintedForm .termKind (.int kind.code) ("TermKind" ++ "::" ++ kind.name)
  | boxed {t : ValueType} {l : Literal} {x : String} (h : PrintedForm t l x) :
      PrintedForm (.boxed t) l.boxed (callText "Box::new" x)
  | missing (t : ValueType) : PrintedForm (.option t) missing "None"
  | given {t : ValueType} {l : Literal} {x : String} (h : PrintedForm t l x) :
      PrintedForm (.option t) l.given (callText "Some" x)
  | vec {t : ValueType} (items : List (Literal × String)) (h : ∀ i ∈ items, PrintedForm t i.1 i.2) :
      PrintedForm (.vec t) (.vec (items.map Prod.fst)) ("vec![" ++ commas (items.map Prod.snd) ++ "]")
  | list {s : Shape} {l : Literal} {x : String} (h : PrintedForm (.vec (.node s)) l x) :
      PrintedForm (.node (.list s)) l x
  | optional {s : Shape} {l : Literal} {x : String} (h : PrintedForm (.option (.boxed (.node s))) l x) :
      PrintedForm (.node (.optional s)) l x
  | record {s : Shape} (hs : s.isRecord = true) (items : List (String × Literal × String)) (rest : Bool)
      (hnames : ∀ i ∈ items, i.1 ∈ s.fieldNames) (h : ∀ i ∈ items, PrintedForm (s.fieldType i.1) i.2.1 i.2.2) :
      PrintedForm (.node s) (.record s.typeName (items.map fun i => (i.1, i.2.1)) rest)
        (recordText s.printedName (items.map fun i => i.1 ++ ": " ++ i.2.2) rest)

/-! ## Rules that allow tables -/

/-- The paths that stand around values other than nodes. -/
def wrappers : List String :=
  ["String::from", "Box::new", "Some", "None"]

/-- The type of a table of definitions as it is printed. -/
def Definition.printedType : String :=
  "BTreeMap<&\x27static str, Vec<FuncDef>>"

/-- Rules that allow what is printed for tables of definitions: the names of fields, the paths of nodes and of what
stands around other values, the type of the table, and the printed lists of definitions. -/
structure Rules.AllowTables (rules : Rules) : Prop where
  field : ∀ s : Shape, ∀ name ∈ s.fieldNames, rules.isIdentifier name = true
  record : ∀ s : Shape, s.isRecord = true → rules.isPath s.typeName = true
  wrapper : ∀ path ∈ wrappers, rules.isPath path = true
  type : rules.typeFault? Definition.printedType = none
  list : ∀ l x, PrintedForm (.vec (.node .definition)) l x → rules.expressionFault? x = none

namespace Literal

variable {rules : Rules}

/-! ## Names -/

theorem codes_find?_field (s : Shape) : ∀ f ∈ s.fields,
    (Settings.default.style.codes.find? fun codes => codes.appliesTo s.typeName f.1) = f.2.codes? ∧
      (f.2.codes? = none → f.2.codeFree = true) := by
  cases s with
  | list | optional => exact fun f hf => absurd hf List.not_mem_nil
  | _ => decide +kernel

theorem pathText_record (hrules : rules.AllowTables) {s : Shape} (hs : s.isRecord = true) :
    pathText rules Settings.default.style s.typeName = .ok s.printedName :=
  if_pos (hrules.record s hs)

theorem stripped_wrapper : ∀ path ∈ wrappers, Settings.default.style.stripped path = path := by
  decide

theorem pathText_wrapper (hrules : rules.AllowTables) {path : String} (h : path ∈ wrappers) :
    pathText rules Settings.default.style path = .ok path := by
  rw [pathText, if_pos (hrules.wrapper path h), stripped_wrapper path h]

theorem path?_of_lookup {codes : NamedCodes} {type name : String} {code : Int} (htype : codes.type = nodePath type)
    (h : codes.names.lookup code = some name) : codes.path? code = some (nodePath (type ++ "::" ++ name)) := by
  rw [NamedCodes.path?, h, htype]
  simp [nodePath, String.append_assoc]

theorem path?_operator (op : Operator) :
    (NamedCodes.operators.path? op.code).map Settings.default.style.stripped =
      some ("Operator" ++ "::" ++ op.name) := by
  rw [path?_of_lookup rfl (by cases op <;> rfl), Option.map_some, stripped_nodePath]

theorem path?_termKind (kind : TermKind) :
    (NamedCodes.termKinds.path? kind.code).map Settings.default.style.stripped =
      some ("TermKind" ++ "::" ++ kind.name) := by
  rw [path?_of_lookup rfl (by cases kind <;> rfl), Option.map_some, stripped_nodePath]

/-! ## Fields -/

theorem fieldType_of_mem {s : Shape} {name : String} {t : ValueType} (h : (name, t) ∈ s.fields) :
    s.fieldType name = t := by
  rw [Shape.fieldType, (Table.lookup_eq_some_iff (fieldNames_nodup s)).2 h]
  rfl

def fieldText (rules : Rules) (s : Shape) (key name : String) (l : Literal) : Except RenderError String :=
  match Settings.default.style.symbol? s.typeName name l with
  | some symbol => .ok symbol
  | none => text rules Settings.default.style key l

theorem fieldText_of_symbol {s : Shape} {key name symbol : String} {l : Literal}
    (h : Settings.default.style.symbol? s.typeName name l = some symbol) : fieldText rules s key name l = .ok symbol := by
  rw [fieldText, h]

/-- Whether a value has a printed form, which it is rendered as unless it is a code of its own. -/
def Printable (rules : Rules) (t : ValueType) (v : t.Value) : Prop :=
  ∃ x, PrintedForm t (literal v) x ∧
    (t.codeFree = true → ∀ key, (literal v).text rules Settings.default.style key = .ok x)

theorem fieldText_literal {s : Shape} {name : String} {t : ValueType} (ht : (name, t) ∈ s.fields) (v : t.Value)
    (hzero : isZero v = false) (hv : Printable rules t v) :
    ∃ x, PrintedForm t (literal v) x ∧ ∀ key, fieldText rules s key name (literal v) = .ok x := by
  obtain ⟨hcodes, hfree⟩ := codes_find?_field s _ ht
  cases h : t.codes? with
  | none =>
    obtain ⟨x, hform, htext⟩ := hv
    refine ⟨x, hform, fun key => ?_⟩
    have hsymbol : Settings.default.style.symbol? s.typeName name (literal v) = none := by
      rw [Style.symbol?, hcodes]
      simp only [h]
    rw [fieldText, hsymbol]
    exact htext (hfree h) key
  | some codes =>
    cases t with
    | operator =>
      cases h
      refine ⟨_, .operator v, fun key => ?_⟩
      have hsymbol : Settings.default.style.symbol? s.typeName name (.int v.code) =
          some ("Operator" ++ "::" ++ v.name) := by
        rw [Style.symbol?, hcodes]
        exact path?_operator v
      exact fieldText_of_symbol hsymbol
    | termKind =>
      cases h
      refine ⟨_, .termKind v, fun key => ?_⟩
      have hsymbol : Settings.default.style.symbol? s.typeName name (.int v.code) =
          some ("TermKind" ++ "::" ++ v.name) := by
        rw [Style.symbol?, hcodes]
        exact path?_termKind v
      exact fieldText_of_symbol hsymbol
    | option t =>
      cases t with
      | operator =>
        cases h
        cases v with
        | none => cases hzero
        | some op =>
          refine ⟨_, .given (.operator op), fun key => ?_⟩
          have hsymbol : Settings.default.style.symbol? s.typeName name (given (.int op.code)) =
              some (callText "Some" ("Operator" ++ "::" ++ op.name)) := by
            obtain ⟨path, hpath, hop⟩ := Option.map_eq_some_iff.1 (path?_operator op)
            rw [Style.symbol?, hcodes, ← hop]
            exact congrArg (Option.map _) hpath
          exact fieldText_of_symbol hsymbol
      | _ => cases h
    | _ => cases h

theorem fieldTexts_cons {s : Shape} {key name x : String} {l : Literal} {fields : List (String × Literal)}
    {xs : List String} (hname : rules.isIdentifier name = true) (hx : fieldText rules s key name l = .ok x)
    (hxs : fieldTexts rules Settings.default.style key s.typeName fields = .ok xs) :
    fieldTexts rules Settings.default.style key s.typeName ((name, l) :: fields) =
      .ok ((name ++ ": " ++ x) :: xs) := by
  rw [fieldTexts, if_pos hname]
  unfold fieldText at hx
  cases h : Settings.default.style.symbol? s.typeName name l with
  | some symbol =>
    rw [h] at hx
    cases hx
    show (fieldTexts _ _ _ _ _ >>= _) = _
    rw [hxs]
    rfl
  | none =>
    rw [h] at hx
    change text _ _ _ _ = _ at hx
    show (text _ _ _ _ >>= _) = _
    rw [hx]
    show (fieldTexts _ _ _ _ _ >>= _) = _
    rw [hxs]
    rfl

theorem fieldTexts_listed (hrules : rules.AllowTables) {s : Shape} :
    ∀ (fs : List (String × ValueType)) (vs : Values fs), fs ⊆ s.fields → AllValues (Printable rules) fs vs →
      ∃ items : List (String × Literal × String),
      items.map (fun i => (i.1, i.2.1)) = listed (fieldLiterals fs vs) ∧ (∀ i ∈ items, i.1 ∈ s.fieldNames) ∧
      (∀ i ∈ items, PrintedForm (s.fieldType i.1) i.2.1 i.2.2) ∧
      ∀ key, fieldTexts rules Settings.default.style key s.typeName (listed (fieldLiterals fs vs)) =
        .ok (items.map fun i => i.1 ++ ": " ++ i.2.2)
  | [], (), _, _ => ⟨[], rfl, nofun, nofun, fun _ => rfl⟩
  | (name, t) :: fs, (v, vs), hsub, ⟨hv, hvs⟩ => by
    obtain ⟨ht, hsub⟩ := List.cons_subset.1 hsub
    obtain ⟨items, hitems, hnames, hforms, htexts⟩ := fieldTexts_listed hrules fs vs hsub hvs
    cases hzero : isZero v with
    | true =>
      have hfield : field name v = (name, none) := by rw [field, hzero]; rfl
      rw [fieldLiterals, hfield, listed_none]
      exact ⟨items, hitems, hnames, hforms, htexts⟩
    | false =>
      have hfield : field name v = (name, some (literal v)) := by rw [field, hzero]; rfl
      have hname : name ∈ s.fieldNames := List.mem_map_of_mem ht
      obtain ⟨x, hform, htext⟩ := fieldText_literal ht v hzero hv
      rw [fieldLiterals, hfield, listed_some]
      refine ⟨(name, literal v, x) :: items, ?_, ?_, ?_, fun key => ?_⟩
      · rw [List.map_cons, hitems]
      · exact List.forall_mem_cons.2 ⟨hname, hnames⟩
      · exact List.forall_mem_cons.2 ⟨(fieldType_of_mem ht).symm ▸ hform, hforms⟩
      · exact fieldTexts_cons (hrules.field s name hname) (htext key) (htexts key)

/-! ## Values -/

theorem text_wrap {func path x key : String} {l : Literal} (hfunc : pathText rules Settings.default.style func =
    .ok path) (hx : l.text rules Settings.default.style key = .ok x) :
    (call func [l]).text rules Settings.default.style key = .ok (callText path x) := by
  rw [text, texts, texts, hfunc, hx]
  rfl

theorem texts_map {α : Type} {t : ValueType} {f : α → Literal} : ∀ {as : List α},
    (∀ a ∈ as, ∃ x, PrintedForm t (f a) x ∧
      (t.codeFree = true → ∀ key, (f a).text rules Settings.default.style key = .ok x)) →
    ∃ items : List (Literal × String), items.map Prod.fst = as.map f ∧ (∀ i ∈ items, PrintedForm t i.1 i.2) ∧
      (t.codeFree = true → ∀ key,
        texts rules Settings.default.style key (as.map f) = .ok (items.map Prod.snd))
  | [], _ => ⟨[], rfl, nofun, fun _ _ => rfl⟩
  | a :: as, h => by
    obtain ⟨⟨x, hx, htext⟩, has⟩ := List.forall_mem_cons.1 h
    obtain ⟨items, hitems, hforms, htexts⟩ := texts_map has
    refine ⟨(f a, x) :: items, congrArg (_ :: ·) hitems, List.forall_mem_cons.2 ⟨hx, hforms⟩, fun hfree key => ?_⟩
    rw [List.map_cons, texts, htext hfree key, htexts hfree key]
    rfl

/-- **Every value has a printed form, and is rendered as it.** -/
theorem printable (hrules : rules.AllowTables) : ∀ (t : ValueType) (v : t.Value), Printable rules t v :=
  Hereditary.all {
    bool := fun b => ⟨_, .bool b, fun _ _ => rfl⟩
    string := fun s => ⟨_, .string s, fun _ _ => text_wrap (pathText_wrapper hrules (by decide)) rfl⟩
    operator := fun op => ⟨_, .operator op, nofun⟩
    termKind := fun kind => ⟨_, .termKind kind, nofun⟩
    boxed := fun t v ⟨x, hx, htext⟩ => ⟨_, .boxed hx, fun hfree key =>
      text_wrap (pathText_wrapper hrules (by decide)) (htext hfree key)⟩
    missing := fun t => ⟨_, .missing t, fun _ _ => pathText_wrapper hrules (by decide)⟩
    given := fun t v ⟨x, hx, htext⟩ => ⟨_, .given hx, fun hfree key =>
      text_wrap (pathText_wrapper hrules (by decide)) (htext hfree key)⟩
    vec := fun t vs h => by
      obtain ⟨items, hitems, hforms, htexts⟩ := texts_map h
      refine ⟨_, hitems ▸ PrintedForm.vec items hforms, fun hfree key => ?_⟩
      show text _ _ _ (.vec (vs.map literal)) = _
      rw [text, htexts hfree key]
      rfl
    list := fun s ns h => by
      obtain ⟨items, hitems, hforms, htexts⟩ := texts_map h
      have hlit : literal (ns : ValueType.Value (.node (.list s))) = .vec (ns.toList.map literal) :=
        Node.literal_list ns
      rw [Printable, hlit]
      refine ⟨_, hitems ▸ PrintedForm.list (.vec items hforms), fun _ key => ?_⟩
      rw [text, htexts rfl key]
      rfl
    absent := fun s => ⟨_, .optional (.missing _), fun _ _ => pathText_wrapper hrules (by decide)⟩
    present := fun s n ⟨x, hx, htext⟩ =>
      ⟨_, .optional (.given (.boxed hx)), fun _ key =>
        text_wrap (pathText_wrapper hrules (by decide))
          (text_wrap (pathText_wrapper hrules (by decide)) (htext rfl key))⟩
    record := fun s n hs h => by
      obtain ⟨items, hitems, hnames, hforms, htexts⟩ := fieldTexts_listed hrules s.fields n.values (List.Subset.refl _) h
      have hlit : literal n = _ := (Node.literal_eq hs n).trans (ofFields_eq _ _)
      rw [Printable, hlit, ← hitems]
      refine ⟨_, .record hs items _ hnames hforms, fun _ key => ?_⟩
      rw [text, pathText_record hrules hs, hitems, htexts key]
      rfl
  }

end Literal

/-! ## Pieces -/

/-- The texts that stand between the names and the strings of printed values. -/
def symbols : List String :=
  wrappers ++ ["true", "false", "Operator", "TermKind", "::", "(", ")", "vec![", "]", " \x7b ", ": ", ", ", " \x7d",
    " \x7b\x7d", "..Default::default()", ""]

section Pieces

variable {P : String → Prop}

theorem commas_of_pieces (symbol : ∀ x ∈ symbols, P x) (append : ∀ x y, P x → P y → P (x ++ y)) :
    ∀ {xs : List String}, (∀ x ∈ xs, P x) → P (Literal.commas xs)
  | [], _ => symbol "" (by decide)
  | [x], h => h x List.mem_cons_self
  | x :: y :: ys, h => by
    obtain ⟨hx, hys⟩ := List.forall_mem_cons.1 h
    have hcommas : P (Literal.commas (y :: ys)) := commas_of_pieces symbol append hys
    exact append _ _ (append _ _ hx (symbol ", " (by decide))) hcommas

theorem recordText_of_pieces (symbol : ∀ x ∈ symbols, P x) (append : ∀ x y, P x → P y → P (x ++ y)) {name : String}
    (hname : P name) {fields : List String} (h : ∀ x ∈ fields, P x) (rest : Bool) :
    P (Literal.recordText name fields rest) := by
  have hparts : ∀ x ∈ fields ++ (if rest then ["..Default::default()"] else []), P x := by
    refine List.forall_mem_append.2 ⟨h, ?_⟩
    cases rest with
    | false => nofun
    | true => exact List.forall_mem_singleton.2 (symbol _ (by decide))
  unfold Literal.recordText
  split
  · exact append _ _ hname (symbol _ (by decide))
  · exact append _ _ (append _ _ (append _ _ hname (symbol _ (by decide))) (commas_of_pieces symbol append hparts))
      (symbol _ (by decide))

/-- **What holds of the pieces of printed values holds of what is printed for a value**, if it holds of texts that are
put together from others of which it holds. -/
theorem PrintedForm.of_pieces (symbol : ∀ x ∈ symbols, P x) (name : ∀ w, PrintedName w → P w)
    (quoted : ∀ s, P (Text.quoted s)) (append : ∀ x y, P x → P y → P (x ++ y)) {t : ValueType} {l : Literal} {x : String}
    (h : PrintedForm t l x) : P x := by
  have member : ∀ type name, P type → P name → P (type ++ "::" ++ name) := fun type name ht hn =>
    append _ _ (append _ _ ht (symbol "::" (by decide))) hn
  have call : ∀ func x, func ∈ symbols → P x → P (callText func x) := fun func x hf hx =>
    append _ _ (append _ _ (append _ _ (symbol func hf) (symbol "(" (by decide))) hx) (symbol ")" (by decide))
  induction h with
  | bool b => cases b <;> exact symbol _ (by decide)
  | string s => exact call _ _ (by decide) (quoted s)
  | operator op => exact member _ _ (symbol _ (by decide)) (name _ (printedName_operator op))
  | termKind kind => exact member _ _ (symbol _ (by decide)) (name _ (printedName_termKind kind))
  | boxed _ ih => exact call _ _ (by decide) ih
  | missing t => exact symbol _ (by decide)
  | given _ ih => exact call _ _ (by decide) ih
  | vec items _ ih =>
    have hitems := commas_of_pieces symbol append (List.forall_mem_map.2 ih)
    exact append _ _ (append _ _ (symbol _ (by decide)) hitems) (symbol _ (by decide))
  | list _ ih => exact ih
  | optional _ ih => exact ih
  | @record s hs items rest hnames _ ih =>
    refine recordText_of_pieces symbol append (name _ (printedName_record hs)) (List.forall_mem_map.2 fun i hi => ?_) rest
    have hname : P i.1 := name _ (printedName_field s i.1 (hnames i hi))
    exact append _ _ (append _ _ hname (symbol _ (by decide))) (ih i hi)

end Pieces

end DefTable
