import DefTable.Proofs.FileReading

/-!
# Definitions by their names

What the table of definitions has under a name are the definitions of that name in the order of the source (`get?_group`).
So the generated file has one line for each name, and on it one record for each of its definitions
(`definitions_conserved`).
-/

namespace DefTable
namespace Definition

/-! ## The definitions of a name -/

/-- The definitions of a name, in the order of the source. -/
def named (n : String) (ds : List Definition) : List Definition :=
  ds.filter fun d => d.name = n

theorem named_cons_self (d : Definition) (ds : List Definition) : named d.name (d :: ds) = d :: named d.name ds :=
  List.filter_cons_of_pos (decide_eq_true rfl)

theorem named_cons_of_ne {d : Definition} {n : String} (h : d.name ≠ n) (ds : List Definition) :
    named n (d :: ds) = named n ds :=
  List.filter_cons_of_neg (by simpa using h)

theorem named_eq_nil_iff {n : String} {ds : List Definition} : named n ds = [] ↔ n ∉ ds.map name := by
  rw [named, List.filter_eq_nil_iff, List.mem_map]
  constructor
  · rintro h ⟨d, hd, hn⟩
    exact h d hd (decide_eq_true hn)
  · intro h d hd hn
    exact h ⟨d, hd, of_decide_eq_true hn⟩

/-! ## The table of definitions -/

/-- A further definition comes behind those of its name, and no other name has another definition. -/
theorem get?_addTo (t : Table (List Definition)) (d : Definition) (n : String) :
    (addTo t d).get? n = if n = d.name then some ((t.get? d.name).getD [] ++ [d]) else t.get? n :=
  t.get?_alter d.name n _

theorem get?_foldl_addTo (n : String) : ∀ (ds : List Definition) (t : Table (List Definition)),
    (ds.foldl addTo t).get? n = if n ∈ ds.map name then some ((t.get? n).getD [] ++ named n ds) else t.get? n
  | [], _ => rfl
  | d :: ds, t => by
    rw [List.foldl_cons, get?_foldl_addTo n ds (addTo t d), get?_addTo]
    by_cases hd : n = d.name
    · subst hd
      have hmem : d.name ∈ (d :: ds).map name := List.mem_cons_self
      rw [if_pos rfl, if_pos hmem, named_cons_self, Option.getD_some, List.append_assoc, List.singleton_append]
      by_cases hds : d.name ∈ ds.map name
      · rw [if_pos hds]
      · rw [if_neg hds, named_eq_nil_iff.2 hds]
    · have hmem : n ∈ (d :: ds).map name ↔ n ∈ ds.map name := by
        rw [List.map_cons, List.mem_cons, or_iff_right hd]
      rw [if_neg hd, named_cons_of_ne (Ne.symm hd)]
      exact if_congr hmem.symm rfl rfl

/-- **The table of definitions has under each name the definitions of that name**, in the order of the source, and
nothing else. -/
theorem get?_group (ds : List Definition) (n : String) :
    (group ds).get? n = if n ∈ ds.map name then some (named n ds) else none :=
  get?_foldl_addTo n ds Table.empty

theorem mem_keys_group {ds : List Definition} {n : String} :
    n ∈ (group ds).entries.map Prod.fst ↔ n ∈ ds.map name := by
  rw [Table.mem_keys_iff, get?_group]
  by_cases hn : n ∈ ds.map name
  · simp [hn]
  · simp [hn]

theorem eq_named_of_mem_group {ds : List Definition} {e : String × List Definition} (he : e ∈ (group ds).entries) :
    e.2 = named e.1 ds := by
  have hmem : e.1 ∈ ds.map name := mem_keys_group.1 (List.mem_map_of_mem he)
  have hget : (group ds).get? e.1 = some e.2 := (Table.get?_eq_some_iff _).2 he
  rw [get?_group, if_pos hmem] at hget
  exact (Option.some.inj hget).symm

/-! ## The generated file -/

/-- A definition and its record in the generated file. -/
def PrintedRecord (d : Definition) (l : Literal) : Prop :=
  l = (literal d).printedPaths ∧ ∃ fields rest, l = .record "FuncDef" fields rest

theorem printedRecord (d : Definition) : PrintedRecord d (literal d).printedPaths := by
  have hpath : Settings.default.style.stripped (Shape.typeName .definition) = "FuncDef" := by decide +kernel
  cases d with
  | definition n params body =>
    have hliteral : literal (Node.definition n params body) = Literal.ofFields (Shape.typeName .definition)
        [Literal.field "name" n, Literal.field "args" params, Literal.boxedField "body" body.literal] := rfl
    have hrecord := congrArg Literal.printedPaths hliteral
    rw [Literal.ofFields, Literal.printedPaths_record, hpath] at hrecord
    exact ⟨rfl, _, _, hrecord⟩

/-- The entries of the table of definitions as they are read back from the generated file. -/
def printedEntries (ds : List Definition) : List (String × Literal) :=
  (entries ds).map fun e => (e.1, e.2.printedPaths)

theorem printedEntries_eq (ds : List Definition) :
    printedEntries ds = (group ds).sorted.map fun e => (e.1, (literal e.2).printedPaths) := by
  rw [printedEntries, entries, List.map_map]
  rfl

theorem keys_printedEntries (ds : List Definition) :
    (printedEntries ds).map Prod.fst = (group ds).sorted.map Prod.fst := by
  rw [printedEntries_eq, List.map_map]
  rfl

theorem records_of_mem_printedEntries {ds : List Definition} {e : String × Literal} (he : e ∈ printedEntries ds) :
    ∃ records, e.2 = .vec records ∧ List.Forall₂ PrintedRecord (named e.1 ds) records := by
  rw [printedEntries_eq] at he
  obtain ⟨g, hg, rfl⟩ := List.mem_map.1 he
  have hmem : g ∈ (group ds).entries := (Table.sorted_perm _).mem_iff.1 hg
  have hliteral : literal g.2 = .vec (g.2.map literal) := rfl
  refine ⟨g.2.map fun d => (literal d).printedPaths, ?_, ?_⟩
  · rw [hliteral, Literal.printedPaths_vec, List.map_map]
    rfl
  · rw [← eq_named_of_mem_group hmem, List.forall₂_map_right_iff, List.forall₂_same]
    exact fun d _ => printedRecord d

/-- **Grouping and printing keep every definition.** The table has under each name the definitions of that name in the
order of the source, and no other names. The generated file has one entry for each name, with names that increase, and
the value of an entry is a list with a record for each definition of its name, in the order of the source; there is one
if the rules of the language allow what is printed for tables. -/
theorem definitions_conserved {rules : Rules} (hrules : rules.AllowTables) (ds : List Definition) :
    (∀ n, (group ds).get? n = if n ∈ ds.map name then some (named n ds) else none) ∧
      ∃ text lines printed, Settings.default.fileOf rules ds = .ok text ∧ entryLines? text = some lines ∧
        lines.mapM readEntry = some printed ∧ (printed.map Prod.fst).Pairwise (· < ·) ∧
        (∀ n, n ∈ printed.map Prod.fst ↔ n ∈ ds.map name) ∧
        ∀ e ∈ printed, ∃ records, e.2 = .vec records ∧ List.Forall₂ PrintedRecord (named e.1 ds) records := by
  refine ⟨get?_group ds, ?_⟩
  obtain ⟨texts, hrender, hforms⟩ := Literal.renderBy_group hrules ds
  have htable : Settings.default.renderTable rules ds = .ok ⟨printedType, texts⟩ := hrender
  have hfile : Settings.default.fileOf rules ds = .ok (SourceFile.text Settings.default ⟨printedType, texts⟩) := by
    rw [Settings.fileOf, htable]
    rfl
  refine ⟨_, _, printedEntries ds, hfile, entryLines?_text hforms, mapM_readEntry hforms, ?_, fun n => ?_,
    fun e => records_of_mem_printedEntries⟩
  · rw [keys_printedEntries, List.pairwise_map]
    exact (group ds).sorted_pairwise
  · have hkeys : ((group ds).sorted.map Prod.fst).Perm ((group ds).entries.map Prod.fst) :=
      (Table.sorted_perm _).map Prod.fst
    rw [keys_printedEntries, hkeys.mem_iff, mem_keys_group]

/-- Two definitions of one name, with another definition between them. -/
theorem definitions_conserved_overloads :
    let f₁ : Definition := .definition "f" [] Query.empty
    let g : Definition := .definition "e" [] Query.empty
    let f₂ : Definition := .definition "f" ["x"] Query.empty
    Target.rules.AllowTables ∧ (group [f₁, g, f₂]).get? "f" = some [f₁, f₂] ∧
      ∃ text lines printed, Settings.default.fileOf Target.rules [f₁, g, f₂] = .ok text ∧
        entryLines? text = some lines ∧ lines.mapM readEntry = some printed ∧ "f" ∈ printed.map Prod.fst ∧
        ∀ e ∈ printed, e.1 = "f" → ∃ records, e.2 = .vec records ∧ List.Forall₂ PrintedRecord [f₁, f₂] records := by
  intro f₁ g f₂
  obtain ⟨hget, text, lines, printed, hfile, hlines, hread, -, hnames, hrecords⟩ :=
    definitions_conserved Target.rules_allowTables [f₁, g, f₂]
  have hnamed : named "f" [f₁, g, f₂] = [f₁, f₂] := rfl
  refine ⟨Target.rules_allowTables, hget "f", text, lines, printed, hfile, hlines, hread, (hnames "f").2 (by decide), ?_⟩
  rintro ⟨_, l⟩ he rfl
  exact hnamed ▸ hrecords _ he

end Definition
end DefTable
