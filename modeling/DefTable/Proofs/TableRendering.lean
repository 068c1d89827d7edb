import DefTable.Proofs.OperatorParsing
import DefTable.Proofs.PrintedLexemes
import DefTable.Proofs.QuotedText

/-!
# Tables that are rendered

Under the settings of a run that was told nothing, every table of definitions is rendered (`renderBy_group`): each entry
as what is printed for its definitions, with names in place of codes. So a source has no generated file only when it
does not parse (`Settings.generate_error_iff`). The rules of the language may be any that allow what is printed.
-/

namespace DefTable

open Text (outsideQuotes outsideQuotes_quoted)

/-- An entry of a table of definitions, and what is printed for it. -/
def PrintedEntry (e : String × Literal) (p : String × String) : Prop :=
  p.1 = e.1 ∧ PrintedForm (.vec (.node .definition)) e.2 p.2

/-- The entries of the literal of a table of definitions. -/
def Definition.entries (ds : List Definition) : List (String × Literal) :=
  (Definition.group ds).sorted.map fun e => (e.1, literal e.2)

namespace Literal

theorem mapM_entryText {rules : Rules} {style : Style} {R : String × Literal → String × String → Prop} :
    ∀ {entries : List (String × Literal)}, (∀ e ∈ entries, ∃ p, entryText rules style e = .ok p ∧ R e p) →
      ∃ printed, entries.mapM (entryText rules style) = .ok printed ∧ List.Forall₂ R entries printed
  | [], _ => ⟨[], rfl, .nil⟩
  | e :: entries, h => by
    obtain ⟨⟨p, hp, hR⟩, hentries⟩ := List.forall_mem_cons.1 h
    obtain ⟨printed, hprinted, hforall⟩ := mapM_entryText hentries
    refine ⟨p :: printed, ?_, .cons hR hforall⟩
    rw [List.mapM_cons, hp, hprinted]
    rfl

theorem entryText_definitions {rules : Rules} (hrules : rules.AllowTables) (key : String) (ds : List Definition) :
    ∃ p, entryText rules Settings.default.style (key, literal ds) = .ok p ∧ PrintedEntry (key, literal ds) p := by
  obtain ⟨x, hform, htext⟩ := printable hrules (.vec (.node .definition)) ds
  have ht : text rules Settings.default.style (key, literal ds).1 (key, literal ds).2 = .ok x := htext rfl key
  exact ⟨(key, x), entryText_eq_ok ht (hrules.list _ x hform), rfl, hform⟩

/-- **Every table of definitions is rendered.** -/
theorem renderBy_group {rules : Rules} (hrules : rules.AllowTables) (ds : List Definition) : ∃ entries,
    (literal (Definition.group ds)).renderBy rules Settings.default.style = .ok ⟨Definition.printedType, entries⟩ ∧
      List.Forall₂ PrintedEntry (Definition.entries ds) entries := by
  have htype : Settings.default.style.strippedType (tableTypeName (typeName (List Definition))) =
      Definition.printedType := by decide +kernel
  have h : ∀ e ∈ Definition.entries ds,
      ∃ p, entryText rules Settings.default.style e = .ok p ∧ PrintedEntry e p := by
    intro e he
    obtain ⟨e, _, rfl⟩ := List.mem_map.1 he
    exact entryText_definitions hrules e.1 e.2
  obtain ⟨entries, hentries, hforms⟩ := mapM_entryText h
  refine ⟨entries, ?_, hforms⟩
  show renderBy rules Settings.default.style (.map (tableTypeName (typeName (List Definition)))
    (Definition.entries ds)) = _
  rw [renderBy, htype, hrules.type]
  dsimp only
  rw [hentries]
  rfl

end Literal

/-! ## What stands outside of strings -/

/-- Whether a text has neither a digit nor the default qualifier outside of its strings. -/
def NamesOnly (x : String) : Prop :=
  (∀ c ∈ outsideQuotes false x.toList, c.isDigit = false) ∧
    ¬Settings.default.qualifier.toList <:+: outsideQuotes false x.toList

/-- A text with clear characters outside of its strings, whatever may follow it. -/
def ClearText (x : String) : Prop :=
  ∃ out, Clear out ∧ ∀ rest, outsideQuotes false (x.toList ++ rest) = out ++ outsideQuotes false rest

namespace ClearText

variable {x y : String}

theorem append (hx : ClearText x) (hy : ClearText y) : ClearText (x ++ y) := by
  obtain ⟨outx, hclearx, hx⟩ := hx
  obtain ⟨outy, hcleary, hy⟩ := hy
  refine ⟨outx ++ outy, hclearx.append hcleary, fun rest => ?_⟩
  rw [String.toList_append, List.append_assoc, hx, hy, List.append_assoc]

theorem outsideQuotes_append : ∀ {cs : List Char}, '"' ∉ cs → ∀ rest,
    outsideQuotes false (cs ++ rest) = cs ++ outsideQuotes false rest
  | [], _, _ => rfl
  | c :: cs, h, rest => by
    rw [List.mem_cons, not_or] at h
    have hquote : decide (c = '"') = false := decide_eq_false (Ne.symm h.1)
    rw [List.cons_append, outsideQuotes, hquote, outsideQuotes_append h.2]
    rfl

theorem of_clear (hclear : Clear x.toList) (hquote : '"' ∉ x.toList) : ClearText x :=
  ⟨x.toList, hclear, outsideQuotes_append hquote⟩

theorem name (h : PrintedName x) : ClearText x :=
  of_clear h.clear fun hquote => by
    cases List.all_eq_true.1 (all_of_isPlainWord h.isPlainWord) '"' hquote

theorem quoted (s : String) : ClearText (Text.quoted s) :=
  ⟨['"', '"'], by decide, outsideQuotes_quoted s⟩

theorem namesOnly (h : ClearText x) : NamesOnly x := by
  obtain ⟨out, hclear, h⟩ := h
  have hout : outsideQuotes false x.toList = out := by
    have hnil := h []
    rwa [List.append_nil, outsideQuotes, List.append_nil] at hnil
  rw [NamesOnly, hout]
  exact ⟨hclear.no_digit, hclear.not_qualifier⟩

end ClearText

theorem namesOnly_printedType : NamesOnly Definition.printedType :=
  (ClearText.of_clear (by decide) (by decide)).namesOnly

theorem PrintedForm.namesOnly {t : ValueType} {l : Literal} {x : String} (h : PrintedForm t l x) : NamesOnly x := by
  have hsymbols : ∀ x ∈ symbols, Clear x.toList ∧ '"' ∉ x.toList := by decide
  have hsymbol : ∀ x ∈ symbols, ClearText x := fun x hx => .of_clear (hsymbols x hx).1 (hsymbols x hx).2
  exact (h.of_pieces hsymbol (fun _ => .name) .quoted fun _ _ => .append).namesOnly

/-! ## Generated files -/

theorem forall_of_printed {P : String × String → Prop} (hP : ∀ e p, PrintedEntry e p → P p)
    {es : List (String × Literal)} {ps : List (String × String)} (h : List.Forall₂ PrintedEntry es ps) :
    ∀ p ∈ ps, P p := by
  induction h with
  | nil => nofun
  | cons hp _ ih => exact List.forall_mem_cons.2 ⟨hP _ _ hp, ih⟩

theorem Settings.fileOf_isOk {rules : Rules} (hrules : rules.AllowTables) {s : Settings}
    (hq : s.qualifier = Settings.default.qualifier) (ds : List Definition) : ∃ text, s.fileOf rules ds = .ok text := by
  have hstyle : s.style = Settings.default.style := congrArg (fun q => (⟨some q, _⟩ : Style)) hq
  obtain ⟨entries, h, _⟩ := Literal.renderBy_group hrules ds
  refine ⟨SourceFile.text s ⟨Definition.printedType, entries⟩, ?_⟩
  rw [fileOf, renderTable, hstyle, h]
  rfl

/-- A source has no generated file exactly when it does not parse. -/
theorem Settings.generate_error_iff {rules : Rules} (hrules : rules.AllowTables) {s : Settings}
    (hq : s.qualifier = Settings.default.qualifier) (source : String) (e : GenerationError) :
    s.generate rules source = .error e ↔ ∃ d, Definition.parseAll source = .error d ∧ e = .malformed d := by
  rw [generate]
  cases hparse : Definition.parseAll source with
  | error d =>
    constructor
    · rintro ⟨⟩
      exact ⟨d, rfl, rfl⟩
    · rintro ⟨_, ⟨⟩, rfl⟩
      rfl
  | ok ds =>
    obtain ⟨text, htext⟩ := fileOf_isOk hrules hq (ds.map Node.minify)
    simp only [htext]
    constructor
    · nofun
    · rintro ⟨_, ⟨⟩, _⟩

/-- **Definitions are always rendered, with names in place of codes and without the module of the node types, and a
source has no generated file exactly when it does not parse**, if the rules of the language allow what is printed for
tables. -/
theorem definitions_rendered {rules : Rules} (hrules : rules.AllowTables) :
    (∀ ds : List Definition, ∃ r, (literal (Definition.group ds)).renderBy rules Settings.default.style = .ok r ∧
      List.Forall₂ PrintedEntry (Definition.entries ds) r.entries ∧
      ∀ x ∈ r.type :: r.entries.map Prod.snd, NamesOnly x) ∧
    ∀ variableName namespacePath generator source e,
      (⟨variableName, namespacePath, Settings.default.qualifier, generator⟩ : Settings).generate rules source =
          .error e ↔
        ∃ d, Definition.parseAll source = .error d ∧ e = .malformed d := by
  refine ⟨fun ds => ?_, fun variableName namespacePath generator => ?_⟩
  case refine_2 =>
    have hq : (⟨variableName, namespacePath, Settings.default.qualifier, generator⟩ : Settings).qualifier =
      Settings.default.qualifier := rfl
    exact Settings.generate_error_iff hrules hq
  obtain ⟨entries, hrender, hforms⟩ := Literal.renderBy_group hrules ds
  have hentries : ∀ p ∈ entries, NamesOnly p.2 := forall_of_printed (fun _ _ h => h.2.namesOnly) hforms
  exact ⟨_, hrender, hforms, List.forall_mem_cons.2 ⟨namesOnly_printedType, List.forall_mem_map.2 hentries⟩⟩

/-- A definition with an operator in its body and digits in its strings, and a source that ends too early. -/
theorem definitions_rendered_sum :
    let ds : List Definition :=
      [.definition "f1" [] (Query.binary (Query.ofTerm (Term.ofNumber "1")) .add (Query.ofTerm (Term.ofNumber "2")))]
    let d : Diagnostic := ⟨"unexpected end of input, expected \";\"", 10, ⟨1, 11⟩⟩
    Target.rules.AllowTables ∧
      (∃ r, (literal (Definition.group ds)).renderBy Target.rules Settings.default.style = .ok r ∧
        List.Forall₂ PrintedEntry (Definition.entries ds) r.entries ∧
        ∀ x ∈ r.type :: r.entries.map Prod.snd, NamesOnly x) ∧
      Settings.default.generate Target.rules "def f: 1+2" = .error (.malformed d) := by
  intro ds d
  obtain ⟨hrendered, hgenerate⟩ := definitions_rendered Target.rules_allowTables
  have hparse : Definition.parseAll "def f: 1+2" = .error d := Grammar.error_of_fault? (by decide +kernel)
  exact ⟨Target.rules_allowTables, hrendered ds, (hgenerate _ _ _ _ _).2 ⟨d, hparse, rfl⟩⟩

end DefTable
