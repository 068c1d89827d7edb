import DefTable.Proofs.LiteralReading
import DefTable.Rendering
import DefTable.Target.Grammar

/-!
# Names in place of codes

A style prints some codes by their names. That is the same as putting the paths of the names into the literal
(`Literal.withNames`) and printing it as it is (`render_withNames`): in particular a field that holds a code without a
name, and everything that is no field, is printed as it is.
-/

namespace DefTable

/-! ## Names of codes -/

/-- The path of the name of a code in a field. Of the codes that apply to the field the first ones decide, whether they
have a name for it or not. -/
def NamedCodes.pathIn? (all : List NamedCodes) (record field : String) (code : Int) : Option String :=
  (all.find? fun codes => codes.appliesTo record field).bind fun codes => codes.path? code

theorem NamedCodes.exists_of_path? {codes : NamedCodes} {code : Int} {path : String} (h : codes.path? code = some path) :
    ∃ e ∈ codes.names, e.1 = code ∧ path = codes.type ++ "::" ++ e.2 := by
  obtain ⟨name, hname, rfl⟩ := Option.map_eq_some_iff.1 h
  obtain ⟨before, after, hnames, -⟩ := List.lookup_eq_some_iff.1 hname
  refine ⟨(code, name), ?_, rfl, rfl⟩
  rw [hnames]
  exact List.mem_append_right _ List.mem_cons_self

/-- A code outside of the range has no name. -/
theorem NamedCodes.path?_ofRange {type : String} {fields : List String} {owner : Option String} {first last : Nat}
    {name : Nat → Option String} {code : Int} (h : code < first ∨ last < code) :
    (ofRange type fields owner first last name).path? code = none := by
  rw [Option.eq_none_iff_forall_ne_some]
  intro path hpath
  obtain ⟨e, he, hcode, -⟩ := exists_of_path? hpath
  obtain ⟨n, hn, hname⟩ := List.mem_filterMap.1 he
  obtain ⟨text, -, rfl⟩ := Option.map_eq_some_iff.1 hname
  have hrange := List.mem_range'_1.1 hn
  have hn : (n : Int) = code := hcode
  omega

/-- The style that prints codes as numbers. -/
def Style.numeric (style : Style) : Style :=
  ⟨style.qualifier, []⟩

/-- A path without colons does not begin with a qualifier, which ends with two of them. -/
theorem Style.stripped_of_no_colon {style : Style} (hqualifier : ∀ q ∈ style.qualifier, ∃ p, q = p ++ "::")
    {path : String} (hpath : ':' ∉ path.toList) : style.stripped path = path := by
  rw [stripped]
  cases hq : style.qualifier with
  | none => rfl
  | some q =>
    obtain ⟨p, rfl⟩ := hqualifier q hq
    have hnot : ¬ (p ++ "::").toList.isPrefixOf path.toList = true := by
      intro hprefix
      have hmem : ':' ∈ (p ++ "::").toList := by simp
      exact hpath ((List.isPrefixOf_iff_prefix.1 hprefix).subset hmem)
    dsimp only
    rw [Qualifier.strip, if_neg hnot, String.ofList_toList]

namespace Literal

/-! ## The rewriting -/

/-- The path of the name of a code in place of the code, which may be given as an option. -/
def named? (path? : Int → Option String) : Literal → Option Literal
  | .int code => (path? code).map .path
  | .call "Some" [.int code] => (path? code).map fun p => given (.path p)
  | _ => none

mutual

/-- A literal with the names of codes in the fields that hold them. -/
def withNames (all : List NamedCodes) : Literal → Literal
  | .call func args => .call func (withNamesOfAll all args)
  | .vec items => .vec (withNamesOfAll all items)
  | .record name fields rest => .record name (withNamesOfFields all name fields) rest
  | .map type entries => .map type (withNamesOfEntries all entries)
  | l => l

def withNamesOfAll (all : List NamedCodes) : List Literal → List Literal
  | [] => []
  | l :: ls => withNames all l :: withNamesOfAll all ls

def withNamesOfFields (all : List NamedCodes) (record : String) : List (String × Literal) → List (String × Literal)
  | [] => []
  | (field, value) :: fields =>
    (field, (value.named? (NamedCodes.pathIn? all record field)).getD (withNames all value)) ::
      withNamesOfFields all record fields

def withNamesOfEntries (all : List NamedCodes) : List (String × Literal) → List (String × Literal)
  | [] => []
  | (key, value) :: entries => (key, withNames all value) :: withNamesOfEntries all entries

end

theorem withNamesOfEntries_eq (all : List NamedCodes) : ∀ entries : List (String × Literal),
    withNamesOfEntries all entries = entries.map fun e => (e.1, e.2.withNames all)
  | [] => rfl
  | (key, value) :: entries => congrArg ((key, value.withNames all) :: ·) (withNamesOfEntries_eq all entries)

/-! ## Printing -/

section
variable {rules : Rules} {style : Style} {key : String}

/-- What a style needs in order that names can be put in place of codes before printing: the names are paths, and an
option is printed as one. -/
structure Printing (rules : Rules) (style : Style) : Prop where
  isPath : ∀ codes ∈ style.codes, ∀ code path, codes.path? code = some path → rules.isPath path = true
  given : pathText rules style.numeric "Some" = .ok "Some"

theorem pathText_numeric (name : String) : pathText rules style.numeric name = pathText rules style name :=
  rfl

theorem Printing.pathIn? (h : Printing rules style) {record field path : String} {code : Int}
    (hpath : NamedCodes.pathIn? style.codes record field code = some path) :
    pathText rules style.numeric path = .ok (style.stripped path) := by
  obtain ⟨codes, hfind, hcode⟩ := Option.bind_eq_some_iff.1 hpath
  exact if_pos (h.isPath codes (List.mem_of_find?_eq_some hfind) code path hcode)

theorem symbol?_int (style : Style) (record field : String) (code : Int) :
    style.symbol? record field (.int code) =
      (NamedCodes.pathIn? style.codes record field code).map style.stripped := by
  rw [Style.symbol?, NamedCodes.pathIn?]
  cases style.codes.find? fun codes => codes.appliesTo record field <;> rfl

theorem symbol?_given (style : Style) (record field : String) (code : Int) :
    style.symbol? record field (given (.int code)) =
      (NamedCodes.pathIn? style.codes record field code).map fun path => "Some(" ++ style.stripped path ++ ")" := by
  rw [Style.symbol?, NamedCodes.pathIn?]
  cases style.codes.find? fun codes => codes.appliesTo record field <;> rfl

/-- A value that holds no code. -/
theorem symbol?_of_not_code (style : Style) (record field : String) {value : Literal}
    (hint : ∀ code, value ≠ .int code) (hgiven : ∀ code, value ≠ given (.int code)) :
    style.symbol? record field value = none := by
  rw [Style.symbol?]
  split
  · rfl
  · split
    · exact absurd rfl (hint _)
    · exact absurd rfl (hgiven _)
    · rfl

theorem named?_of_not_code (path? : Int → Option String) {value : Literal} (hint : ∀ code, value ≠ .int code)
    (hgiven : ∀ code, value ≠ given (.int code)) : value.named? path? = none := by
  unfold named?
  split
  · exact absurd rfl (hint _)
  · exact absurd rfl (hgiven _)
  · rfl

/-- What is printed for the value of a field: the name of its code, or the value as it is. -/
def valueText (rules : Rules) (style : Style) (key record field : String) (value : Literal) :
    Except RenderError String :=
  match style.symbol? record field value with
  | some symbol => .ok symbol
  | none => text rules style key value

theorem text_given (h : Printing rules style) {path printed : String}
    (hpath : pathText rules style.numeric path = .ok printed) :
    text rules style.numeric key (given (.path path)) = .ok ("Some(" ++ printed ++ ")") := by
  rw [given, text, texts, texts, text, h.given, hpath]
  rfl

theorem text_namedField (h : Printing rules style) (record field : String) {value : Literal}
    (hvalue : text rules style.numeric key (value.withNames style.codes) = text rules style key value) :
    text rules style.numeric key
        ((value.named? (NamedCodes.pathIn? style.codes record field)).getD (value.withNames style.codes)) =
      valueText rules style key record field value := by
  rw [valueText]
  by_cases hint : ∃ code, value = .int code
  · obtain ⟨code, rfl⟩ := hint
    rw [symbol?_int, named?]
    cases hpath : NamedCodes.pathIn? style.codes record field code with
    | none => exact hvalue
    | some path =>
      have hprinted : text rules style.numeric key (.path path) = .ok (style.stripped path) := by
        rw [text]
        exact h.pathIn? hpath
      exact hprinted
  · by_cases hgiven : ∃ code, value = given (.int code)
    · obtain ⟨code, rfl⟩ := hgiven
      rw [symbol?_given, given, named?]
      cases hpath : NamedCodes.pathIn? style.codes record field code with
      | none => exact hvalue
      | some path => exact text_given h (h.pathIn? hpath)
    · have hint := not_exists.1 hint
      have hgiven := not_exists.1 hgiven
      rw [symbol?_of_not_code style record field hint hgiven, named?_of_not_code _ hint hgiven]
      exact hvalue

theorem fieldTexts_cons_eq (style : Style) (record field : String) (value : Literal) (fields : List (String × Literal)) :
    fieldTexts rules style key record ((field, value) :: fields) =
      if rules.isIdentifier field then (do
        let t ← valueText rules style key record field value
        let ts ← fieldTexts rules style key record fields
        return (field ++ ": " ++ t) :: ts)
      else .error (.invalidName field) := by
  rw [fieldTexts, valueText]
  cases style.symbol? record field value <;> rfl

theorem valueText_numeric (style : Style) (record field : String) (value : Literal) :
    valueText rules style.numeric key record field value = text rules style.numeric key value :=
  rfl

mutual

/-- **A literal is printed as its codes are spelled**: as the literal with the names in place of the codes. -/
theorem text_withNames (h : Printing rules style) : ∀ l : Literal,
    text rules style.numeric key (l.withNames style.codes) = text rules style key l
  | .int _ => rfl
  | .bool _ => rfl
  | .str _ => rfl
  | .path _ => rfl
  | .call func args => by
    rw [withNames, text, text, texts_withNames h args, pathText_numeric]
  | .vec items => by
    rw [withNames, text, text, texts_withNames h items]
  | .record name fields rest => by
    rw [withNames, text, text, fieldTexts_withNames h name fields, pathText_numeric]
  | .map _ _ => by rw [withNames, text, text]

theorem texts_withNames (h : Printing rules style) : ∀ ls : List Literal,
    texts rules style.numeric key (withNamesOfAll style.codes ls) = texts rules style key ls
  | [] => by rw [withNamesOfAll, texts, texts]
  | l :: ls => by
    rw [withNamesOfAll, texts, texts, text_withNames h l, texts_withNames h ls]

theorem fieldTexts_withNames (h : Printing rules style) (record : String) : ∀ fields : List (String × Literal),
    fieldTexts rules style.numeric key record (withNamesOfFields style.codes record fields) =
      fieldTexts rules style key record fields
  | [] => by rw [withNamesOfFields, fieldTexts, fieldTexts]
  | (field, value) :: fields => by
    have hfield := text_namedField h record field (text_withNames h value)
    rw [withNamesOfFields, fieldTexts_cons_eq, fieldTexts_cons_eq, valueText_numeric, hfield,
      fieldTexts_withNames h record fields]

end

theorem entryText_withNames (h : Printing rules style) (e : String × Literal) :
    entryText rules style.numeric (e.1, e.2.withNames style.codes) = entryText rules style e := by
  rw [entryText, entryText, text_withNames h e.2]

theorem renderBy_withNames (h : Printing rules style) (l : Literal) :
    renderBy rules style.numeric (l.withNames style.codes) = renderBy rules style l := by
  cases l with
  | map type entries =>
    have hentries : (entries.map fun e => (e.1, e.2.withNames style.codes)).mapM (entryText rules style.numeric) =
        entries.mapM (entryText rules style) := by
      rw [List.mapM_map]
      exact congrArg (List.mapM · entries) (funext (entryText_withNames h))
    rw [withNames, withNamesOfEntries_eq, renderBy, renderBy, hentries]
    rfl
  | _ => rfl
end

/-! ## What is not touched -/

/-- A literal that has no field with a code that has a name. -/
def Nameless (all : List NamedCodes) (l : Literal) : Prop :=
  ∀ name fields rest, .record name fields rest ∈ l.parts → ∀ f ∈ fields, f.2.named? (NamedCodes.pathIn? all name f.1) = none

theorem Nameless.of_all {all : List NamedCodes} {l : Literal} {ls : List Literal} (h : l.Nameless all)
    (hparts : l.parts = l :: partsOfAll ls) : ∀ l' ∈ ls, l'.Nameless all := by
  intro l' hl' name fields rest hmem
  apply h name fields rest
  rw [hparts]
  exact List.mem_cons_of_mem _ (mem_partsOfAll.2 ⟨l', hl', hmem⟩)

theorem Nameless.of_fields {all : List NamedCodes} {l : Literal} {entries : List (String × Literal)} (h : l.Nameless all)
    (hparts : l.parts = l :: partsOfFields entries) : ∀ e ∈ entries, e.2.Nameless all := by
  intro e he name fields rest hmem
  apply h name fields rest
  rw [hparts]
  exact List.mem_cons_of_mem _ (mem_partsOfFields.2 ⟨e, he, hmem⟩)

mutual

/-- **Only fields that hold the code of a name are touched.** -/
theorem withNames_of_nameless {all : List NamedCodes} : ∀ {l : Literal}, l.Nameless all → l.withNames all = l
  | .int _, _ => rfl
  | .bool _, _ => rfl
  | .str _, _ => rfl
  | .path _, _ => rfl
  | .call func args, h => by
    have hargs := h.of_all (by rw [parts])
    rw [withNames, withNamesOfAll_of_nameless hargs]
  | .vec items, h => by
    have hitems := h.of_all (by rw [parts])
    rw [withNames, withNamesOfAll_of_nameless hitems]
  | .record name fields rest, h => by
    have hfields := h.of_fields (by rw [parts])
    have hself : record name fields rest ∈ (record name fields rest).parts := by
      rw [parts]
      exact List.mem_cons_self
    rw [withNames, withNamesOfFields_of_nameless hfields (h name fields rest hself)]
  | .map type entries, h => by
    have hentries := h.of_fields (by rw [parts])
    rw [withNames, withNamesOfEntries_of_nameless hentries]

theorem withNamesOfAll_of_nameless {all : List NamedCodes} : ∀ {ls : List Literal}, (∀ l ∈ ls, l.Nameless all) →
    withNamesOfAll all ls = ls
  | [], _ => rfl
  | l :: ls, h => by
    obtain ⟨hl, hls⟩ := List.forall_mem_cons.1 h
    rw [withNamesOfAll, withNames_of_nameless hl, withNamesOfAll_of_nameless hls]

theorem withNamesOfFields_of_nameless {all : List NamedCodes} {record : String} :
    ∀ {fields : List (String × Literal)}, (∀ f ∈ fields, f.2.Nameless all) →
      (∀ f ∈ fields, f.2.named? (NamedCodes.pathIn? all record f.1) = none) →
        withNamesOfFields all record fields = fields
  | [], _, _ => rfl
  | (field, value) :: fields, h, hcodes => by
    obtain ⟨hvalue, hfields⟩ := List.forall_mem_cons.1 h
    obtain ⟨hcode, hcodes⟩ := List.forall_mem_cons.1 hcodes
    rw [withNamesOfFields, hcode, Option.getD_none, withNames_of_nameless hvalue,
      withNamesOfFields_of_nameless hfields hcodes]

theorem withNamesOfEntries_of_nameless {all : List NamedCodes} : ∀ {entries : List (String × Literal)},
    (∀ e ∈ entries, e.2.Nameless all) → withNamesOfEntries all entries = entries
  | [], _ => rfl
  | (key, value) :: entries, h => by
    obtain ⟨hvalue, hentries⟩ := List.forall_mem_cons.1 h
    rw [withNamesOfEntries, withNames_of_nameless hvalue, withNamesOfEntries_of_nameless hentries]

end

/-- **Printing codes by their names is putting the names into the literal and printing it as it is**, with the same text
or the same error: in each field of a record, by itself or given, the path of the name of a code, where the first of the
codes that apply to the field have one. Nothing else is touched, and a code outside of a range has no name. -/
theorem render_withNames {rules : Rules} {style : Style} (hqualifier : ∀ q ∈ style.qualifier, ∃ p, q = p ++ "::")
    (hsome : rules.isPath "Some" = true)
    (hnames : ∀ codes ∈ style.codes, ∀ code path, codes.path? code = some path → rules.isPath path = true) :
    (∀ l : Literal, l.renderBy rules style = (l.withNames style.codes).renderBy rules style.numeric) ∧
      (∀ l : Literal, l.Nameless style.codes → l.withNames style.codes = l) ∧
      ∀ type fields owner first last name (code : Int), code < (first : Nat) ∨ (last : Nat) < code →
        (NamedCodes.ofRange type fields owner first last name).path? code = none := by
  have hgiven : pathText rules style.numeric "Some" = .ok "Some" := by
    have hnumeric : ∀ q ∈ style.numeric.qualifier, ∃ p, q = p ++ "::" := hqualifier
    rw [pathText, Style.stripped_of_no_colon hnumeric (by decide)]
    exact if_pos hsome
  have hprinting : Printing rules style := ⟨hnames, hgiven⟩
  refine ⟨fun l => ?_, fun l => withNames_of_nameless, fun type fields owner first last name code =>
    NamedCodes.path?_ofRange⟩
  exact (renderBy_withNames hprinting l).symm

/-- Codes that overlap: the first ones count in the fields of their owner, even where they have no name. -/
theorem render_withNames_overlapping :
    let style : Style := ⟨some "a::", [.ofRange "a::Shade" ["tone"] (some "Ink") 1 1 fun _ => some "Dark",
      .ofRange "b::Size" ["tone", "size"] none 0 2 fun _ => some "Small"]⟩
    (∀ q ∈ style.qualifier, ∃ p, q = p ++ "::") ∧ Target.rules.isPath "Some" = true ∧
      (∀ codes ∈ style.codes, ∀ code path, codes.path? code = some path → Target.rules.isPath path = true) ∧
      (map "T" [("f", record "a::Ink" [("tone", given (.int 1)), ("tone", .int 2), ("size", .int (-1)),
          ("pen", record "b::Pen" [("tone", .int 2)] true)] false)]).renderBy Target.rules style =
        (map "T" [("f", record "a::Ink" [("tone", given (path "a::Shade::Dark")), ("tone", .int 2), ("size", .int (-1)),
          ("pen", record "b::Pen" [("tone", path "b::Size::Small")] true)] false)]).renderBy Target.rules
            style.numeric := by
  intro style
  have hqualifier : ∀ q ∈ style.qualifier, ∃ p, q = p ++ "::" := by
    rintro _ ⟨⟩
    exact ⟨"a", rfl⟩
  have hsome : Target.rules.isPath "Some" = true := by decide +kernel
  have hpaths : ∀ codes ∈ style.codes, ∀ e ∈ codes.names,
      Target.rules.isPath (codes.type ++ "::" ++ e.2) = true := by
    decide +kernel
  have hnames : ∀ codes ∈ style.codes, ∀ code path, codes.path? code = some path →
      Target.rules.isPath path = true := by
    intro codes hcodes code path hpath
    obtain ⟨e, he, -, rfl⟩ := NamedCodes.exists_of_path? hpath
    exact hpaths codes hcodes e he
  refine ⟨hqualifier, hsome, hnames, ?_⟩
  exact (render_withNames hqualifier hsome hnames).1 _

end Literal
end DefTable
