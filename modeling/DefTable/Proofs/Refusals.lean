import DefTable.Proofs.CodeNames

/-!
# Refused literals

Which literals are rendered and why the others are not, whatever the rules for paths, names, types and expressions are.
A literal that is rendered is its type and what is written for its entries; every other one is refused with the first
thing in it that is against the rules (`renderBy_exact`). What may be against them in an entry is a list of sites in the
order in which they are written (`sites`), and after all of them the text of the entry as a whole.
-/

namespace DefTable.Literal

/-! ## What is written -/

mutual

/-- What is written for a literal, whether it may be written or not. Nothing is written for a table. -/
def written (style : Style) : Literal → String
  | .int n => toString n
  | .bool b => if b then "true" else "false"
  | .str s => Text.quoted s
  | .path p => style.stripped p
  | .call func args => style.stripped func ++ "(" ++ commas (writtenAll style args) ++ ")"
  | .vec items => "vec![" ++ commas (writtenAll style items) ++ "]"
  | .record name fields rest => recordText (style.stripped name) (writtenFields style name fields) rest
  | .map _ _ => ""

def writtenAll (style : Style) : List Literal → List String
  | [] => []
  | l :: ls => written style l :: writtenAll style ls

def writtenFields (style : Style) (record : String) : List (String × Literal) → List String
  | [] => []
  | (field, value) :: fields =>
    (field ++ ": " ++ (style.symbol? record field value).getD (written style value)) :: writtenFields style record fields

end

/-- The literals that are written as parts of a literal, which is one of them. The value of a field is none if the name
of a code is written in its place. -/
inductive WrittenIn (style : Style) (part : Literal) : Literal → Prop
  | self : WrittenIn style part part
  | argument {func : String} {args : List Literal} {l : Literal} (hl : l ∈ args) (h : WrittenIn style part l) :
      WrittenIn style part (.call func args)
  | item {items : List Literal} {l : Literal} (hl : l ∈ items) (h : WrittenIn style part l) :
      WrittenIn style part (.vec items)
  | value {name : String} {fields : List (String × Literal)} {rest : Bool} {f : String × Literal} (hf : f ∈ fields)
      (hsymbol : style.symbol? name f.1 f.2 = none) (h : WrittenIn style part f.2) :
      WrittenIn style part (.record name fields rest)

/-- Whether a literal may be written as far as that does not depend on its parts. -/
def Permitted (rules : Rules) : Literal → Prop
  | .path p => rules.isPath p = true
  | .call func _ => rules.isPath func = true
  | .record name fields _ => rules.isPath name = true ∧ ∀ f ∈ fields, rules.isIdentifier f.1 = true
  | .map _ _ => False
  | _ => True

/-! ## Sites -/

/-- Something in a literal that may be against the rules. -/
inductive Site where
  | path (p : String)
  | field (name : String)
  | table
deriving DecidableEq, Repr

namespace Site

def isPermitted (rules : Rules) : Site → Bool
  | path p => rules.isPath p
  | field name => rules.isIdentifier name
  | table => false

/-- Why the entry with the key is refused if a site in it is against the rules. -/
def refusal (key : String) : Site → RenderError
  | path p => .invalidName p
  | field name => .invalidName name
  | table => .nestedTable key

end Site

mutual

/-- The sites of a literal in the order in which they are written: a path in front of what belongs to it, and the name
of a field in front of its value. -/
def sites (style : Style) : Literal → List Site
  | .path p => [.path p]
  | .call func args => .path func :: sitesOfAll style args
  | .vec items => sitesOfAll style items
  | .record name fields _ => .path name :: sitesOfFields style name fields
  | .map _ _ => [.table]
  | _ => []

def sitesOfAll (style : Style) : List Literal → List Site
  | [] => []
  | l :: ls => sites style l ++ sitesOfAll style ls

def sitesOfFields (style : Style) (record : String) : List (String × Literal) → List Site
  | [] => []
  | (field, value) :: fields =>
    .field field :: ((if (style.symbol? record field value).isSome then [] else sites style value) ++
      sitesOfFields style record fields)

end

section
variable {rules : Rules} {style : Style} {key : String}

theorem writtenIn_call {func : String} {args : List Literal} {p : Literal} :
    WrittenIn style p (.call func args) ↔ p = .call func args ∨ ∃ l ∈ args, WrittenIn style p l := by
  constructor
  · rintro (_ | ⟨hl, h⟩)
    · exact .inl rfl
    · exact .inr ⟨_, hl, h⟩
  · rintro (rfl | ⟨l, hl, h⟩)
    · exact .self
    · exact .argument hl h

theorem writtenIn_vec {items : List Literal} {p : Literal} :
    WrittenIn style p (.vec items) ↔ p = .vec items ∨ ∃ l ∈ items, WrittenIn style p l := by
  constructor
  · rintro (_ | _ | ⟨hl, h⟩)
    · exact .inl rfl
    · exact .inr ⟨_, hl, h⟩
  · rintro (rfl | ⟨l, hl, h⟩)
    · exact .self
    · exact .item hl h

theorem writtenIn_record {name : String} {fields : List (String × Literal)} {rest : Bool} {p : Literal} :
    WrittenIn style p (.record name fields rest) ↔
      p = .record name fields rest ∨ ∃ f ∈ fields, style.symbol? name f.1 f.2 = none ∧ WrittenIn style p f.2 := by
  constructor
  · rintro (_ | _ | _ | ⟨hf, hsymbol, h⟩)
    · exact .inl rfl
    · exact .inr ⟨_, hf, hsymbol, h⟩
  · rintro (rfl | ⟨f, hf, hsymbol, h⟩)
    · exact .self
    · exact .value hf hsymbol h

/-! ## Sites and parts -/

mutual

/-- **A literal has no site that is against the rules exactly when all parts of it may be written.** -/
theorem sites_permitted_iff : ∀ l : Literal,
    (∀ site ∈ l.sites style, site.isPermitted rules = true) ↔ ∀ p, WrittenIn style p l → p.Permitted rules
  | .int _ => ⟨fun _ _ h => by cases h; trivial, fun _ => nofun⟩
  | .bool _ => ⟨fun _ _ h => by cases h; trivial, fun _ => nofun⟩
  | .str _ => ⟨fun _ _ h => by cases h; trivial, fun _ => nofun⟩
  | .path _ => by
    rw [sites, List.forall_mem_singleton]
    exact ⟨fun hpath _ h => by cases h; exact hpath, fun h => h _ .self⟩
  | .call func args => by
    rw [sites, List.forall_mem_cons, sitesOfAll_permitted_iff args]
    simp only [writtenIn_call, or_imp, forall_and, forall_eq]
    exact and_congr_right' ⟨fun h p ⟨l, hl, hp⟩ => h l hl p hp, fun h l hl p hp => h p ⟨l, hl, hp⟩⟩
  | .vec items => by
    rw [sites, sitesOfAll_permitted_iff items]
    simp only [writtenIn_vec, or_imp, forall_and, forall_eq]
    exact ⟨fun h => ⟨trivial, fun p ⟨l, hl, hp⟩ => h l hl p hp⟩, fun h l hl p hp => h.2 p ⟨l, hl, hp⟩⟩
  | .record name fields rest => by
    rw [sites, List.forall_mem_cons, sitesOfFields_permitted_iff name fields]
    simp only [writtenIn_record, or_imp, forall_and, forall_eq]
    constructor
    · rintro ⟨hname, hfields, hvalues⟩
      exact ⟨⟨hname, hfields⟩, fun p ⟨f, hf, hsymbol, hp⟩ => hvalues f hf hsymbol p hp⟩
    · rintro ⟨⟨hname, hfields⟩, hvalues⟩
      exact ⟨hname, hfields, fun f hf hsymbol p hp => hvalues p ⟨f, hf, hsymbol, hp⟩⟩
  | .map _ _ => by
    rw [sites, List.forall_mem_singleton]
    exact ⟨nofun, fun h => (h _ .self).elim⟩

theorem sitesOfAll_permitted_iff : ∀ ls : List Literal,
    (∀ site ∈ sitesOfAll style ls, site.isPermitted rules = true) ↔
      ∀ l ∈ ls, ∀ p, WrittenIn style p l → p.Permitted rules
  | [] => by simp [sitesOfAll]
  | l :: ls => by
    rw [sitesOfAll, List.forall_mem_append, sites_permitted_iff l, sitesOfAll_permitted_iff ls, List.forall_mem_cons]

theorem sitesOfFields_permitted_iff (record : String) : ∀ fields : List (String × Literal),
    (∀ site ∈ sitesOfFields style record fields, site.isPermitted rules = true) ↔
      (∀ f ∈ fields, rules.isIdentifier f.1 = true) ∧
        ∀ f ∈ fields, style.symbol? record f.1 f.2 = none → ∀ p, WrittenIn style p f.2 → p.Permitted rules
  | [] => by simp [sitesOfFields]
  | (field, value) :: fields => by
    have hvalue := sites_permitted_iff value
    have hfields := sitesOfFields_permitted_iff record fields
    rw [sitesOfFields, List.forall_mem_cons, List.forall_mem_append, hfields, List.forall_mem_cons, List.forall_mem_cons,
      ← hvalue]
    cases style.symbol? record field value with
    | none => simp only [Site.isPermitted, Option.isSome_none]; tauto
    | some symbol => simp only [Site.isPermitted, Option.isSome_some, if_true]; simp; tauto

end

/-! ## Texts of literals -/

/-- A value, unless a site is against the rules: the first one that is decides why there is none. -/
def checked {α : Type} (rules : Rules) (key : String) (sites : List Site) (a : α) : Except RenderError α :=
  match sites.find? fun site => !site.isPermitted rules with
  | none => .ok a
  | some site => .error (site.refusal key)

theorem checked_cons {α : Type} (site : Site) (sites : List Site) (a : α) :
    checked rules key (site :: sites) a =
      if site.isPermitted rules then checked rules key sites a else .error (site.refusal key) := by
  rw [checked, List.find?_cons]
  cases site.isPermitted rules <;> rfl

theorem checked_map {α β : Type} (f : α → β) (sites : List Site) (a : α) :
    (do let a ← checked rules key sites a
        return f a) = checked rules key sites (f a) := by
  rw [checked, checked]
  cases sites.find? fun site => !site.isPermitted rules <;> rfl

/-- Values that are checked one behind the other are checked together. -/
theorem checked_both {α β γ : Type} (f : α → β → γ) (later : List Site) (a : α) (b : β) : ∀ sites : List Site,
    (do let a ← checked rules key sites a
        let b ← checked rules key later b
        return f a b) = checked rules key (sites ++ later) (f a b)
  | [] => checked_map (f a) later b
  | site :: sites => by
    rw [checked_cons, List.cons_append, checked_cons, ← checked_both f later a b sites]
    cases site.isPermitted rules <;> rfl

theorem pathText_eq (key name : String) :
    pathText rules style name = checked rules key [.path name] (style.stripped name) := by
  rw [checked_cons, pathText]
  rfl

mutual

/-- **The text of a literal is what is written for it, or the refusal of the first site that is against the rules.** -/
theorem text_eq : ∀ l : Literal, text rules style key l = checked rules key (l.sites style) (l.written style)
  | .int _ => rfl
  | .bool _ => rfl
  | .str _ => rfl
  | .path p => by
    rw [text]
    exact pathText_eq key p
  | .call func args => by
    rw [text, pathText_eq key func, texts_eq args]
    exact checked_both (fun func args => func ++ "(" ++ commas args ++ ")") _ _ _ [.path func]
  | .vec items => by
    rw [text, texts_eq items]
    exact checked_map (fun items => "vec![" ++ commas items ++ "]") _ _
  | .record name fields rest => by
    rw [text, pathText_eq key name, fieldTexts_eq name fields]
    exact checked_both (fun printed fields => recordText printed fields rest) _ _ _ [.path name]
  | .map _ _ => rfl

theorem texts_eq : ∀ ls : List Literal,
    texts rules style key ls = checked rules key (sitesOfAll style ls) (writtenAll style ls)
  | [] => rfl
  | l :: ls => by
    rw [texts, text_eq l, texts_eq ls]
    exact checked_both List.cons _ _ _ _

theorem fieldTexts_eq (record : String) : ∀ fields : List (String × Literal),
    fieldTexts rules style key record fields =
      checked rules key (sitesOfFields style record fields) (writtenFields style record fields)
  | [] => rfl
  | (field, value) :: fields => by
    have hvalue : valueText rules style key record field value =
        checked rules key (if (style.symbol? record field value).isSome then [] else sites style value)
          ((style.symbol? record field value).getD (written style value)) := by
      rw [valueText]
      cases style.symbol? record field value with
      | none => exact text_eq value
      | some symbol => rfl
    rw [fieldTexts_cons_eq, hvalue, fieldTexts_eq record fields, sitesOfFields, checked_cons, writtenFields]
    exact if_congr Iff.rfl (checked_both (fun t ts => (field ++ ": " ++ t) :: ts) _ _ _ _) rfl

end

/-! ## First violations -/

/-- What holds of a list without exception has a first exception otherwise. -/
theorem forall_or_first {α : Type} (P : α → Prop) : ∀ as : List α,
    (∀ a ∈ as, P a) ∨ ∃ before a after, as = before ++ a :: after ∧ (∀ b ∈ before, P b) ∧ ¬ P a
  | [] => .inl nofun
  | a :: as => by
    by_cases ha : P a
    · rcases forall_or_first P as with h | ⟨before, b, after, rfl, hbefore, hb⟩
      · exact .inl (List.forall_mem_cons.2 ⟨ha, h⟩)
      · exact .inr ⟨a :: before, b, after, rfl, List.forall_mem_cons.2 ⟨ha, hbefore⟩, hb⟩
    · exact .inr ⟨[], a, as, rfl, nofun, ha⟩

theorem checked_of_permitted {α : Type} (a : α) : ∀ {sites : List Site},
    (∀ site ∈ sites, site.isPermitted rules = true) → checked rules key sites a = .ok a
  | [], _ => rfl
  | site :: sites, h => by
    obtain ⟨hsite, hsites⟩ := List.forall_mem_cons.1 h
    rw [checked_cons, if_pos hsite, checked_of_permitted a hsites]

theorem checked_of_first {α : Type} (a : α) {site : Site} (after : List Site) (hsite : ¬ site.isPermitted rules = true) :
    ∀ {before : List Site}, (∀ s ∈ before, s.isPermitted rules = true) →
      checked rules key (before ++ site :: after) a = .error (site.refusal key)
  | [], _ => by rw [List.nil_append, checked_cons, if_neg hsite]
  | s :: before, h => by
    obtain ⟨hs, hbefore⟩ := List.forall_mem_cons.1 h
    rw [List.cons_append, checked_cons, if_pos hs, checked_of_first a after hsite hbefore]

/-! ## Entries -/

/-- Whether an entry of a table may be written: each part of it, and its text as a whole. -/
structure EntryPermitted (rules : Rules) (style : Style) (e : String × Literal) : Prop where
  parts : ∀ p, WrittenIn style p e.2 → p.Permitted rules
  whole : rules.expressionFault? (e.2.written style) = none

/-- Why an entry of a table is refused: for the first site in it that is against the rules, or, if there is none, for
its text as a whole. -/
inductive EntryRefused (rules : Rules) (style : Style) (e : String × Literal) : RenderError → Prop
  | site {before : List Site} {site : Site} {after : List Site} (hsites : e.2.sites style = before ++ site :: after)
      (hbefore : ∀ s ∈ before, s.isPermitted rules = true) (hsite : ¬ site.isPermitted rules = true) :
      EntryRefused rules style e (site.refusal e.1)
  | whole {reason : String} (hparts : ∀ p, WrittenIn style p e.2 → p.Permitted rules)
      (hwhole : rules.expressionFault? (e.2.written style) = some reason) :
      EntryRefused rules style e (.invalidEntry e.1 reason)

theorem entry_permitted_or_refused (rules : Rules) (style : Style) (e : String × Literal) :
    EntryPermitted rules style e ∨ ∃ err, EntryRefused rules style e err := by
  rcases forall_or_first (fun site => site.isPermitted rules = true) (e.2.sites style) with
    h | ⟨before, site, after, hsites, hbefore, hsite⟩
  · have hparts := (sites_permitted_iff e.2).1 h
    cases hwhole : rules.expressionFault? (e.2.written style) with
    | none => exact .inl ⟨hparts, hwhole⟩
    | some reason => exact .inr ⟨_, .whole hparts hwhole⟩
  · exact .inr ⟨_, .site hsites hbefore hsite⟩

theorem entryText_of_permitted {e : String × Literal} (h : EntryPermitted rules style e) :
    entryText rules style e = .ok (e.1, e.2.written style) := by
  have htext : text rules style e.1 e.2 = .ok (e.2.written style) := by
    rw [text_eq, checked_of_permitted _ ((sites_permitted_iff e.2).2 h.parts)]
  exact entryText_eq_ok htext h.whole

theorem entryText_of_refused {e : String × Literal} {err : RenderError} (h : EntryRefused rules style e err) :
    entryText rules style e = .error err := by
  cases h with
  | site hsites hbefore hsite =>
    rw [entryText, text_eq, hsites, checked_of_first _ _ hsite hbefore]
    rfl
  | whole hparts hwhole =>
    refine entryText_eq_error ?_ hwhole
    rw [text_eq, checked_of_permitted _ ((sites_permitted_iff e.2).2 hparts)]

theorem entries_of_permitted : ∀ {entries : List (String × Literal)}, (∀ e ∈ entries, EntryPermitted rules style e) →
    entries.mapM (entryText rules style) = .ok (entries.map fun e => (e.1, e.2.written style))
  | [], _ => rfl
  | e :: entries, h => by
    obtain ⟨he, hentries⟩ := List.forall_mem_cons.1 h
    rw [List.mapM_cons, entryText_of_permitted he, entries_of_permitted hentries]
    rfl

theorem entries_of_refused {e : String × Literal} (after : List (String × Literal)) {err : RenderError}
    (he : EntryRefused rules style e err) : ∀ {before : List (String × Literal)},
      (∀ b ∈ before, EntryPermitted rules style b) →
        (before ++ e :: after).mapM (entryText rules style) = .error err
  | [], _ => by
    rw [List.nil_append, List.mapM_cons, entryText_of_refused he]
    rfl
  | b :: before, h => by
    obtain ⟨hb, hbefore⟩ := List.forall_mem_cons.1 h
    rw [List.cons_append, List.mapM_cons, entryText_of_permitted hb, entries_of_refused after he hbefore]
    rfl

/-! ## Tables -/

/-- A table that may be written: its type and all its entries. -/
def TablePermitted (rules : Rules) (style : Style) (type : String) (entries : List (String × Literal)) : Prop :=
  rules.typeFault? (style.strippedType type) = none ∧ ∀ e ∈ entries, EntryPermitted rules style e

/-- Why a literal is refused: it is no table, or its type is against the rules, or else the first entry that may not be
written is refused. -/
inductive Refused (rules : Rules) (style : Style) : Literal → RenderError → Prop
  | notTable {l : Literal} (h : ∀ type entries, l ≠ .map type entries) : Refused rules style l .notTable
  | type {type reason : String} (entries : List (String × Literal))
      (h : rules.typeFault? (style.strippedType type) = some reason) :
      Refused rules style (.map type entries) (.invalidType (style.strippedType type) reason)
  | entry {type : String} {before : List (String × Literal)} {e : String × Literal} (after : List (String × Literal))
      {err : RenderError} (htype : rules.typeFault? (style.strippedType type) = none)
      (hbefore : ∀ b ∈ before, EntryPermitted rules style b) (he : EntryRefused rules style e err) :
      Refused rules style (.map type (before ++ e :: after)) err

theorem permitted_or_refused (rules : Rules) (style : Style) (l : Literal) :
    (∃ type entries, l = .map type entries ∧ TablePermitted rules style type entries) ∨
      ∃ err, Refused rules style l err := by
  by_cases hmap : ∃ type entries, l = .map type entries
  · obtain ⟨type, entries, rfl⟩ := hmap
    cases htype : rules.typeFault? (style.strippedType type) with
    | some reason => exact .inr ⟨_, .type entries htype⟩
    | none =>
      rcases forall_or_first (EntryPermitted rules style) entries with h | ⟨before, e, after, rfl, hbefore, he⟩
      · exact .inl ⟨type, entries, rfl, htype, h⟩
      · obtain ⟨err, herr⟩ := (entry_permitted_or_refused rules style e).resolve_left he
        exact .inr ⟨err, .entry after htype hbefore herr⟩
  · exact .inr ⟨_, .notTable fun type entries h => hmap ⟨type, entries, h⟩⟩

theorem renderBy_of_permitted {type : String} {entries : List (String × Literal)}
    (h : TablePermitted rules style type entries) :
    renderBy rules style (.map type entries) =
      .ok ⟨style.strippedType type, entries.map fun e => (e.1, e.2.written style)⟩ := by
  rw [renderBy, h.1]
  dsimp only
  rw [entries_of_permitted h.2]
  rfl

theorem renderBy_of_refused {l : Literal} {err : RenderError} (h : Refused rules style l err) :
    renderBy rules style l = .error err := by
  cases h with
  | notTable h =>
    cases l with
    | map type entries => exact absurd rfl (h type entries)
    | _ => rfl
  | type entries h => rw [renderBy, h]
  | entry after htype hbefore he =>
    rw [renderBy, htype]
    dsimp only
    rw [entries_of_refused after he hbefore]
    rfl

theorem renderBy_eq_ok_iff {l : Literal} {r : Rendering} :
    l.renderBy rules style = .ok r ↔ ∃ type entries, l = .map type entries ∧
      TablePermitted rules style type entries ∧
        r = ⟨style.strippedType type, entries.map fun e => (e.1, e.2.written style)⟩ := by
  constructor
  · intro hr
    rcases permitted_or_refused rules style l with ⟨type, entries, rfl, h⟩ | ⟨err, h⟩
    · rw [renderBy_of_permitted h] at hr
      cases hr
      exact ⟨type, entries, rfl, h, rfl⟩
    · rw [renderBy_of_refused h] at hr
      cases hr
  · rintro ⟨type, entries, rfl, h, rfl⟩
    exact renderBy_of_permitted h

theorem renderBy_eq_error_iff {l : Literal} {err : RenderError} :
    l.renderBy rules style = .error err ↔ Refused rules style l err := by
  refine ⟨fun herr => ?_, renderBy_of_refused⟩
  rcases permitted_or_refused rules style l with ⟨type, entries, rfl, h⟩ | ⟨err', h⟩
  · rw [renderBy_of_permitted h] at herr
    cases herr
  · rw [renderBy_of_refused h] at herr
    cases herr
    exact h

end

/-- **A literal is rendered exactly when it is a table whose type may be written, all parts of whose entries may be
written, and whose entries are expressions; and then as what is written for them, by the same keys in the same order.
Otherwise the error is the first violation.** -/
theorem renderBy_exact (rules : Rules) (style : Style) (l : Literal) :
    (∀ r, l.renderBy rules style = .ok r ↔ ∃ type entries, l = .map type entries ∧
      TablePermitted rules style type entries ∧
        r = ⟨style.strippedType type, entries.map fun e => (e.1, e.2.written style)⟩) ∧
    ∀ err, l.renderBy rules style = .error err ↔ Refused rules style l err :=
  ⟨fun _ => renderBy_eq_ok_iff, fun _ => renderBy_eq_error_iff⟩

/-- The path of a record is wrong before its field, and both are before the table in it and the text of the next entry. -/
example : (Literal.map "T" [("k", .record "a b" [("1", .map "U" [])] false), ("l", .path "try")]).renderBy Target.rules
    ⟨none, []⟩ = .error (.invalidName "a b") := by
  decide +kernel

end DefTable.Literal
