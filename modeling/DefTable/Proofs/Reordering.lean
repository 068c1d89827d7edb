import DefTable.Proofs.GroupedDefinitions
import DefTable.Proofs.OperatorParsing

/-!
# The order of definitions

The generated file depends on the order of definitions only as far as they have the same name (`generate_rearranged`).
The definitions go through a table whose own order is of no account: tables of the same content have the same literal
(`literal_eq_of_get?_eq`).
-/

namespace DefTable

/-! ## Literals of tables -/

section
variable {α : Type} [LiteralForm α]

theorem literal_table (t : Table α) :
    literal t = .map (tableTypeName (typeName α)) (t.sorted.map fun e => (e.1, literal e.2)) :=
  rfl

/-- **Tables of the same content have the same literal**, in whatever order they list their entries. -/
theorem literal_eq_of_get?_eq {t u : Table α} (h : ∀ key, t.get? key = u.get? key) : literal t = literal u := by
  rw [literal_table, literal_table, Table.sorted_eq_of_get?_eq h]

end

/-! ## Rearranged definitions -/

namespace Definition

/-- The same definitions in another order, where those of one name follow each other as before. -/
structure Rearranged (ds es : List Definition) : Prop where
  perm : ds.Perm es
  named_eq : ∀ n, named n ds = named n es

/-- Definitions of different names can change places. -/
theorem rearranged_swap {d e : Definition} (h : d.name ≠ e.name) (ds : List Definition) :
    Rearranged (d :: e :: ds) (e :: d :: ds) where
  perm := .swap e d ds
  named_eq n := by
    by_cases hd : d.name = n
    · subst hd
      have hne : e.name ≠ d.name := Ne.symm h
      rw [named_cons_self, named_cons_of_ne hne, named_cons_of_ne hne, named_cons_self]
    · by_cases he : e.name = n
      · subst he
        rw [named_cons_of_ne hd, named_cons_self, named_cons_self, named_cons_of_ne hd]
      · rw [named_cons_of_ne hd, named_cons_of_ne he, named_cons_of_ne he, named_cons_of_ne hd]

theorem name_minify (d : Definition) : name d.minify = d.name := by
  cases d with
  | definition n params body => rw [Node.minify_definition]; rfl

theorem named_map_minify (n : String) (ds : List Definition) :
    named n (ds.map Node.minify) = (named n ds).map Node.minify := by
  have hname : (fun d : Definition => decide (d.name = n)) ∘ Node.minify = fun d : Definition => decide (d.name = n) := by
    funext d
    rw [Function.comp_apply, name_minify]
  rw [named, List.filter_map, hname, named]

theorem Rearranged.map_minify {ds es : List Definition} (h : Rearranged ds es) :
    Rearranged (ds.map Node.minify) (es.map Node.minify) where
  perm := h.perm.map Node.minify
  named_eq n := by rw [named_map_minify, named_map_minify, h.named_eq n]

/-- Rearranged definitions make tables of the same content. -/
theorem Rearranged.get?_group {ds es : List Definition} (h : Rearranged ds es) (n : String) :
    (group ds).get? n = (group es).get? n := by
  have hmem : n ∈ ds.map name ↔ n ∈ es.map name := (h.perm.map name).mem_iff
  rw [Definition.get?_group, Definition.get?_group, h.named_eq n]
  exact if_congr hmem rfl rfl

end Definition

open Definition (Rearranged)

theorem Settings.fileOf_rearranged (s : Settings) (rules : Rules) {ds es : List Definition} (h : Rearranged ds es) :
    s.fileOf rules ds = s.fileOf rules es := by
  have hliteral : literal (Definition.group ds) = literal (Definition.group es) :=
    literal_eq_of_get?_eq h.get?_group
  have htable : s.renderTable rules ds = s.renderTable rules es := congrArg (Literal.renderBy rules s.style) hliteral
  rw [fileOf, fileOf, htable]

/-- **Only the order of definitions of one name shows in the generated file.** Sources whose definitions are rearranged
without changing that order have the same generated file, or the same error, under all settings and rules of the
language. And a table of any values has the same literal as every other one of its content: its entries in the order in
which the keys increase. -/
theorem generate_rearranged :
    (∀ {source source' : String} {ds es : List Definition}, Definition.parseAll source = .ok ds →
      Definition.parseAll source' = .ok es → Rearranged ds es →
        ∀ (s : Settings) (rules : Rules), s.generate rules source = s.generate rules source') ∧
      ∀ {α : Type} [LiteralForm α] (t : Table α),
        (∀ u : Table α, (∀ key, u.get? key = t.get? key) → literal u = literal t) ∧
          ∀ es : List (String × α), (es.Pairwise fun a b => a.1 < b.1) → es.Perm t.entries →
            literal t = .map (tableTypeName (typeName α)) (es.map fun e => (e.1, literal e.2)) := by
  constructor
  · intro source source' ds es hsource hsource' h s rules
    have hfile := s.fileOf_rearranged rules h.map_minify
    rw [Settings.generate, Settings.generate, hsource, hsource']
    simp only [hfile]
  · intro α _ t
    refine ⟨fun u h => literal_eq_of_get?_eq h, fun es hes hperm => ?_⟩
    rw [literal_table, Table.sorted_eq_of_perm hes hperm]

/-- Two definitions of one name, with another definition between them or in front of them. -/
theorem generate_rearranged_overloads :
    ∃ ds es, Definition.parseAll "def f: 1; def g: .; def f(x): (x);" = .ok ds ∧
      Definition.parseAll "def g: .; def f: 1; def f(x): (x);" = .ok es ∧ Rearranged ds es ∧
      Settings.default.generate Target.rules "def f: 1; def g: .; def f(x): (x);" =
        Settings.default.generate Target.rules "def g: .; def f: 1; def f(x): (x);" := by
  have hds : (Definition.parseAll "def f: 1; def g: .; def f(x): (x);").toOption =
      some [.definition "f" [] (Query.ofTerm (Term.ofNumber "1")),
        .definition "g" [] (Query.ofTerm (Term.ofKind .identity)),
        .definition "f" ["x"] (Query.ofTerm (Term.ofQuery (Query.ofTerm (Term.ofCall "x" []))))] := by
    decide +kernel
  have hes : (Definition.parseAll "def g: .; def f: 1; def f(x): (x);").toOption =
      some [.definition "g" [] (Query.ofTerm (Term.ofKind .identity)),
        .definition "f" [] (Query.ofTerm (Term.ofNumber "1")),
        .definition "f" ["x"] (Query.ofTerm (Term.ofQuery (Query.ofTerm (Term.ofCall "x" []))))] := by
    decide +kernel
  have hds := Grammar.ok_of_toOption hds
  have hes := Grammar.ok_of_toOption hes
  have hnames : ("f" : String) ≠ "g" := by decide
  have hrearranged := Definition.rearranged_swap (d := .definition "f" [] (Query.ofTerm (Term.ofNumber "1")))
    (e := .definition "g" [] (Query.ofTerm (Term.ofKind .identity))) hnames
    [.definition "f" ["x"] (Query.ofTerm (Term.ofQuery (Query.ofTerm (Term.ofCall "x" []))))]
  exact ⟨_, _, hds, hes, hrearranged, generate_rearranged.1 hds hes hrearranged Settings.default Target.rules⟩

end DefTable
