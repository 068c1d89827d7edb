import DefTable.Proofs.CanonicalForm

/-!
# What names stand for

A walk through a tree in the order of its source (`Node.walk`) comes across definitions, which it numbers, and
references. What a reference stands for is told by the names that are visible where it stands: a local definition is
visible in its own body, in the definitions behind it and in its query, and parameters are visible in the body of their
definition; of the visible names that fit, the innermost and latest one counts. Minification leaves the walk as it is
(`resolution_minify`): what was inside of parentheses is visited with the same names visible, since the outer local
definitions stay in front of the inner ones.
-/

namespace DefTable

/-! ## Visible names -/

/-- Where a name is introduced: the definition with a number, or a parameter of it. -/
inductive Site where
  | definition (number : Nat)
  | parameter (number index : Nat)
deriving DecidableEq, Repr

/-- A visible name, with the number of arguments that it takes. -/
structure Visible where
  name : String
  arity : Nat
  site : Site
deriving DecidableEq, Repr

/-- What a walk comes across. -/
inductive Occurrence where
  | definition (number : Nat) (name : String) (params : List String)
  /-- A name in use; it is free if it has no site. -/
  | reference (name : String) (arity : Nat) (site : Option Site)
deriving DecidableEq, Repr

/-- Where a walk stands: the visible names, the innermost and latest one first, and how many definitions were passed. -/
structure Stand where
  visible : List Visible
  passed : Nat
deriving DecidableEq, Repr

/-- What a name stands for in front of arguments. -/
def Stand.resolve (s : Stand) (name : String) (arity : Nat) : Option Site :=
  (s.visible.find? fun v => v.name = name ∧ v.arity = arity).map Visible.site

/-! ## Walks -/

/-- What is come across from a place on, and where that leads. -/
def Walk := Stand → List Occurrence × Stand

namespace Walk

/-- Nothing on the way. -/
def stay : Walk :=
  fun s => ([], s)

/-- One walk and then another. -/
def andThen (v w : Walk) : Walk :=
  fun s => ((v s).1 ++ (w (v s).2).1, (w (v s).2).2)

instance : Append Walk := ⟨andThen⟩

/-- A walk behind which only the names from before it are visible. -/
def inside (w : Walk) : Walk :=
  fun s => ((w s).1, ⟨s.visible, (w s).2.passed⟩)

/-- A name in use. -/
def reference (name : String) (arity : Nat) : Walk :=
  fun s => ([.reference name arity (s.resolve name arity)], s)

/-- The names that are constants. -/
def constants : List String :=
  [".", "..", "null", "true", "false"]

/-- The name that a query keeps, unless there is none or it is a constant. -/
def ofFunc (func : String) : Walk :=
  if func = "" ∨ func ∈ constants then stay else reference func 0

/-- The parameters of the definition with a number, which take no arguments; the last one counts first. -/
def parameters (number : Nat) (params : List String) : List Visible :=
  (params.mapIdx fun i name => ⟨name, 0, .parameter number i⟩).reverse

/-- A definition, which is visible from there on, in its own body too. -/
def definition (name : String) (params : List String) (body : Walk) : Walk :=
  fun s =>
    let visible := ⟨name, params.length, .definition s.passed⟩ :: s.visible
    let inner := body ⟨parameters s.passed params ++ visible, s.passed + 1⟩
    (.definition s.passed name params :: inner.1, ⟨visible, inner.2.passed⟩)

@[simp] theorem stay_append (w : Walk) : stay ++ w = w := by
  funext s
  exact Prod.ext (List.nil_append _) rfl

@[simp] theorem append_stay (w : Walk) : w ++ stay = w := by
  funext s
  exact Prod.ext (List.append_nil _) rfl

theorem append_assoc (u v w : Walk) : u ++ v ++ w = u ++ (v ++ w) := by
  funext s
  exact Prod.ext (List.append_assoc _ _ _) rfl

/-- Names that are forgotten in the end may be forgotten later. -/
theorem inside_append_inside (v w : Walk) : inside (v ++ inside w) = inside (v ++ w) := rfl

@[simp] theorem ofFunc_empty : ofFunc "" = stay := rfl

theorem ofFunc_constant {name : String} (h : name ∈ constants) : ofFunc name = stay :=
  if_pos (.inr h)

end Walk

/-! ## Trees -/

namespace Node

variable {s : Shape}

/-- The walk through a tree, in the order of its source. -/
@[simp] def walk {s : Shape} : Node s → Walk
  | .definition name params b => Walk.definition name params b.walk
  | .query ds t l _ r func => Walk.inside (ds.walk ++ (t.walk ++ l.walk ++ r.walk ++ Walk.ofFunc func))
  | .term _ i c o a _ u _ x cond att red fore lab _ q ss =>
    i.walk ++ c.walk ++ o.walk ++ a.walk ++ u.walk ++ x.walk ++ cond.walk ++ att.walk ++ red.walk ++ fore.walk ++
      lab.walk ++ q.walk ++ ss.walk
  | .index _ x start stop _ => x.walk ++ start.walk ++ stop.walk
  | .call name args => Walk.reference name args.toList.length ++ args.walk
  | .text _ parts => parts.walk
  | .object es => es.walk
  | .entry _ x q v => x.walk ++ q.walk ++ v.walk
  | .array q => q.walk
  | .unary _ t => t.walk
  | .suffix i _ _ b => i.walk ++ b.walk
  | .binding ps b => ps.walk ++ b.walk
  | .pattern _ a o => a.walk ++ o.walk
  | .patternEntry _ x q v => x.walk ++ q.walk ++ v.walk
  | .conditional c t es e => c.walk ++ t.walk ++ es.walk ++ e.walk
  | .branch c t => c.walk ++ t.walk
  | .attempt b h => b.walk ++ h.walk
  | .reduce t p start update => t.walk ++ p.walk ++ start.walk ++ update.walk
  | .foreach t p start update e => t.walk ++ p.walk ++ start.walk ++ update.walk ++ e.walk
  | .label _ b => b.walk
  | .nil => Walk.stay
  | .cons n ns => n.walk ++ ns.walk
  | .absent => Walk.stay
  | .present n => n.walk

/-- The definitions and references of a tree in the order of the source, each reference with what it stands for where
the given names are visible from outside. -/
def occurrences (outside : List Visible) (n : Node s) : List Occurrence :=
  (n.walk ⟨outside, 0⟩).1

theorem walk_append : ∀ as bs : Node (.list s), (as.append bs).walk = as.walk ++ bs.walk
  | .nil, bs => by rw [append, walk, Walk.stay_append]
  | .cons n as, bs => by rw [append, walk, walk, walk_append as bs, Walk.append_assoc]

/-- Local definitions in front of those of a query are visited before it. -/
theorem walk_withDefs (ds : Node (.list .definition)) : ∀ q : Query,
    (Query.withDefs ds q).walk = Walk.inside (ds.walk ++ q.walk)
  | .query own t l op r func => by
    rw [Query.withDefs, walk, walk, walk_append, Walk.append_assoc, Walk.inside_append_inside]

/-! ## Rewriting -/

section
variable {f : Query → Query}

/-- A rewriting leaves the walk alone if it does so at the queries of a parsed tree. -/
theorem walk_rebuild
    (hf : ∀ {ds t l r op func}, (query ds t l op r func).Everywhere WellBuilt →
      (f (query (ds.rebuild f) (t.rebuild f) (l.rebuild f) op (r.rebuild f) func)).walk =
        (query (ds.rebuild f) (t.rebuild f) (l.rebuild f) op (r.rebuild f) func).walk)
    {n : Node s} (h : n.Everywhere WellBuilt) : (n.rebuild f).walk = n.walk := by
  induction n with
  | query ds t l op r func hds ht hl hr =>
    rw [rebuild, hf h, walk, walk, hds h.2.1, ht h.2.2.1, hl h.2.2.2.1, hr h.2.2.2.2]
  | call name args hargs =>
    have hlength : (args.rebuild f).toList.length = args.toList.length := by rw [toList_rebuild, List.length_map]
    rw [rebuild, walk, walk, hlength, hargs h.2]
  | _ => simp_all

theorem rebuild_ofFuncName (name : String) : (Term.ofFuncName name).rebuild f = Term.ofFuncName name := by
  unfold Term.ofFuncName
  split
  · rfl
  · rfl
  · unfold Grammar.bareName
    split <;> rfl

end

theorem walk_constant (kind : TermKind) {name : String} (h : name ∈ Walk.constants) :
    (Term.ofKind kind).walk = Walk.ofFunc name := by
  rw [Walk.ofFunc_constant h]
  simp [Term.ofKind]

/-- The term that a name abbreviates is visited as the name is. -/
theorem walk_ofFuncName {name : String} (hne : name ≠ "") : (Term.ofFuncName name).walk = Walk.ofFunc name := by
  unfold Term.ofFuncName
  split
  · exact walk_constant _ (by simp [Walk.constants])
  · exact walk_constant _ (by simp [Walk.constants])
  · next hdot hdots =>
    unfold Grammar.bareName
    split
    · exact walk_constant _ (by simp [Walk.constants])
    · exact walk_constant _ (by simp [Walk.constants])
    · exact walk_constant _ (by simp [Walk.constants])
    · next hnull htrue hfalse =>
      have hname : ¬ (name = "" ∨ name ∈ Walk.constants) := by simp_all [Walk.constants]
      rw [Walk.ofFunc, if_neg hname]
      simp [Term.ofCall, ofList]

/-- A well-formed term in parentheses is nothing but them and the query inside. -/
theorem eq_ofQuery {t : Term} {q : Query} (ht : t.Everywhere WellBuilt) (h : Term.parenthesized? t = some q) :
    t = Term.ofQuery q := by
  cases t with
  | term kind i c o a num u fmt x cond att red fore lab brk inner ss =>
    rw [Term.parenthesized?] at h
    split at h
    · next hkind =>
      obtain ⟨rfl, hss⟩ := hkind
      obtain rfl := eq_nil_of_isEmpty.1 hss
      obtain rfl := toOption_eq_some h
      have hpayload := ht.1.1.1
      simp_all [Term.ofQuery]
    · cases h

theorem walk_unwrap_rebuild {ds : Node (.list .definition)} {t : Node (.optional .term)}
    {l r : Node (.optional .query)} {op : Option Operator} {func : String}
    (h : (query ds t l op r func).Everywhere WellBuilt) :
    let q := query (ds.rebuild Query.unwrap) (t.rebuild Query.unwrap) (l.rebuild Query.unwrap) op
      (r.rebuild Query.unwrap) func
    (Query.unwrap q).walk = q.walk := by
  intro q
  unfold Query.unwrap
  split
  · next inner hinner =>
    simp only [q, Query.enclosed?] at hinner
    split at hinner
    · next hrest =>
      obtain ⟨hl, -, hr, rfl⟩ := hrest
      obtain ⟨t', ht', hp⟩ := Option.bind_eq_some_iff.1 hinner
      have ht' := toOption_eq_some ht'
      cases t with
      | absent => cases ht'
      | present t =>
        obtain rfl := present.inj ht'
        rw [Term.parenthesized?_rebuild] at hp
        obtain ⟨own, hown, rfl⟩ := Option.map_eq_some_iff.1 hp
        -- the term is the parentheses alone, so the walk through it is the one through the query inside
        have ht : t = Term.ofQuery own := eq_ofQuery h.2.2.1 hown
        have hterm : ((present t).rebuild Query.unwrap).walk = (own.rebuild Query.unwrap).walk := by
          rw [ht]
          simp [Term.ofQuery]
        rw [walk_withDefs, walk, hterm, hl, hr]
        simp
        rfl
    · cases hinner
  · rfl

theorem walk_abbreviate_rebuild {ds : Node (.list .definition)} {t : Node (.optional .term)}
    {l r : Node (.optional .query)} {op : Option Operator} {func : String}
    (h : (query ds t l op r func).Everywhere WellBuilt) :
    let q := query (ds.rebuild Query.abbreviate) (t.rebuild Query.abbreviate) (l.rebuild Query.abbreviate) op
      (r.rebuild Query.abbreviate) func
    (Query.abbreviate q).walk = q.walk := by
  intro q
  simp only [q, Query.abbreviate]
  split
  · next name hname =>
    obtain ⟨t', ht', hname⟩ := Option.bind_eq_some_iff.1 hname
    have ht' := toOption_eq_some ht'
    cases t with
    | absent => cases ht'
    | present t =>
      obtain rfl := present.inj ht'
      rw [Term.funcName?_rebuild] at hname
      obtain ⟨⟨hproper, -⟩, -, ht, -, -⟩ := h
      obtain ⟨-, rfl, rfl, rfl, rfl⟩ | ⟨hterm, -⟩ | ⟨hmin, -⟩ := hproper
      · have hwell : t.Everywhere WellMinified :=
          Everywhere.imp (fun _ h => ⟨proper_of_proper_false h.1, h.2⟩) ht
        have hterm : ((present t).rebuild Query.abbreviate).walk = Walk.ofFunc name := by
          rw [eq_ofFuncName ht hname, rebuild, rebuild_ofFuncName, walk,
            walk_ofFuncName (funcName?_ne_empty hwell hname)]
        rw [walk, walk, hterm]
        simp
      · cases hterm
      · cases hmin
  · rfl

/-- Neither of the two steps of minification changes the walk. -/
theorem walk_minify {n : Node s} (h : n.Everywhere WellBuilt) : n.minify.walk = n.walk := by
  have herase : n.erase.walk = n.walk := walk_rebuild walk_unwrap_rebuild h
  have habbreviate : n.erase.abbreviate.walk = n.erase.walk := walk_rebuild walk_abbreviate_rebuild (wellBuilt_erase h)
  rw [minify_eq (termAlone_of_wellBuilt h), habbreviate, herase]

/-- Definitions that follow one another are walked through as before when each of them is minified. -/
theorem walk_map_minify : ∀ {ds : List (Node s)}, (∀ d ∈ ds, d.Everywhere WellBuilt) →
    (ofList (ds.map minify)).walk = (ofList ds).walk
  | [], _ => rfl
  | d :: ds, h => by
    obtain ⟨hd, hds⟩ := List.forall_mem_cons.1 h
    rw [List.map_cons, ofList, ofList, walk, walk, walk_minify hd, walk_map_minify hds]

end Node

/-- **Minification preserves what names stand for.** In the minified query the same definitions and references follow
one another as in the parsed one, and every reference stands for the same definition or parameter, or is free again,
whatever names are visible from outside. So it is with parsed definitions, one by one and behind one another. -/
theorem resolution_minify :
    (∀ {source : String} {q : Query}, Query.parse source = .ok q → ∀ outside : List Visible,
      q.minify.occurrences outside = q.occurrences outside) ∧
    ∀ {source : String} {ds : List Definition}, Definition.parseAll source = .ok ds → ∀ outside : List Visible,
      (∀ d ∈ ds, d.minify.occurrences outside = d.occurrences outside) ∧
        (Node.ofList (ds.map Node.minify)).occurrences outside = (Node.ofList ds).occurrences outside := by
  constructor
  · intro source q h outside
    rw [Node.occurrences, Node.occurrences, Node.walk_minify (Query.wellBuilt_of_parse h)]
  · intro source ds h outside
    have hwell := Definition.wellBuilt_of_parseAll h
    refine ⟨fun d hd => ?_, ?_⟩
    · rw [Node.occurrences, Node.occurrences, Node.walk_minify (hwell d hd)]
    · rw [Node.occurrences, Node.occurrences, Node.walk_map_minify hwell]

/-- A definition in parentheses that uses an outer one of its name, which it hides from what follows; and a definition
that uses the one in front of it. -/
theorem resolution_minify_shadowed :
    (∃ q, Query.parse "def f: 1; (def g: f; def f(f): f; (g | f(f)) | null)" = .ok q ∧
      q.minify.occurrences [] = q.occurrences [] ∧
      q.occurrences [] =
        [.definition 0 "f" [], .definition 1 "g" [], .reference "f" 0 (some (.definition 0)),
          .definition 2 "f" ["f"], .reference "f" 0 (some (.parameter 2 0)),
          .reference "g" 0 (some (.definition 1)), .reference "f" 1 (some (.definition 2)),
          .reference "f" 0 (some (.definition 0))]) ∧
    ∃ ds, Definition.parseAll "def f: 1; def g: (f);" = .ok ds ∧
      (Node.ofList (ds.map Node.minify)).occurrences [] = (Node.ofList ds).occurrences [] ∧
      (Node.ofList ds).occurrences [] =
        [.definition 0 "f" [], .definition 1 "g" [], .reference "f" 0 (some (.definition 0))] := by
  have hparse : (Query.parse "def f: 1; (def g: f; def f(f): f; (g | f(f)) | null)").toOption.map
      (fun q => q.occurrences []) =
        some [.definition 0 "f" [], .definition 1 "g" [], .reference "f" 0 (some (.definition 0)),
          .definition 2 "f" ["f"], .reference "f" 0 (some (.parameter 2 0)),
          .reference "g" 0 (some (.definition 1)), .reference "f" 1 (some (.definition 2)),
          .reference "f" 0 (some (.definition 0))] := by decide +kernel
  have hparseAll : (Definition.parseAll "def f: 1; def g: (f);").toOption.map
      (fun ds => (Node.ofList ds).occurrences []) =
        some [.definition 0 "f" [], .definition 1 "g" [], .reference "f" 0 (some (.definition 0))] := by decide +kernel
  obtain ⟨q, hq, hoccurrences⟩ := Option.map_eq_some_iff.1 hparse
  obtain ⟨ds, hds, hoccurrences'⟩ := Option.map_eq_some_iff.1 hparseAll
  have hq := Grammar.ok_of_toOption hq
  have hds := Grammar.ok_of_toOption hds
  exact ⟨⟨q, hq, resolution_minify.1 hq [], hoccurrences⟩, ds, hds, (resolution_minify.2 hds []).2, hoccurrences'⟩

end DefTable
