import DefTable.Grammar
import DefTable.Proofs.NormalForm

/-!
# Minification as rewriting

Minification does two things, one after the other and each from the innermost query outwards: it drops parentheses that
enclose all of a query (`Node.erase`), and it keeps just the name of queries that are a constant or a call without
arguments (`Node.abbreviate`). The minifier itself goes from the outside in and starts again where it drops parentheses;
that it comes to the same is `Node.minify_eq`. What it rests on is that local definitions may be put in front of a query
before or after minification (`Node.minify_withDefs`), since minified definitions stay as they are.
-/

namespace DefTable

/-! ## The rewritings -/

/-- The term that a name abbreviates. -/
def Term.ofFuncName : String → Term
  | "." => Term.ofKind .identity
  | ".." => Term.ofKind .recurse
  | name => Grammar.bareName name

namespace Query

/-- The local definitions of a query. -/
def defs : Query → Node (.list .definition)
  | .query ds _ _ _ _ _ => ds

/-- The query in the parentheses that all of a query consists of, besides its local definitions. -/
def enclosed? : Query → Option Query
  | .query _ t l op r func =>
    if l = .absent ∧ op = none ∧ r = .absent ∧ func = "" then t.toOption.bind Term.parenthesized? else none

/-- A query in parentheses becomes the query inside, with the outer local definitions in front of the inner ones. -/
def unwrap (q : Query) : Query :=
  match enclosed? q with
  | some inner => withDefs (defs q) inner
  | none => q

/-- A query that is a constant or a call without arguments keeps just its name. -/
def abbreviate : Query → Query
  | .query ds t l op r func =>
    match t.toOption.bind Term.funcName? with
    | some name => .query ds .absent l op r name
    | none => .query ds t l op r func

/-- A name becomes the term that it abbreviates. -/
def spellOut : Query → Query
  | .query ds t l op r func =>
    if func = "" then .query ds t l op r func
    else .query ds (.present (Term.ofFuncName func)) l op r ""

theorem withDefs_withDefs (as bs : Node (.list .definition)) :
    ∀ q : Query, withDefs as (withDefs bs q) = withDefs (as.append bs) q
  | .query own t l op r func => by rw [withDefs, withDefs, withDefs, Node.append_assoc]

theorem abbreviate_withDefs (ds : Node (.list .definition)) :
    ∀ q : Query, abbreviate (withDefs ds q) = withDefs ds (abbreviate q)
  | .query own t l op r func => by
    rw [withDefs, abbreviate, abbreviate]
    split <;> rfl

end Query

namespace Node

variable {s : Shape}

/-- The tree without the parentheses that enclose all of a query. -/
def erase (n : Node s) : Node s :=
  n.rebuild Query.unwrap

/-- The tree with just the name of every query that is a constant or a call without arguments. -/
def abbreviate (n : Node s) : Node s :=
  n.rebuild Query.abbreviate

/-- The tree with the term that it abbreviates for every name. -/
def expand (n : Node s) : Node s :=
  n.rebuild Query.spellOut

end Node

/-! ## Terms under rewriting -/

namespace Term

variable {f : Query → Query}

theorem funcName?_rebuild : ∀ t : Term, funcName? (Node.rebuild f t) = funcName? t
  | .term kind i c o a num u fmt x cond att red fore lab brk q ss => by
    have hcall : (c.rebuild f).toOption.bind Node.bareName? = c.toOption.bind Node.bareName? := by
      cases c with
      | absent => rfl
      | present c =>
        cases c with
        | call name args => cases args <;> rfl
    have hsuffixes : (ss.rebuild f).isEmpty = ss.isEmpty := by cases ss <;> rfl
    cases kind <;> simp only [Node.rebuild, funcName?, hsuffixes, hcall]

theorem parenthesized?_rebuild : ∀ t : Term,
    parenthesized? (Node.rebuild f t) = (parenthesized? t).map (Node.rebuild f)
  | .term kind i c o a num u fmt x cond att red fore lab brk q ss => by
    have hsuffixes : (ss.rebuild f).isEmpty = ss.isEmpty := by cases ss <;> rfl
    have hquery : (q.rebuild f).toOption = q.toOption.map (Node.rebuild f) := by cases q <;> rfl
    rw [Node.rebuild, parenthesized?, parenthesized?, hsuffixes, hquery]
    split <;> rfl

theorem parenthesized?_minify : ∀ t : Term, parenthesized? t.minify = (parenthesized? t).map Node.minify
  | .term kind i c o a num u fmt x cond att red fore lab brk q ss => by
    have hsuffixes : ss.minify.isEmpty = ss.isEmpty := by cases ss <;> simp [Node.isEmpty]
    have hquery : q.minify.toOption = q.toOption.map Node.minify := by cases q <;> simp [Node.toOption]
    rw [Node.minify_term, parenthesized?, parenthesized?, hsuffixes, hquery]
    split <;> rfl

/-- A term in parentheses has no name. -/
theorem funcName?_of_parenthesized {t : Term} {q : Query} (h : parenthesized? t = some q) : funcName? t = none := by
  cases t with
  | term kind i c o a num u fmt x cond att red fore lab brk inner ss =>
    rw [parenthesized?] at h
    split at h
    · next hkind =>
      obtain ⟨rfl, hss⟩ := hkind
      simp only [funcName?, if_pos hss]
    · cases h

end Term

/-! ## Minification in two steps -/

namespace Node

variable {s : Shape}

theorem minify_append : ∀ as bs : Node (.list s), (as.append bs).minify = as.minify.append bs.minify
  | .nil, bs => by rw [append, minify_nil, append]
  | .cons n as, bs => by rw [append, minify_cons, minify_append as bs, minify_cons, append]

theorem minify_minify {n : Node s} (h : n.Everywhere Unmixed) : n.minify.minify = n.minify :=
  minify_of_isNormal (isNormal_minify h)

/-- **Local definitions may be put in front of a query before or after minification.** -/
theorem minify_withDefs {ds : Node (.list .definition)} {q : Query} (hds : ds.Everywhere Unmixed)
    (hq : q.Everywhere Unmixed) : (Query.withDefs ds q).minify = Query.withDefs ds.minify q.minify := by
  induction hk : q.size using Nat.strongRecOn generalizing ds q with
  | ind k ih =>
    subst hk
    replace ih : ∀ {ds : Node (.list .definition)} {inner : Query}, inner.size < q.size → ds.Everywhere Unmixed →
        inner.Everywhere Unmixed → (Query.withDefs ds inner).minify = Query.withDefs ds.minify inner.minify :=
      fun hlt hds hinner => ih _ hlt hds hinner rfl
    cases q with
    | query own t l op r func =>
      obtain ⟨-, hown, ht, -, -⟩ := hq
      rw [Query.withDefs]
      cases t with
      | absent => rw [minify_query_absent, minify_query_absent, minify_append, Query.withDefs]
      | present t =>
        cases hname : Term.funcName? t with
        | some name =>
          rw [minify_query_name _ _ _ _ _ hname, minify_query_name _ _ _ _ _ hname, minify_append, Query.withDefs]
        | none =>
          cases hp : Term.parenthesized? t with
          | none =>
            rw [minify_query_term _ _ _ _ _ hname hp, minify_query_term _ _ _ _ _ hname hp, minify_append,
              Query.withDefs]
          | some inner =>
            have hlt : inner.size < (query own (.present t) l op r func).size := by
              have := size_parenthesized_lt hp
              simp only [size]
              omega
            have hinner : inner.Everywhere Unmixed := everywhere_parenthesized hp ht
            have hall : (ds.append own).Everywhere Unmixed := everywhere_append.2 ⟨hds, hown⟩
            rw [minify_query_parenthesized _ _ _ _ _ hname hp, minify_query_parenthesized _ _ _ _ _ hname hp,
              ih hlt (isNormal_minify hall).unmixed hinner, ih hlt (isNormal_minify hown).unmixed hinner,
              minify_minify hall, minify_minify hown, minify_append, Query.withDefs_withDefs]

/-- A query with a term has nothing else, besides local definitions. -/
def TermAlone {s : Shape} : Node s → Prop
  | .query _ t l op r func => t = .absent ∨ l = .absent ∧ op = none ∧ r = .absent ∧ func = ""
  | _ => True

theorem TermAlone.unmixed {n : Node s} (h : n.TermAlone) : n.Unmixed := by
  cases n with
  | query => exact h.imp_right fun h => ⟨h.1, h.2.2.1⟩
  | _ => trivial

/-- **Minification is the removal of parentheses, and abbreviation behind it.** -/
theorem minify_eq {n : Node s} (h : n.Everywhere TermAlone) : n.minify = n.erase.abbreviate := by
  unfold erase abbreviate
  induction n with
  | query ds t l op r func hds ht hl hr =>
    have hunmixed := Everywhere.imp (fun _ => TermAlone.unmixed) h
    obtain ⟨halone, hd, hterm, hleft, hright⟩ := h
    have hds := hds hd
    cases t with
    | absent =>
      have hnone : Query.enclosed? (query (ds.rebuild Query.unwrap) .absent (l.rebuild Query.unwrap) op
          (r.rebuild Query.unwrap) func) = none := by
        rw [Query.enclosed?]
        split <;> rfl
      rw [minify_query_absent, hds, hl hleft, hr hright, rebuild, rebuild, Query.unwrap, hnone]
      rfl
    | present t =>
      obtain ⟨rfl, rfl, rfl, rfl⟩ : l = .absent ∧ op = none ∧ r = .absent ∧ func = "" := by
        simpa [TermAlone] using halone
      have ht : t.minify = (t.rebuild Query.unwrap).rebuild Query.abbreviate := by
        have ht := ht hterm
        rw [minify_present] at ht
        exact Node.present.inj ht
      have henclosed : ∀ ds' : Node (.list .definition),
          Query.enclosed? (query ds' (.present (t.rebuild Query.unwrap)) .absent none .absent "") =
            (Term.parenthesized? t).map (rebuild Query.unwrap) := fun ds' => by
        rw [Query.enclosed?, if_pos ⟨rfl, rfl, rfl, rfl⟩, toOption, Option.bind_some, Term.parenthesized?_rebuild]
      simp only [rebuild, Query.unwrap, henclosed]
      cases hname : Term.funcName? t with
      | some name =>
        have hp : Term.parenthesized? t = none := by
          cases hp : Term.parenthesized? t with
          | none => rfl
          | some q =>
            rw [Term.funcName?_of_parenthesized hp] at hname
            cases hname
        rw [minify_query_name _ _ _ _ _ hname, hp, hds]
        simp only [Option.map_none, rebuild, Query.abbreviate, toOption, Option.bind_some, Term.funcName?_rebuild, hname]
      | none =>
        cases hp : Term.parenthesized? t with
        | none =>
          rw [minify_query_term _ _ _ _ _ hname hp, hds, ht]
          simp only [Option.map_none, rebuild, Query.abbreviate, toOption, Option.bind_some, Term.funcName?_rebuild,
            hname]
        | some q =>
          have hq : q.minify = (q.rebuild Query.unwrap).rebuild Query.abbreviate := by
            have h := congrArg Term.parenthesized? ht
            rw [Term.parenthesized?_minify, Term.parenthesized?_rebuild, Term.parenthesized?_rebuild, hp] at h
            exact Option.some.inj h
          have hinner : q.Everywhere Unmixed := everywhere_parenthesized hp hunmixed.2.2.1
          rw [minify_query_parenthesized _ _ _ _ _ hname hp,
            minify_withDefs (isNormal_minify hunmixed.2.1).unmixed hinner, minify_minify hunmixed.2.1, hds, hq]
          exact (rebuild_withDefs Query.abbreviate_withDefs _ _).symm
  | _ => simp_all [Everywhere, rebuild]

end Node
end DefTable
