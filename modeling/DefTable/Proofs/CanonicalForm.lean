import DefTable.Proofs.WellFormedTrees

/-!
# The canonical form of a query

What minification comes to for parsed trees. It is idempotent and ends in the normal form (`minify_normal`). What it
drops is redundant parentheses and nothing else: a name tells which term it abbreviates (`Node.expand_abbreviate`), so
that the minified tree says as much as the tree without the parentheses (`minify_canonical`).
-/

namespace DefTable

namespace Node

variable {s : Shape}

/-! ## Names stand for their terms -/

@[simp] theorem given_eq_false : ∀ {n : Node (.optional s)}, n.given = false ↔ n = .absent
  | .absent => by simp
  | .present _ => by simp

/-- A well-formed term that has a name is the term that the name abbreviates. -/
theorem eq_ofFuncName {t : Term} {name : String} (ht : t.Everywhere WellBuilt) (h : Term.funcName? t = some name) :
    t = Term.ofFuncName name := by
  cases t with
  | term kind i c o a num u fmt x cond att red fore lab brk q ss =>
    simp only [Term.funcName?] at h
    split at h
    · next hss =>
      obtain rfl := eq_nil_of_isEmpty.1 hss
      have hpayload := ht.1.1.1
      split at h
      case h_6 =>
        obtain ⟨call, hcall, hname⟩ := Option.bind_eq_some_iff.1 h
        obtain rfl := toOption_eq_some hcall
        cases call with
        | call name' args =>
          rw [bareName?] at hname
          split at hname
          · next hargs =>
            obtain rfl := eq_nil_of_isEmpty.1 hargs
            cases hname
            have hnamed := ht.2.2.1.1.2.2 rfl
            simp only [List.mem_cons, List.not_mem_nil, or_false, not_or] at hnamed
            obtain ⟨hdot, hdots, hnull, htrue, hfalse⟩ := hnamed
            simp_all [Term.ofFuncName, Grammar.bareName, Term.ofCall, Node.ofList]
          · cases hname
      case h_7 => cases h
      all_goals
        cases h
        simp_all [Term.ofFuncName, Grammar.bareName, Term.ofKind]
    · cases h

/-- **Every name tells which term it abbreviates.** -/
theorem expand_abbreviate {n : Node s} (h : n.Everywhere WellBuilt) : n.abbreviate.expand = n := by
  unfold abbreviate expand
  induction n with
  | query ds t l op r func hds ht hl hr =>
    obtain ⟨⟨hproper, -⟩, hd, hterm, hleft, hright⟩ := h
    have hds := hds hd
    have ht := ht hterm
    have hl := hl hleft
    have hr := hr hright
    have hbind : (t.rebuild Query.abbreviate).toOption.bind Term.funcName? = t.toOption.bind Term.funcName? := by
      cases t with
      | absent => rfl
      | present t => exact Term.funcName?_rebuild t
    simp only [rebuild, Query.abbreviate, hbind]
    split
    · next name hname =>
      obtain ⟨t', ht', hname⟩ := Option.bind_eq_some_iff.1 hname
      obtain rfl := toOption_eq_some ht'
      have hwell : t'.Everywhere WellMinified :=
        Everywhere.imp (fun _ h => ⟨proper_of_proper_false h.1, h.2⟩) hterm
      obtain ⟨-, rfl, rfl, rfl, rfl⟩ | ⟨h, -⟩ | ⟨h, -⟩ := hproper
      · simp only [rebuild, Query.spellOut, if_neg (funcName?_ne_empty hwell hname), hds]
        rw [← eq_ofFuncName hterm hname]
      · cases h
      · cases h
    · have hfunc : func = "" := by
        obtain ⟨-, -, -, -, h⟩ | ⟨-, -, -, -, h⟩ | ⟨h, -⟩ := hproper
        · exact h
        · exact h
        · cases h
      simp only [rebuild, Query.spellOut, if_pos hfunc, hds, ht, hl, hr]
  | _ => simp_all

/-- The minified tree says as much as the tree without its redundant parentheses. -/
theorem expand_minify {n : Node s} (h : n.Everywhere WellBuilt) : n.minify.expand = n.erase := by
  rw [minify_eq (termAlone_of_wellBuilt h)]
  exact expand_abbreviate (wellBuilt_erase h)

theorem minify_eq_minify_iff {n m : Node s} (hn : n.Everywhere WellBuilt) (hm : m.Everywhere WellBuilt) :
    n.minify = m.minify ↔ n.erase = m.erase := by
  constructor
  · intro h
    rw [← expand_minify hn, ← expand_minify hm, h]
  · intro h
    rw [minify_eq (termAlone_of_wellBuilt hn), minify_eq (termAlone_of_wellBuilt hm), h]

end Node

/-! ## Parsed trees -/

/-- **Minification is a canonical form that loses nothing but redundant parentheses.** With its names spelled out, the
minified query is the parsed one without the parentheses that enclose all of a query; and two parsed queries are
minified to the same exactly if they are the same without those parentheses. So it is with parsed definitions. -/
theorem minify_canonical :
    (∀ {source source' : String} {q q' : Query}, Query.parse source = .ok q → Query.parse source' = .ok q' →
      q.minify.expand = q.erase ∧ (q.minify = q'.minify ↔ q.erase = q'.erase)) ∧
    ∀ {source source' : String} {ds ds' : List Definition}, Definition.parseAll source = .ok ds →
      Definition.parseAll source' = .ok ds' → ∀ d ∈ ds, ∀ d' ∈ ds',
        d.minify.expand = d.erase ∧ (d.minify = d'.minify ↔ d.erase = d'.erase) := by
  constructor
  · intro source source' q q' h h'
    have hq := Query.wellBuilt_of_parse h
    exact ⟨Node.expand_minify hq, Node.minify_eq_minify_iff hq (Query.wellBuilt_of_parse h')⟩
  · intro source source' ds ds' h h' d hd d' hd'
    have hwell := Definition.wellBuilt_of_parseAll h d hd
    exact ⟨Node.expand_minify hwell, Node.minify_eq_minify_iff hwell (Definition.wellBuilt_of_parseAll h' d' hd')⟩

/-- The same query with and without redundant parentheses, by itself and as the body of a definition. -/
theorem minify_canonical_sum :
    (∃ q q', Query.parse "(a) + (1 | .)" = .ok q ∧ Query.parse "a + (1 | (.))" = .ok q' ∧
      q.minify.expand = q.erase ∧ (q.minify = q'.minify ↔ q.erase = q'.erase)) ∧
    ∃ d d', Definition.parseAll "def f: (a);" = .ok [d] ∧ Definition.parseAll "def f: a;" = .ok [d'] ∧
      d.minify.expand = d.erase ∧ (d.minify = d'.minify ↔ d.erase = d'.erase) := by
  have h : Query.parse "(a) + (1 | .)" = .ok (Query.binary
      (Query.ofTerm (Term.ofQuery (Query.ofTerm (Term.ofCall "a" [])))) .add
      (Query.ofTerm (Term.ofQuery (Query.binary (Query.ofTerm (Term.ofNumber "1")) .pipe
        (Query.ofTerm (Term.ofKind .identity)))))) :=
    Grammar.ok_of_toOption (by decide +kernel)
  have h' : Query.parse "a + (1 | (.))" = .ok (Query.binary (Query.ofTerm (Term.ofCall "a" [])) .add
      (Query.ofTerm (Term.ofQuery (Query.binary (Query.ofTerm (Term.ofNumber "1")) .pipe
        (Query.ofTerm (Term.ofQuery (Query.ofTerm (Term.ofKind .identity)))))))) :=
    Grammar.ok_of_toOption (by decide +kernel)
  have hd : Definition.parseAll "def f: (a);" =
      .ok [.definition "f" [] (Query.ofTerm (Term.ofQuery (Query.ofTerm (Term.ofCall "a" []))))] :=
    Grammar.ok_of_toOption (by decide +kernel)
  have hd' : Definition.parseAll "def f: a;" = .ok [.definition "f" [] (Query.ofTerm (Term.ofCall "a" []))] :=
    Grammar.ok_of_toOption (by decide +kernel)
  exact ⟨⟨_, _, h, h', minify_canonical.1 h h'⟩,
    _, _, hd, hd', minify_canonical.2 hd hd' _ List.mem_cons_self _ List.mem_cons_self⟩

/-- **Minification is idempotent and ends in the normal form**, if no query has both a term and operands. That is so for
all parsed trees and for all that are built from terms and operands. -/
theorem minify_normal :
    (∀ {s : Shape} (n : Node s), n.Everywhere Node.Unmixed →
      n.minify.minify = n.minify ∧ n.minify.Everywhere Node.Irreducible) ∧
    (∀ source q, Query.parse source = .ok q → q.Everywhere Node.Unmixed) ∧
    (∀ source ds, Definition.parseAll source = .ok ds → ∀ d ∈ ds, d.Everywhere Node.Unmixed) ∧
    (∀ t : Term, t.Everywhere Node.Unmixed → (Query.ofTerm t).Everywhere Node.Unmixed) ∧
    ∀ (l r : Query) (op : Operator), l.Everywhere Node.Unmixed → r.Everywhere Node.Unmixed →
      (Query.binary l op r).Everywhere Node.Unmixed := by
  have hunmixed : ∀ {s : Shape} {n : Node s}, n.Everywhere Node.WellBuilt → n.Everywhere Node.Unmixed := fun h =>
    Node.Everywhere.imp (fun _ => Node.TermAlone.unmixed) (Node.termAlone_of_wellBuilt h)
  refine ⟨fun n hn => ⟨Node.minify_minify hn, ?_⟩, fun _ q hq => hunmixed (Query.wellBuilt_of_parse hq),
    fun _ ds hds d hd => hunmixed (Definition.wellBuilt_of_parseAll hds d hd), fun t ht => ?_, fun l r op hl hr => ?_⟩
  · exact Node.Everywhere.imp (fun _ => And.right) (Node.isNormal_minify hn)
  · exact ⟨.inr ⟨rfl, rfl⟩, trivial, ht, trivial, trivial⟩
  · exact ⟨.inl rfl, trivial, trivial, hl, hr⟩

/-- Two pairs of parentheses around a call, and a call whose name is missing. -/
theorem minify_normal_call :
    (∃ q, Query.parse "((f))" = .ok q ∧ q.Everywhere Node.Unmixed ∧ q.minify.minify = q.minify ∧
      q.minify.Everywhere Node.Irreducible) ∧
    (Query.ofTerm (Term.ofKind .func)).minify.minify = (Query.ofTerm (Term.ofKind .func)).minify ∧
    (Query.ofTerm (Term.ofKind .func)).minify.Everywhere Node.Irreducible := by
  have hparse : Query.parse "((f))" = .ok (Query.ofTerm (Term.ofQuery (Query.ofTerm (Term.ofQuery
      (Query.ofTerm (Term.ofCall "f" [])))))) :=
    Grammar.ok_of_toOption (by decide +kernel)
  have hparsed := minify_normal.2.1 _ _ hparse
  have hbuilt := minify_normal.2.2.2.1 (Term.ofKind .func) (by simp [Term.ofKind, Node.Unmixed])
  exact ⟨⟨_, hparse, hparsed, minify_normal.1 _ hparsed⟩, minify_normal.1 _ hbuilt⟩

end DefTable
