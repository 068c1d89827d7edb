import DefTable.Proofs.Traversal

/-!
# The normal form of minification

A minified tree is normal (`Node.IsNormal`): no query in it consists of a term that a shorter query stands for. Normal
trees are what minification leaves alone (`Node.minify_of_isNormal`), and every tree becomes one
(`Node.isNormal_minify`), provided that none of its queries has both a term and operands. A query in parentheses makes
the minifier start again on a query that has minified definitions already, so that the second fact goes by the size of
the tree and needs of minified definitions that they may be minified again.
-/

namespace DefTable

/-! ## The normal form -/

/-- Whether a shorter query stands for a term: it has no suffixes and is a constant, a call without arguments or a query
in parentheses. -/
def Term.Collapsible : Term → Prop
  | .term kind _ call _ _ _ _ _ _ _ _ _ _ _ _ q suffixes =>
    suffixes = .nil ∧
      (kind ∈ [.identity, .recurse, .null, .true, .false] ∨
        kind = .func ∧ (∃ name, call = .present (.call name .nil)) ∨
        kind = .query ∧ ∃ inner, q = .present inner)

namespace Node

/-- A query has a term or operands, but not both. -/
def Unmixed {s : Shape} : Node s → Prop
  | .query _ t l _ r _ => t = .absent ∨ l = .absent ∧ r = .absent
  | _ => True

/-- No shorter query stands for a query. -/
def Irreducible {s : Shape} : Node s → Prop
  | .query _ t _ _ _ _ => ∀ t', t = .present t' → ¬ Term.Collapsible t'
  | _ => True

/-- Nothing is left to do at a node. -/
def Settled {s : Shape} (n : Node s) : Prop :=
  n.Unmixed ∧ n.Irreducible

/-- Trees in which no query has both a term and operands, nor a term that a shorter query stands for. -/
def IsNormal {s : Shape} (n : Node s) : Prop :=
  n.Everywhere Settled

theorem IsNormal.unmixed {s : Shape} {n : Node s} (h : n.IsNormal) : n.Everywhere Unmixed :=
  Everywhere.imp (fun _ => And.left) h

theorem settled_of_ne {s : Shape} (hs : s ≠ .query) (n : Node s) : n.Settled := by
  cases n with
  | query => exact absurd rfl hs
  | _ => exact ⟨trivial, trivial⟩

theorem eq_nil_of_isEmpty {s : Shape} : ∀ {ns : Node (.list s)}, ns.isEmpty = true ↔ ns = .nil
  | .nil => by simp [isEmpty]
  | .cons _ _ => by simp [isEmpty]

theorem minify_eq_nil {s : Shape} : ∀ {ns : Node (.list s)}, ns.minify = .nil ↔ ns = .nil
  | .nil => by simp
  | .cons _ _ => by simp

end Node

namespace Term

open Node

/-- The two ways to shorten a query with a term apply exactly to the collapsible ones. -/
theorem collapsible_iff {t : Term} :
    t.Collapsible ↔ (∃ name, funcName? t = some name) ∨ funcName? t = none ∧ ∃ q, parenthesized? t = some q := by
  cases t with
  | term kind i c o a num u fmt x cond att red fore lab brk q ss =>
    simp only [Collapsible, funcName?, parenthesized?, eq_nil_of_isEmpty]
    by_cases hss : ss = .nil
    · cases kind <;> simp [hss]
      case func =>
        cases c with
        | absent => simp [toOption]
        | present c =>
          cases c with
          | call name args => simp [toOption, bareName?, eq_nil_of_isEmpty]
      case query =>
        cases q <;> simp [toOption]
    · simp [hss]

theorem collapsible_minify {t : Term} : Term.Collapsible t.minify ↔ t.Collapsible := by
  cases t with
  | term kind i c o a num u fmt x cond att red fore lab brk q ss =>
    have hcall : (∃ name, c.minify = .present (.call name .nil)) ↔ ∃ name, c = .present (.call name .nil) := by
      cases c with
      | absent => simp
      | present c =>
        cases c with
        | call name args => simp [minify_eq_nil]
    have hq : (∃ inner, q.minify = .present inner) ↔ ∃ inner, q = .present inner := by
      cases q <;> simp
    simp only [minify_term, Collapsible, minify_eq_nil, hcall, hq]

end Term

namespace Node

variable {s : Shape}

/-! ## Normal trees stay as they are -/

theorem minify_query_irreducible {ds : Node (.list .definition)} {t : Term} {l r : Node (.optional .query)}
    {op : Option Operator} {func : String} (h : ¬ Term.Collapsible t) :
    (query ds (.present t) l op r func).minify = .query ds.minify (.present t.minify) l op r func := by
  rw [Term.collapsible_iff, not_or, not_exists] at h
  have hname : Term.funcName? t = none := Option.eq_none_iff_forall_ne_some.2 h.1
  refine minify_query_term ds l r op func hname (Option.eq_none_iff_forall_ne_some.2 fun q hq => ?_)
  exact h.2 ⟨hname, q, hq⟩

/-- **Minification leaves normal trees alone.** -/
theorem minify_of_isNormal {n : Node s} (h : n.IsNormal) : n.minify = n := by
  unfold IsNormal at h
  induction n with
  | query ds t l op r func hds ht hl hr =>
    obtain ⟨⟨-, hirr⟩, h⟩ := h
    cases t with
    | absent => rw [minify_query_absent, hds h.1, hl h.2.2.1, hr h.2.2.2]
    | present t =>
      have ht := ht h.2.1
      rw [minify_present] at ht
      rw [minify_query_irreducible (hirr t rfl), hds h.1, ht]
  | _ => simp_all [Everywhere]

/-! ## Minified trees are normal -/

theorem everywhere_withDefs {P : {s : Shape} → Node s → Prop} {ds : Node (.list .definition)} {q : Query}
    (hds : ds.Everywhere P) (hq : q.Everywhere P) (h : P q → P (Query.withDefs ds q)) :
    (Query.withDefs ds q).Everywhere P := by
  cases q with
  | query own t l op r func => exact ⟨h hq.1, everywhere_append.2 ⟨hds, hq.2.1⟩, hq.2.2⟩

theorem unmixed_withDefs {ds : Node (.list .definition)} {q : Query} (h : q.Unmixed) :
    (Query.withDefs ds q).Unmixed := by
  cases q with
  | query own t l op r func => exact h

theorem everywhere_parenthesized {P : {s : Shape} → Node s → Prop} {t : Term} {q : Query}
    (h : Term.parenthesized? t = some q) (ht : t.Everywhere P) : q.Everywhere P := by
  cases t with
  | term kind i c o a num u fmt x cond att red fore lab brk inner ss =>
    rw [Term.parenthesized?] at h
    split at h
    · obtain rfl := toOption_eq_some h
      simp only [Everywhere] at ht
      exact ht.2.2.2.2.2.2.2.2.2.2.2.2.1
    · cases h

/-- **Minification makes a tree normal**, if no query in it has both a term and operands. -/
theorem isNormal_minify {n : Node s} (h : n.Everywhere Unmixed) : n.minify.IsNormal := by
  induction hk : n.size using Nat.strongRecOn generalizing s n with
  | ind k ih =>
    subst hk
    replace ih : ∀ {s' : Shape} (m : Node s'), m.size < n.size → m.Everywhere Unmixed → m.minify.IsNormal :=
      fun m hm hu => ih m.size hm hu rfl
    unfold IsNormal at ih ⊢
    cases n with
    | query ds t l op r func =>
      obtain ⟨hroot, hds, ht, hl, hr⟩ := h
      simp only [size] at ih
      have hds := ih ds (by omega) hds
      cases t with
      | absent =>
        rw [minify_query_absent]
        exact ⟨⟨.inl rfl, nofun⟩, hds, trivial, ih l (by omega) hl, ih r (by omega) hr⟩
      | present t =>
        obtain ⟨rfl, rfl⟩ : l = .absent ∧ r = .absent := by simpa [Unmixed] using hroot
        by_cases hc : Term.Collapsible t
        · rcases Term.collapsible_iff.1 hc with ⟨name, hname⟩ | ⟨hname, q, hq⟩
          · rw [minify_query_name ds .absent .absent op func hname]
            exact ⟨⟨.inl rfl, nofun⟩, hds, trivial, trivial, trivial⟩
          · rw [minify_query_parenthesized ds .absent .absent op func hname hq]
            -- the definitions are minified already, and no larger for it
            refine ih _ ?_ (everywhere_withDefs (IsNormal.unmixed hds) (everywhere_parenthesized hq ht) unmixed_withDefs)
            have := size_parenthesized_lt hq
            have := size_minify_le ds
            rw [size_withDefs]
            simp only [size]
            omega
        · rw [minify_query_irreducible hc]
          refine ⟨⟨.inr ⟨rfl, rfl⟩, fun t' ht' => ?_⟩, hds, ih t (by simp only [size]; omega) ht, trivial, trivial⟩
          cases ht'
          rwa [Term.collapsible_minify]
    | nil => rw [minify_nil]; trivial
    | absent => rw [minify_absent]; trivial
    | _ =>
      simp only [Everywhere, size] at h ih
      simp [Everywhere, settled_of_ne]
      grind

end Node
end DefTable
