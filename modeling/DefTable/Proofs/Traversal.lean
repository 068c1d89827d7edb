import DefTable.Node.Minify

/-!
# Whole trees

Properties that hold of a node and of every node below it (`Node.Everywhere`), and trees with every query in them
rewritten from the innermost one outwards (`Node.rebuild`).
-/

namespace DefTable
namespace Node

variable {s : Shape}

/-! ## Properties of all nodes -/

/-- A property of a node and of all nodes below it. Lists and optional nodes stand for their members. -/
@[simp] def Everywhere (P : {s : Shape} → Node s → Prop) {s : Shape} : Node s → Prop
  | .definition name params b => P (.definition name params b) ∧ b.Everywhere P
  | .query ds t l op r func =>
    P (.query ds t l op r func) ∧ ds.Everywhere P ∧ t.Everywhere P ∧ l.Everywhere P ∧ r.Everywhere P
  | .term kind i c o a num u fmt x cond att red fore lab brk q ss =>
    P (.term kind i c o a num u fmt x cond att red fore lab brk q ss) ∧ i.Everywhere P ∧ c.Everywhere P ∧
      o.Everywhere P ∧ a.Everywhere P ∧ u.Everywhere P ∧ x.Everywhere P ∧ cond.Everywhere P ∧ att.Everywhere P ∧
      red.Everywhere P ∧ fore.Everywhere P ∧ lab.Everywhere P ∧ q.Everywhere P ∧ ss.Everywhere P
  | .index name x start stop isSlice =>
    P (.index name x start stop isSlice) ∧ x.Everywhere P ∧ start.Everywhere P ∧ stop.Everywhere P
  | .call name args => P (.call name args) ∧ args.Everywhere P
  | .text plain parts => P (.text plain parts) ∧ parts.Everywhere P
  | .object es => P (.object es) ∧ es.Everywhere P
  | .entry key x q v => P (.entry key x q v) ∧ x.Everywhere P ∧ q.Everywhere P ∧ v.Everywhere P
  | .array q => P (.array q) ∧ q.Everywhere P
  | .unary op t => P (.unary op t) ∧ t.Everywhere P
  | .suffix i iter opt b => P (.suffix i iter opt b) ∧ i.Everywhere P ∧ b.Everywhere P
  | .binding ps b => P (.binding ps b) ∧ ps.Everywhere P ∧ b.Everywhere P
  | .pattern name a o => P (.pattern name a o) ∧ a.Everywhere P ∧ o.Everywhere P
  | .patternEntry key x q v => P (.patternEntry key x q v) ∧ x.Everywhere P ∧ q.Everywhere P ∧ v.Everywhere P
  | .conditional c t es e =>
    P (.conditional c t es e) ∧ c.Everywhere P ∧ t.Everywhere P ∧ es.Everywhere P ∧ e.Everywhere P
  | .branch c t => P (.branch c t) ∧ c.Everywhere P ∧ t.Everywhere P
  | .attempt b h => P (.attempt b h) ∧ b.Everywhere P ∧ h.Everywhere P
  | .reduce t p start update =>
    P (.reduce t p start update) ∧ t.Everywhere P ∧ p.Everywhere P ∧ start.Everywhere P ∧ update.Everywhere P
  | .foreach t p start update e =>
    P (.foreach t p start update e) ∧ t.Everywhere P ∧ p.Everywhere P ∧ start.Everywhere P ∧ update.Everywhere P ∧
      e.Everywhere P
  | .label name b => P (.label name b) ∧ b.Everywhere P
  | .nil => True
  | .cons n ns => n.Everywhere P ∧ ns.Everywhere P
  | .absent => True
  | .present n => n.Everywhere P

variable {P Q : {s : Shape} → Node s → Prop}

theorem Everywhere.imp (h : ∀ {s : Shape} (n : Node s), P n → Q n) : ∀ {s : Shape} {n : Node s}, n.Everywhere P →
    n.Everywhere Q := by
  intro s n
  induction n <;> simp only [Everywhere, imp_self] <;> grind

theorem everywhere_append : ∀ {as bs : Node (.list s)}, (as.append bs).Everywhere P ↔
    as.Everywhere P ∧ bs.Everywhere P
  | .nil, bs => by simp only [append, Everywhere, true_and]
  | .cons n as, bs => by
    simp only [append, Everywhere]
    rw [everywhere_append, and_assoc]

theorem append_assoc : ∀ as bs cs : Node (.list s), (as.append bs).append cs = as.append (bs.append cs)
  | .nil, _, _ => rfl
  | .cons n as, bs, cs => congrArg (Node.cons n) (append_assoc as bs cs)

/-! ## Rewriting queries -/

/-- The tree with every query in it rewritten, the innermost ones first. -/
@[simp] def rebuild (f : Query → Query) {s : Shape} : Node s → Node s
  | .definition name params b => .definition name params (b.rebuild f)
  | .query ds t l op r func => f (.query (ds.rebuild f) (t.rebuild f) (l.rebuild f) op (r.rebuild f) func)
  | .term kind i c o a num u fmt x cond att red fore lab brk q ss =>
    .term kind (i.rebuild f) (c.rebuild f) (o.rebuild f) (a.rebuild f) num (u.rebuild f) fmt (x.rebuild f)
      (cond.rebuild f) (att.rebuild f) (red.rebuild f) (fore.rebuild f) (lab.rebuild f) brk (q.rebuild f)
      (ss.rebuild f)
  | .index name x start stop isSlice => .index name (x.rebuild f) (start.rebuild f) (stop.rebuild f) isSlice
  | .call name args => .call name (args.rebuild f)
  | .text plain parts => .text plain (parts.rebuild f)
  | .object es => .object (es.rebuild f)
  | .entry key x q v => .entry key (x.rebuild f) (q.rebuild f) (v.rebuild f)
  | .array q => .array (q.rebuild f)
  | .unary op t => .unary op (t.rebuild f)
  | .suffix i iter opt b => .suffix (i.rebuild f) iter opt (b.rebuild f)
  | .binding ps b => .binding (ps.rebuild f) (b.rebuild f)
  | .pattern name a o => .pattern name (a.rebuild f) (o.rebuild f)
  | .patternEntry key x q v => .patternEntry key (x.rebuild f) (q.rebuild f) (v.rebuild f)
  | .conditional c t es e => .conditional (c.rebuild f) (t.rebuild f) (es.rebuild f) (e.rebuild f)
  | .branch c t => .branch (c.rebuild f) (t.rebuild f)
  | .attempt b h => .attempt (b.rebuild f) (h.rebuild f)
  | .reduce t p start update => .reduce (t.rebuild f) (p.rebuild f) (start.rebuild f) (update.rebuild f)
  | .foreach t p start update e =>
    .foreach (t.rebuild f) (p.rebuild f) (start.rebuild f) (update.rebuild f) (e.rebuild f)
  | .label name b => .label name (b.rebuild f)
  | .nil => .nil
  | .cons n ns => .cons (n.rebuild f) (ns.rebuild f)
  | .absent => .absent
  | .present n => .present (n.rebuild f)

variable {f : Query → Query}

theorem rebuild_append : ∀ as bs : Node (.list s), (as.append bs).rebuild f = (as.rebuild f).append (bs.rebuild f)
  | .nil, _ => rfl
  | .cons n as, bs => congrArg (Node.cons (n.rebuild f)) (rebuild_append as bs)

theorem rebuild_eq_nil : ∀ {ns : Node (.list s)}, ns.rebuild f = .nil ↔ ns = .nil
  | .nil => by simp [rebuild]
  | .cons _ _ => by simp [rebuild]

theorem rebuild_eq_absent : ∀ {n : Node (.optional s)}, n.rebuild f = .absent ↔ n = .absent
  | .absent => by simp [rebuild]
  | .present _ => by simp [rebuild]

/-- A rewriting that leaves local definitions alone may be done below them. -/
theorem rebuild_withDefs (hf : ∀ ds q, f (Query.withDefs ds q) = Query.withDefs ds (f q))
    (ds : Node (.list .definition)) : ∀ q : Query,
    (Query.withDefs ds q).rebuild f = Query.withDefs (ds.rebuild f) (q.rebuild f)
  | .query own t l op r func => by
    rw [Query.withDefs, rebuild, rebuild_append, rebuild, ← hf]
    rfl

/-- What holds everywhere of a rewritten tree, if it does of the nodes that stay as they are and below every rewritten
query. -/
theorem everywhere_rebuild {f : Query → Query} {s : Shape} {n : Node s}
    (hstay : ∀ {s : Shape} (n : Node s), s ≠ .query → P n → Q (n.rebuild f))
    (hquery : ∀ {ds : Node (.list .definition)} {t : Node (.optional .term)} {l r : Node (.optional .query)}
      {op : Option Operator} {func : String}, P (query ds t l op r func) →
      (ds.rebuild f).Everywhere Q → (t.rebuild f).Everywhere Q → (l.rebuild f).Everywhere Q →
      (r.rebuild f).Everywhere Q →
      (f (query (ds.rebuild f) (t.rebuild f) (l.rebuild f) op (r.rebuild f) func)).Everywhere Q)
    (h : n.Everywhere P) : (n.rebuild f).Everywhere Q := by
  induction n with
  | query ds t l op r func hds ht hl hr => exact hquery h.1 (hds h.2.1) (ht h.2.2.1) (hl h.2.2.2.1) (hr h.2.2.2.2)
  | nil => trivial
  | cons n ns hn hns => exact ⟨hn h.1, hns h.2⟩
  | absent => trivial
  | present n hn => exact hn h
  | _ =>
    have hroot := hstay _ (by simp) h.1
    simp_all [rebuild]

end Node
end DefTable
