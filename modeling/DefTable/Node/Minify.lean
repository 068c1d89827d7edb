import DefTable.Node

/-!
# Minified trees

`Node.minify` shortens a tree without a change of meaning: a query that is a bare name or constant keeps just its name,
and a query that is another one in parentheses becomes that other one, with the outer local definitions in front of the
inner ones. The local definitions of a query are minified first. What comes out of parentheses is minified as a whole,
its outer definitions once more with it, so the recursion is on the size of the tree, which never grows
(`Node.minified`). The operands of a query with a term stay as they are.
-/

namespace DefTable

/-- The name of a call, if it has no arguments. -/
def Node.bareName? : Node .call → Option String
  | .call name args => if args.isEmpty then some name else none

namespace Term

/-- The name that a term abbreviates to, if it is a constant or a call without arguments, and has no suffixes. -/
def funcName? : Term → Option String
  | .term kind _ call _ _ _ _ _ _ _ _ _ _ _ _ _ suffixes =>
    if suffixes.isEmpty then
      match kind with
      | .identity => some "."
      | .recurse => some ".."
      | .null => some "null"
      | .true => some "true"
      | .false => some "false"
      | .func => call.toOption.bind Node.bareName?
      | _ => none
    else none

/-- The query in the parentheses that a term consists of, if it does and has no suffixes. -/
def parenthesized? : Term → Option Query
  | .term kind _ _ _ _ _ _ _ _ _ _ _ _ _ _ q suffixes =>
    if kind = .query ∧ suffixes.isEmpty then q.toOption else none

end Term

namespace Node

variable {s : Shape}

/-! ## Sizes -/

/-- How many nodes a tree is made of, where lists and optional nodes count with their members. -/
def size {s : Shape} : Node s → Nat
  | .definition _ _ b => b.size + 1
  | .query ds t l _ r _ => ds.size + t.size + l.size + r.size + 1
  | .term _ i c o a _ u _ x cond att red fore lab _ q ss =>
    i.size + c.size + o.size + a.size + u.size + x.size + cond.size + att.size + red.size + fore.size + lab.size +
      q.size + ss.size + 1
  | .index _ x start stop _ => x.size + start.size + stop.size + 1
  | .call _ args => args.size + 1
  | .text _ parts => parts.size + 1
  | .object es => es.size + 1
  | .entry _ x q v => x.size + q.size + v.size + 1
  | .array q => q.size + 1
  | .unary _ t => t.size + 1
  | .suffix i _ _ b => i.size + b.size + 1
  | .binding ps b => ps.size + b.size + 1
  | .pattern _ a o => a.size + o.size + 1
  | .patternEntry _ x q v => x.size + q.size + v.size + 1
  | .conditional c t es e => c.size + t.size + es.size + e.size + 1
  | .branch c t => c.size + t.size + 1
  | .attempt b h => b.size + h.size + 1
  | .reduce t p start update => t.size + p.size + start.size + update.size + 1
  | .foreach t p start update e => t.size + p.size + start.size + update.size + e.size + 1
  | .label _ b => b.size + 1
  | .nil => 0
  | .cons n ns => n.size + ns.size + 1
  | .absent => 0
  | .present n => n.size + 1

theorem size_append : ∀ as bs : Node (.list s), (as.append bs).size = as.size + bs.size
  | .nil, bs => by rw [append, size, Nat.zero_add]
  | .cons n as, bs => by
    rw [append, size, size, size_append as bs]
    omega

theorem size_withDefs (ds : Node (.list .definition)) : ∀ q : Query, (Query.withDefs ds q).size = ds.size + q.size
  | .query own t l op r func => by
    simp only [Query.withDefs, size, size_append]
    omega

theorem toOption_eq_some {n : Node (.optional s)} {m : Node s} (h : n.toOption = some m) : n = .present m := by
  cases n with
  | absent => cases h
  | present n => rw [Option.some.inj h]

theorem size_parenthesized_lt : ∀ {t : Term} {q : Query}, Term.parenthesized? t = some q → q.size < t.size
  | .term _ _ _ _ _ _ _ _ _ _ _ _ _ _ _ inner _, q, h => by
    rw [Term.parenthesized?] at h
    split at h
    · rw [toOption_eq_some h]
      simp only [size]
      omega
    · cases h

/-! ## Minification -/

/-- The minified tree, which is no larger than the given one. -/
def minified {s : Shape} (n : Node s) : {m : Node s // m.size ≤ n.size} :=
  match n with
  | .definition name params b =>
    let ⟨b, hb⟩ := b.minified
    ⟨.definition name params b, by simp only [size]; omega⟩
  | .query ds (.present t) l op r func =>
    let ⟨ds, hds⟩ := ds.minified
    match Term.funcName? t with
    | some name => ⟨.query ds .absent l op r name, by simp only [size]; omega⟩
    | none =>
      match hq : Term.parenthesized? t with
      | some q =>
        let ⟨m, hm⟩ := (Query.withDefs ds q).minified
        ⟨m, by
          have := size_parenthesized_lt hq
          rw [size_withDefs] at hm
          simp only [size]
          omega⟩
      | none =>
        let ⟨t, ht⟩ := t.minified
        ⟨.query ds (.present t) l op r func, by simp only [size]; omega⟩
  | .query ds .absent l op r func =>
    let ⟨ds, hds⟩ := ds.minified
    let ⟨l, hl⟩ := l.minified
    let ⟨r, hr⟩ := r.minified
    ⟨.query ds .absent l op r func, by simp only [size]; omega⟩
  | .term kind i c o a num u fmt x cond att red fore lab brk q ss =>
    let ⟨i, hi⟩ := i.minified
    let ⟨c, hc⟩ := c.minified
    let ⟨o, ho⟩ := o.minified
    let ⟨a, ha⟩ := a.minified
    let ⟨u, hu⟩ := u.minified
    let ⟨x, hx⟩ := x.minified
    let ⟨cond, hcond⟩ := cond.minified
    let ⟨att, hatt⟩ := att.minified
    let ⟨red, hred⟩ := red.minified
    let ⟨fore, hfore⟩ := fore.minified
    let ⟨lab, hlab⟩ := lab.minified
    let ⟨q, hq⟩ := q.minified
    let ⟨ss, hss⟩ := ss.minified
    ⟨.term kind i c o a num u fmt x cond att red fore lab brk q ss, by simp only [size]; omega⟩
  | .index name x start stop isSlice =>
    let ⟨x, hx⟩ := x.minified
    let ⟨start, hstart⟩ := start.minified
    let ⟨stop, hstop⟩ := stop.minified
    ⟨.index name x start stop isSlice, by simp only [size]; omega⟩
  | .call name args =>
    let ⟨args, hargs⟩ := args.minified
    ⟨.call name args, by simp only [size]; omega⟩
  | .text plain parts =>
    let ⟨parts, hparts⟩ := parts.minified
    ⟨.text plain parts, by simp only [size]; omega⟩
  | .object es =>
    let ⟨es, hes⟩ := es.minified
    ⟨.object es, by simp only [size]; omega⟩
  | .entry key x q v =>
    let ⟨x, hx⟩ := x.minified
    let ⟨q, hq⟩ := q.minified
    let ⟨v, hv⟩ := v.minified
    ⟨.entry key x q v, by simp only [size]; omega⟩
  | .array q =>
    let ⟨q, hq⟩ := q.minified
    ⟨.array q, by simp only [size]; omega⟩
  | .unary op t =>
    let ⟨t, ht⟩ := t.minified
    ⟨.unary op t, by simp only [size]; omega⟩
  | .suffix i iter opt b =>
    let ⟨i, hi⟩ := i.minified
    let ⟨b, hb⟩ := b.minified
    ⟨.suffix i iter opt b, by simp only [size]; omega⟩
  | .binding ps b =>
    let ⟨ps, hps⟩ := ps.minified
    let ⟨b, hb⟩ := b.minified
    ⟨.binding ps b, by simp only [size]; omega⟩
  | .pattern name a o =>
    let ⟨a, ha⟩ := a.minified
    let ⟨o, ho⟩ := o.minified
    ⟨.pattern name a o, by simp only [size]; omega⟩
  | .patternEntry key x q v =>
    let ⟨x, hx⟩ := x.minified
    let ⟨q, hq⟩ := q.minified
    let ⟨v, hv⟩ := v.minified
    ⟨.patternEntry key x q v, by simp only [size]; omega⟩
  | .conditional c t es e =>
    let ⟨c, hc⟩ := c.minified
    let ⟨t, ht⟩ := t.minified
    let ⟨es, hes⟩ := es.minified
    let ⟨e, he⟩ := e.minified
    ⟨.conditional c t es e, by simp only [size]; omega⟩
  | .branch c t =>
    let ⟨c, hc⟩ := c.minified
    let ⟨t, ht⟩ := t.minified
    ⟨.branch c t, by simp only [size]; omega⟩
  | .attempt b h =>
    let ⟨b, hb⟩ := b.minified
    let ⟨h, hh⟩ := h.minified
    ⟨.attempt b h, by simp only [size]; omega⟩
  | .reduce t p start update =>
    let ⟨t, ht⟩ := t.minified
    let ⟨p, hp⟩ := p.minified
    let ⟨start, hstart⟩ := start.minified
    let ⟨update, hupdate⟩ := update.minified
    ⟨.reduce t p start update, by simp only [size]; omega⟩
  | .foreach t p start update e =>
    let ⟨t, ht⟩ := t.minified
    let ⟨p, hp⟩ := p.minified
    let ⟨start, hstart⟩ := start.minified
    let ⟨update, hupdate⟩ := update.minified
    let ⟨e, he⟩ := e.minified
    ⟨.foreach t p start update e, by simp only [size]; omega⟩
  | .label name b =>
    let ⟨b, hb⟩ := b.minified
    ⟨.label name b, by simp only [size]; omega⟩
  | .nil => ⟨.nil, Nat.le_refl _⟩
  | .cons n ns =>
    let ⟨n, hn⟩ := n.minified
    let ⟨ns, hns⟩ := ns.minified
    ⟨.cons n ns, by simp only [size]; omega⟩
  | .absent => ⟨.absent, Nat.le_refl _⟩
  | .present n =>
    let ⟨n, hn⟩ := n.minified
    ⟨.present n, by simp only [size]; omega⟩
termination_by n.size
decreasing_by
  all_goals first
    | (simp only [size]; omega)
    | (rw [size_withDefs]; have := size_parenthesized_lt hq; simp only [size]; omega)

def minify (n : Node s) : Node s :=
  n.minified.1

theorem size_minify_le (n : Node s) : n.minify.size ≤ n.size :=
  n.minified.2

/-! ## What becomes of each node -/

section
variable (ds : Node (.list .definition)) (l r : Node (.optional .query)) (op : Option Operator) (func : String)

/-- A query that is a name or a constant keeps the name. -/
theorem minify_query_name {t : Term} {name : String} (h : Term.funcName? t = some name) :
    (query ds (.present t) l op r func).minify = .query ds.minify .absent l op r name := by
  rw [minify, minified]
  simp only [h]
  rfl

/-- What comes out of parentheses takes the outer local definitions along and is minified with them. -/
theorem minify_query_parenthesized {t : Term} {q : Query} (h : Term.funcName? t = none)
    (hq : Term.parenthesized? t = some q) :
    (query ds (.present t) l op r func).minify = (Query.withDefs ds.minify q).minify := by
  rw [minify, minified]
  simp only [h]
  split
  · next q' hq' =>
    obtain rfl : q = q' := Option.some.inj (hq.symm.trans hq')
    rfl
  · next hq' => rw [hq] at hq'; cases hq'

theorem minify_query_term {t : Term} (h : Term.funcName? t = none) (hq : Term.parenthesized? t = none) :
    (query ds (.present t) l op r func).minify = .query ds.minify (.present t.minify) l op r func := by
  rw [minify, minified]
  simp only [h]
  split
  · next q' hq' => rw [hq] at hq'; cases hq'
  · rfl

@[simp] theorem minify_query_absent :
    (query ds .absent l op r func).minify = .query ds.minify .absent l.minify op r.minify func := by
  rw [minify, minified]
  rfl

end

@[simp] theorem minify_definition (name params b) :
    (definition name params b).minify = .definition name params b.minify := by
  rw [minify, minified]; rfl

@[simp] theorem minify_term (kind i c o a num u fmt x cond att red fore lab brk q ss) :
    (term kind i c o a num u fmt x cond att red fore lab brk q ss).minify =
      .term kind i.minify c.minify o.minify a.minify num u.minify fmt x.minify cond.minify att.minify red.minify
        fore.minify lab.minify brk q.minify ss.minify := by
  rw [minify, minified]; rfl

@[simp] theorem minify_index (name x start stop isSlice) :
    (index name x start stop isSlice).minify = .index name x.minify start.minify stop.minify isSlice := by
  rw [minify, minified]; rfl

@[simp] theorem minify_call (name args) : (call name args).minify = .call name args.minify := by
  rw [minify, minified]; rfl

@[simp] theorem minify_text (plain parts) : (text plain parts).minify = .text plain parts.minify := by
  rw [minify, minified]; rfl

@[simp] theorem minify_object (es) : (object es).minify = .object es.minify := by
  rw [minify, minified]; rfl

@[simp] theorem minify_entry (key x q v) : (entry key x q v).minify = .entry key x.minify q.minify v.minify := by
  rw [minify, minified]; rfl

@[simp] theorem minify_array (q) : (array q).minify = .array q.minify := by
  rw [minify, minified]; rfl

@[simp] theorem minify_unary (op t) : (unary op t).minify = .unary op t.minify := by
  rw [minify, minified]; rfl

@[simp] theorem minify_suffix (i iter opt b) : (suffix i iter opt b).minify = .suffix i.minify iter opt b.minify := by
  rw [minify, minified]; rfl

@[simp] theorem minify_binding (ps b) : (binding ps b).minify = .binding ps.minify b.minify := by
  rw [minify, minified]; rfl

@[simp] theorem minify_pattern (name a o) : (pattern name a o).minify = .pattern name a.minify o.minify := by
  rw [minify, minified]; rfl

@[simp] theorem minify_patternEntry (key x q v) :
    (patternEntry key x q v).minify = .patternEntry key x.minify q.minify v.minify := by
  rw [minify, minified]; rfl

@[simp] theorem minify_conditional (c t es e) :
    (conditional c t es e).minify = .conditional c.minify t.minify es.minify e.minify := by
  rw [minify, minified]; rfl

@[simp] theorem minify_branch (c t) : (branch c t).minify = .branch c.minify t.minify := by
  rw [minify, minified]; rfl

@[simp] theorem minify_attempt (b h) : (attempt b h).minify = .attempt b.minify h.minify := by
  rw [minify, minified]; rfl

@[simp] theorem minify_reduce (t p start update) :
    (reduce t p start update).minify = .reduce t.minify p.minify start.minify update.minify := by
  rw [minify, minified]; rfl

@[simp] theorem minify_foreach (t p start update e) :
    (foreach t p start update e).minify = .foreach t.minify p.minify start.minify update.minify e.minify := by
  rw [minify, minified]; rfl

@[simp] theorem minify_label (name b) : (label name b).minify = .label name b.minify := by
  rw [minify, minified]; rfl

@[simp] theorem minify_nil : (nil : Node (.list s)).minify = .nil := by
  rw [minify, minified]

@[simp] theorem minify_cons (n : Node s) (ns) : (cons n ns).minify = .cons n.minify ns.minify := by
  rw [minify, minified]; rfl

@[simp] theorem minify_absent : (absent : Node (.optional s)).minify = .absent := by
  rw [minify, minified]

@[simp] theorem minify_present (n : Node s) : (present n).minify = .present n.minify := by
  rw [minify, minified]; rfl

end Node

end DefTable
