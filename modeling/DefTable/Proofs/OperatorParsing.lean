import DefTable.Proofs.OperatorTrees
import DefTable.Proofs.StepBound

/-!
# Reading rows of operators

What the parser makes of a row of operands with operators between them (`Query.parse_row`). The operands are blocks of
tokens of any kind that `operand` takes as a whole, so this is about the operators alone. The loop behind a left
operand is followed with the tree it has built so far (`binaryRest_ends`): the tree stays grouped, and the operator
that comes next may always stand above it. Numbers of steps are left out of the picture by `Ends`.
-/

namespace DefTable
namespace Grammar

/-! ## Ends -/

/-- With enough steps a production ends with `r`. -/
def Ends {α : Type} (P : Nat → Parsed α) (r : Parsed α) : Prop :=
  ∃ k, ∀ n, k ≤ n → P n = r

section
variable {α β : Type} {P : Nat → Parsed α}

theorem Ends.of_succ {r : Parsed α} (h : Ends (fun n => P (n + 1)) r) : Ends P r := by
  obtain ⟨k, h⟩ := h
  refine ⟨k + 1, fun n hn => ?_⟩
  obtain ⟨n, rfl⟩ : ∃ m, n = m + 1 := ⟨n - 1, by omega⟩
  exact h n (by omega)

theorem Ends.of_eq {r : Parsed α} (h : ∀ n, P n = r) : Ends P r :=
  ⟨0, fun n _ => h n⟩

theorem Ends.bind {f : Nat → α → Parsed β} {a : α} {r : Parsed β} (h : Ends P (.ok a)) (hf : Ends (fun n => f n a) r) :
    Ends (fun n => P n >>= f n) r := by
  obtain ⟨k, h⟩ := h
  obtain ⟨k', hf⟩ := hf
  refine ⟨max k k', fun n hn => ?_⟩
  dsimp only
  rw [h n (by omega)]
  exact hf n (by omega)

theorem Ends.bind_error {f : Nat → α → Parsed β} {e : Halt} (h : Ends P (.error e)) :
    Ends (fun n => P n >>= f n) (.error e) := by
  obtain ⟨k, h⟩ := h
  refine ⟨k, fun n hn => ?_⟩
  dsimp only
  rw [h n hn]
  rfl

end

/-! ## Productions of the operator layer -/

section
variable {ls ls' : Lexemes} {q : Query}

theorem ends_binary {p : Nat} {r : Parsed (Query × Lexemes)} (h : Ends (fun n => operand n ls) (.ok (q, ls')))
    (hr : Ends (fun n => binaryRest n p q ls') r) : Ends (fun n => binary n p ls) r := by
  refine Ends.of_succ ?_
  simp only [binary]
  exact h.bind hr

theorem exists_of_bind_ok {α β : Type} {x : Parsed α} {f : α → Parsed β} {b : β} (h : x >>= f = .ok b) :
    ∃ a, x = .ok a ∧ f a = .ok b := by
  cases x with
  | error e => cases h
  | ok a => exact ⟨a, rfl, h⟩

theorem ok_of_toOption {ε α : Type} {x : Except ε α} {a : α} (h : x.toOption = some a) : x = .ok a := by
  cases x with
  | error e => cases h
  | ok b => rw [Option.some.inj h]

/-- The fault of a result. -/
def fault? {ε α : Type} : Except ε α → Option ε
  | .ok _ => none
  | .error e => some e

theorem error_of_fault? {ε α : Type} {x : Except ε α} {e : ε} (h : fault? x = some e) : x = .error e := by
  cases x with
  | ok a => cases h
  | error e' => rw [Option.some.inj h]

/-- An operand is a term, which holds the binding if there is one. -/
theorem exists_term_of_operand : ∀ {n : Nat} {ls : Lexemes} {r}, operand n ls = .ok r → ∃ t, r.1 = Query.ofTerm t
  | 0, _, _, h => by cases h
  | n + 1, ls, r, h => by
    obtain ⟨⟨t, ls₁⟩, -, h⟩ := exists_of_bind_ok (by rwa [operand] at h)
    dsimp only at h
    split at h
    · obtain ⟨⟨ps, ls₂⟩, -, h⟩ := exists_of_bind_ok h
      obtain ⟨ls₃, -, h⟩ := exists_of_bind_ok h
      obtain ⟨⟨body, ls₄⟩, -, h⟩ := exists_of_bind_ok h
      cases h
      exact ⟨_, rfl⟩
    · cases h
      exact ⟨t, rfl⟩

/-- No operand starts with a local definition. -/
theorem peek_ne_define_of_operand : ∀ {n : Nat} {ls : Lexemes} {r}, operand n ls = .ok r → peek ls ≠ .keyword .define
  | _, [], _, _ => by simp [peek]
  | 0, _ :: _, _, h => by simp [operand] at h
  | 1, _ :: _, _, h => by simp [operand, term, bind, Except.bind] at h
  | 2, _ :: _, _, h => by simp [operand, term, primary, bind, Except.bind] at h
  | n + 3, ⟨t, o⟩ :: ls, r, h => by
    intro ht
    simp only [peek] at ht
    subst ht
    simp [operand, term, primary, bind, Except.bind] at h

theorem ends_pipe {r : Parsed (Query × Lexemes)} (h : Ends (fun n => operand n ls) (.ok (q, ls')))
    (hr : Ends (fun n => binaryRest n 1 q ls') r) : Ends (fun n => pipe n ls) r := by
  have hpeek : peek ls ≠ .keyword .define := by
    obtain ⟨k, h⟩ := h
    exact peek_ne_define_of_operand (h k (Nat.le_refl k))
  refine Ends.of_succ ?_
  simp only [pipe, if_neg hpeek]
  exact ends_binary h hr

/-- The least precedence that the right operand of an operator may have inside. -/
def rightLeast (op : Operator) : Nat :=
  if op.associativity = .right then op.precedence else op.precedence + 1

theorem ends_rightOperand {op : Operator} {r : Parsed (Query × Lexemes)}
    (h : Ends (fun n => operand n ls) (.ok (q, ls'))) (hr : Ends (fun n => binaryRest n (rightLeast op) q ls') r) :
    Ends (fun n => rightOperand n op ls) r := by
  unfold rightOperand
  by_cases hpipe : op = .pipe
  · subst hpipe
    simp only [if_true]
    exact ends_pipe h hr
  · simp only [if_neg hpipe]
    unfold rightLeast at hr
    by_cases hassoc : op.associativity = .right
    · simp only [if_pos hassoc] at hr ⊢
      exact ends_binary h hr
    · simp only [if_neg hassoc] at hr ⊢
      exact ends_binary h hr

theorem ends_binaryRest_stop {p : Nat} (h : ∀ op ∈ operator? ls, op.precedence < p) :
    Ends (fun n => binaryRest n p q ls) (.ok (q, ls)) := by
  refine Ends.of_succ (.of_eq fun n => ?_)
  rw [binaryRest_succ]
  cases hop : operator? ls with
  | none => rfl
  | some op => simp only [if_pos (h op (by simp [hop]))]

theorem ends_binaryRest_error {p : Nat} {op : Operator} {e : Halt} (hop : operator? ls = some op)
    (hp : p ≤ op.precedence) (h : Ends (fun n => rightOperand n op ls.tail) (.error e)) :
    Ends (fun n => binaryRest n p q ls) (.error e) := by
  refine Ends.of_succ ?_
  simp only [binaryRest_succ, hop, if_neg (Nat.not_lt.2 hp)]
  exact h.bind_error

theorem ends_binaryRest_noChain {p : Nat} {op : Operator} {right : Query} (hop : operator? ls = some op)
    (hp : p ≤ op.precedence) (h : Ends (fun n => rightOperand n op ls.tail) (.ok (right, ls')))
    (hchain : op.associativity = .none ∧ (operator? ls').map Operator.precedence = some op.precedence) :
    Ends (fun n => binaryRest n p q ls) (.error (unexpected ls' .noChain)) := by
  refine Ends.of_succ ?_
  simp only [binaryRest_succ, hop, if_neg (Nat.not_lt.2 hp)]
  exact h.bind (.of_eq fun n => by simp only [if_pos hchain])

theorem ends_binaryRest_more {p : Nat} {op : Operator} {right : Query} {r : Parsed (Query × Lexemes)}
    (hop : operator? ls = some op) (hp : p ≤ op.precedence)
    (h : Ends (fun n => rightOperand n op ls.tail) (.ok (right, ls')))
    (hchain : ¬ (op.associativity = .none ∧ (operator? ls').map Operator.precedence = some op.precedence))
    (hr : Ends (fun n => binaryRest n p (Query.binary q op right) ls') r) :
    Ends (fun n => binaryRest n p q ls) r := by
  refine Ends.of_succ ?_
  simp only [binaryRest_succ, hop, if_neg (Nat.not_lt.2 hp)]
  refine h.bind ?_
  simp only [if_neg hchain]
  exact hr

end

/-! ## Rows -/

/-- An operand as tokens: `operand` takes exactly these, whatever operator or end of the source comes next. -/
structure Block where
  lexemes : Lexemes
  taken : ∀ l ls, (operator? [l]).isSome ∨ l.token = .eof ∧ ls = [] →
    ∃ q, Ends (fun n => operand n (lexemes ++ l :: ls)) (.ok (q, l :: ls))

/-- An operator with the operand behind it. -/
structure Link where
  sign : Lexeme
  op : Operator
  block : Block
  operator_sign : operator? [sign] = some op

/-- The lexemes of operators with their operands, up to the end of the source. -/
def row (offset : Nat) : List Link → Lexemes
  | [] => [⟨.eof, offset⟩]
  | link :: links => link.sign :: (link.block.lexemes ++ row offset links)

/-- The operands of a row, each read at its place. -/
inductive Reading (offset : Nat) : List Link → List (Operator × Term) → Prop where
  | nil : Reading offset [] []
  | cons {link : Link} {links : List Link} {x : Term} {items : List (Operator × Term)}
      (hx : Ends (fun n => operand n (link.block.lexemes ++ row offset links)) (.ok (Query.ofTerm x, row offset links)))
      (h : Reading offset links items) : Reading offset (link :: links) ((link.op, x) :: items)

theorem operator?_row_cons (offset : Nat) (link : Link) (links : List Link) :
    operator? (row offset (link :: links)) = some link.op :=
  link.operator_sign

theorem Block.taken_row (b : Block) (offset : Nat) (links : List Link) :
    ∃ x, Ends (fun n => operand n (b.lexemes ++ row offset links)) (.ok (Query.ofTerm x, row offset links)) := by
  have htaken : ∃ q, Ends (fun n => operand n (b.lexemes ++ row offset links)) (.ok (q, row offset links)) := by
    cases links with
    | nil => exact b.taken ⟨.eof, offset⟩ [] (.inr ⟨rfl, rfl⟩)
    | cons link links => exact b.taken link.sign _ (.inl (by simp [link.operator_sign]))
  obtain ⟨q, k, h⟩ := htaken
  obtain ⟨x, rfl⟩ := exists_term_of_operand (h k (Nat.le_refl k))
  exact ⟨x, k, h⟩

theorem exists_reading (offset : Nat) : ∀ links : List Link, ∃ items, Reading offset links items
  | [] => ⟨[], .nil⟩
  | link :: links => by
    obtain ⟨items, h⟩ := exists_reading offset links
    obtain ⟨x, hx⟩ := link.block.taken_row offset links
    exact ⟨(link.op, x) :: items, .cons hx h⟩

variable {offset : Nat}

theorem Reading.map_fst {links : List Link} {items : List (Operator × Term)} (h : Reading offset links items) :
    items.map Prod.fst = links.map Link.op := by
  induction h with
  | nil => rfl
  | cons hx h ih => rw [List.map_cons, List.map_cons, ih]

theorem Reading.operator?_row {links : List Link} {items : List (Operator × Term)} (h : Reading offset links items) :
    operator? (row offset links) = items.head?.map Prod.fst := by
  cases h with
  | nil => rfl
  | cons hx h => exact operator?_row_cons _ _ _

/-! ## The loop -/

/-- What the loop makes of a tree and the items behind it: the tree takes the first of them in, all of at least the
precedence `p`, and what is left does not start with such a one. -/
structure Grown (p : Nat) (t : OperatorTree) (items : List (Operator × Term)) (t' : OperatorTree)
    (left : List (Operator × Term)) : Prop where
  first : t'.first = t.first
  taken : ∃ seg, items = seg ++ left ∧ t'.rest = t.rest ++ seg ∧ ∀ i ∈ seg, p ≤ i.1.precedence
  grouped : t'.Grouped
  stop : ∀ i ∈ left.head?, i.1.precedence < p

theorem le_rightLeast (op : Operator) : op.precedence ≤ rightLeast op := by
  unfold rightLeast
  split <;> omega

theorem Grown.fits {op : Operator} {x : Term} {items left : List (Operator × Term)} {r : OperatorTree}
    (h : Grown (rightLeast op) (.leaf x) items r left) : r.Fits .right op := by
  obtain ⟨seg, -, hseg, hall⟩ := h.taken
  refine OperatorTree.fits_of_all fun o ho => ?_
  rw [OperatorTree.ops, hseg] at ho
  obtain ⟨i, hi, rfl⟩ := List.mem_map.1 ho
  have hle := hall i (by simpa [OperatorTree.rest] using hi)
  unfold rightLeast at hle
  by_cases hassoc : op.associativity = .right
  · rw [if_pos hassoc] at hle
    by_cases heq : op.precedence = i.1.precedence
    · exact .inr ⟨heq, hassoc⟩
    · exact .inl (by omega)
  · rw [if_neg hassoc] at hle
    exact .inl (by omega)

/-- An operator that stops the loop on the right of `op` may stand above `op`, unless the two do not chain. -/
theorem fits_of_lt_rightLeast {op o : Operator} {l r : OperatorTree} (hlt : o.precedence < rightLeast op)
    (hchain : ¬ (op.associativity = .none ∧ o.precedence = op.precedence)) :
    (OperatorTree.node l op r).Fits .left o := by
  unfold rightLeast at hlt
  by_cases heq : o.precedence = op.precedence
  · refine .inr ⟨heq, ?_⟩
    rw [Operator.associativity_congr heq]
    by_cases hassoc : op.associativity = .right
    · rw [if_pos hassoc] at hlt
      omega
    · cases h : op.associativity with
      | left => rfl
      | right => exact absurd h hassoc
      | none => exact absurd ⟨h, heq⟩ hchain
  · refine .inl ?_
    split at hlt <;> omega

theorem Grown.extend {p : Nat} {op : Operator} {x : Term} {items left left' : List (Operator × Term)}
    {t r t' : OperatorTree} (hp : p ≤ op.precedence) (hr : Grown (rightLeast op) (.leaf x) items r left)
    (h : Grown p (.node t op r) left t' left') : Grown p t ((op, x) :: items) t' left' := by
  obtain ⟨seg, rfl, hseg, hall⟩ := hr.taken
  obtain ⟨seg', rfl, hseg', hall'⟩ := h.taken
  refine ⟨h.first, ⟨(op, x) :: (seg ++ seg'), by simp, ?_, fun i hi => ?_⟩, h.grouped, h.stop⟩
  · have hx : r.first = x := hr.first
    rw [hseg', OperatorTree.rest, hseg, hx]
    simp [OperatorTree.rest]
  · rw [List.mem_cons, List.mem_append] at hi
    rcases hi with rfl | hi | hi
    · exact hp
    · have := hall i hi
      have := le_rightLeast op
      omega
    · exact hall' i hi

/-- An operator that does not chain, all that its right operand took in, and another one of its precedence. -/
theorem Grown.clash {op : Operator} {x : Term} {items left : List (Operator × Term)} {r : OperatorTree}
    (h : Grown (rightLeast op) (.leaf x) items r left) (hnone : op.associativity = .none)
    (hleft : (left.head?.map Prod.fst).map Operator.precedence = some op.precedence) :
    Clash (op :: items.map Prod.fst) := by
  obtain ⟨seg, rfl, -, hall⟩ := h.taken
  cases left with
  | nil => cases hleft
  | cons next left =>
    have heq : op.precedence = next.1.precedence := by simpa using hleft.symm
    refine ⟨[], op, seg.map Prod.fst, next.1, left.map Prod.fst, by simp, hnone, heq, fun o ho => ?_⟩
    obtain ⟨i, hi, rfl⟩ := List.mem_map.1 ho
    have := hall i hi
    simp only [rightLeast, hnone, reduceCtorEq, if_false] at this
    omega

/-- **The loop behind a left operand takes in what it may, or finds a clash.** -/
theorem binaryRest_ends (p : Nat) : ∀ {links : List Link} {items : List (Operator × Term)},
    Reading offset links items → ∀ {t : OperatorTree}, t.Grouped → (∀ i ∈ items.head?, t.Fits .left i.1) →
      (∃ t' links' left, Ends (fun n => binaryRest n p t.query (row offset links)) (.ok (t'.query, row offset links')) ∧
        Reading offset links' left ∧ Grown p t items t' left) ∨
      (Clash (items.map Prod.fst) ∧ ∃ e, Ends (fun n => binaryRest n p t.query (row offset links)) (.error e))
  | [], _, .nil, t, ht, _ =>
    .inl ⟨t, [], [], ends_binaryRest_stop (by simp [row, operator?, peek]), .nil, rfl, ⟨[], rfl, by simp, by simp⟩, ht,
      by simp⟩
  | link :: links, _, @Reading.cons _ _ _ x items hx hread, t, ht, hfit => by
    have hop := operator?_row_cons offset link links
    by_cases hp : link.op.precedence < p
    · exact .inl ⟨t, link :: links, _, ends_binaryRest_stop (by simpa [hop] using hp), .cons hx hread, rfl,
        ⟨[], rfl, by simp, by simp⟩, ht, by simpa using hp⟩
    have hp := Nat.le_of_not_lt hp
    -- the right operand is a row of its own, from a tree that is one operand
    rcases binaryRest_ends (rightLeast link.op) hread (t := .leaf x) trivial (fun _ _ => trivial) with
      ⟨r, links₁, left₁, hr, hread₁, hgrown₁⟩ | ⟨hclash, e, he⟩
    · have hright := ends_rightOperand hx hr
      by_cases hchain : link.op.associativity = .none ∧
          (left₁.head?.map Prod.fst).map Operator.precedence = some link.op.precedence
      · refine .inr ⟨hgrown₁.clash hchain.1 hchain.2, _, ends_binaryRest_noChain hop hp hright ?_⟩
        rwa [hread₁.operator?_row]
      · have hgrouped : (OperatorTree.node t link.op r).Grouped :=
          ⟨hfit _ rfl, hgrown₁.fits, ht, hgrown₁.grouped⟩
        have hfit₁ : ∀ i ∈ left₁.head?, (OperatorTree.node t link.op r).Fits .left i.1 := fun i hi =>
          fits_of_lt_rightLeast (hgrown₁.stop i hi) fun hc => hchain ⟨hc.1, by simp [Option.mem_def.1 hi, hc.2]⟩
        have hmore : ∀ res,
            Ends (fun n => binaryRest n p (OperatorTree.node t link.op r).query (row offset links₁)) res →
              Ends (fun n => binaryRest n p t.query (row offset (link :: links))) res := fun res h =>
          ends_binaryRest_more hop hp hright (by rwa [hread₁.operator?_row]) h
        obtain ⟨seg, hseg, -⟩ := hgrown₁.taken
        rcases binaryRest_ends p hread₁ hgrouped hfit₁ with ⟨t', links', left, h, hread', hgrown'⟩ | ⟨hclash, e, he⟩
        · exact .inl ⟨t', links', left, hmore _ h, hread', hgrown₁.extend hp hgrown'⟩
        · refine .inr ⟨?_, e, hmore _ he⟩
          rw [List.map_cons, hseg, List.map_append]
          exact hclash.append_left (link.op :: seg.map Prod.fst)
    · exact .inr ⟨hclash.append_left [link.op], e, ends_binaryRest_error hop hp (ends_rightOperand hx he)⟩
termination_by _ items => items.length
decreasing_by
  · exact Nat.lt_succ_self _
  · rw [hseg, List.length_cons, List.length_append]
    omega

/-! ## Whole sources -/

/-- **A row from its first operand on** is read into the grouped tree over all of it, or there is a clash. -/
theorem pipe_row_ends {links : List Link} {items : List (Operator × Term)} (hread : Reading offset links items)
    {ls : Lexemes} {x : Term} (hx : Ends (fun n => operand n ls) (.ok (Query.ofTerm x, row offset links))) :
    (∃ t : OperatorTree, Ends (fun n => pipe n ls) (.ok (t.query, row offset [])) ∧ t.first = x ∧ t.rest = items ∧
      t.Grouped) ∨
    (Clash (items.map Prod.fst) ∧ ∃ e, Ends (fun n => pipe n ls) (.error e)) := by
  rcases binaryRest_ends 1 hread (t := .leaf x) trivial (fun _ _ => trivial) with
    ⟨t, links', left, h, hread', hgrown⟩ | ⟨hclash, e, he⟩
  · obtain ⟨seg, rfl, hseg, -⟩ := hgrown.taken
    cases hread' with
    | cons hx' h' => exact absurd (hgrown.stop _ rfl) (Nat.not_lt.2 (Operator.one_le_precedence _))
    | nil =>
      refine .inl ⟨t, ends_pipe hx h, hgrown.first, ?_, hgrown.grouped⟩
      rw [hseg, List.append_nil]
      rfl
  · exact .inr ⟨hclash, e, ends_pipe hx he⟩

theorem ends_whole {source : String} {base : Nat} {ls ls' : Lexemes} {q : Query}
    (hscan : Token.scan source base = .ok ls) (h : Ends (fun n => pipe n ls) (.ok (q, ls'))) (hend : peek ls' = .eof) :
    Ends (fun n => whole n source base) (.ok q) := by
  refine Ends.of_succ ?_
  simp only [whole, hscan, scanned]
  refine Ends.bind (a := ls) (.of_eq fun _ => rfl) (h.bind (.of_eq fun n => ?_))
  simp only [expectEnd, if_pos hend]
  rfl

theorem ends_whole_error {source : String} {ls : Lexemes} {e : Halt} (hscan : Token.scan source 0 = .ok ls)
    (h : Ends (fun n => pipe n ls) (.error e)) : Ends (fun n => whole n source 0) (.error e) := by
  refine Ends.of_succ ?_
  simp only [whole, hscan, scanned]
  exact Ends.bind (a := ls) (.of_eq fun _ => rfl) h.bind_error

/-- What a source ends with given enough steps, it ends with in the number of steps it is given. -/
theorem whole_of_ends {source : String} {r : Parsed Query} (h : Ends (fun n => whole n source 0) r) :
    whole (enoughSteps source) source 0 = r := by
  obtain ⟨k, h⟩ := h
  rw [whole_steps source 0 (Nat.le_max_left (enoughSteps source) k)]
  exact h _ (Nat.le_max_right _ k)

theorem definitions_of_ends {source : String} {base : Nat} {ls : Lexemes} {r : Parsed (List Definition)}
    (hscan : Token.scan source base = .ok ls) (h : Ends (fun n => definitions n ls) r) :
    definitions (enoughSteps source) ls = r := by
  obtain ⟨k, h⟩ := h
  rw [definitions_steps hscan (Nat.le_max_left (enoughSteps source) k)]
  exact h _ (Nat.le_max_right _ k)

end Grammar

/-! ## Numbers as operands -/

namespace Grammar

theorem suffixes_stop {l : Lexeme} (ls : Lexemes) (h : (operator? [l]).isSome ∨ l.token = .eof) (n : Nat) :
    suffixes (n + 1) (l :: ls) = .ok ([], l :: ls) := by
  obtain ⟨t, o⟩ := l
  unfold suffixes
  split
  case h_7 => rfl
  all_goals simp_all [operator?, peek]

theorem ends_operand {ls ls' : Lexemes} {l : Lexeme} {t : Term} (h : (operator? [l]).isSome ∨ l.token = .eof)
    (ht : Ends (fun n => primary n ls) (.ok (t, l :: ls'))) :
    Ends (fun n => operand n ls) (.ok (Query.ofTerm (Term.withSuffixes [] t), l :: ls')) := by
  have hterm : Ends (fun n => term n ls) (.ok (Term.withSuffixes [] t, l :: ls')) := by
    refine Ends.of_succ ?_
    simp only [term]
    exact ht.bind (Ends.of_succ (.of_eq fun n => by rw [suffixes_stop ls' h]; rfl))
  refine Ends.of_succ ?_
  simp only [operand]
  refine hterm.bind (.of_eq fun n => ?_)
  obtain ⟨t, o⟩ := l
  dsimp only
  split
  · simp_all [operator?, peek]
  · rfl

/-- A number as an operand. -/
def Block.number (digits : String) (offset : Nat) : Block where
  lexemes := [⟨.number digits, offset⟩]
  taken _ _ h := ⟨_, ends_operand (h.imp_right And.left) (Ends.of_succ (.of_eq fun _ => rfl))⟩

end Grammar

open Grammar

/-- **How the parser groups operators.** In a source of operands with operators between them, the operands being
blocks of tokens of any kind that are taken as a whole, every operand is read at its place. The source is refused
exactly if two of its operators are of one precedence that does not chain and all operators between them bind tighter.
Otherwise it is the one tree over the operands and operators in their order in which an operator below another binds
tighter, or as tightly and on the side to which the operator above it associates. -/
theorem Query.parse_row {source : String} {b : Block} {links : List Link} {offset : Nat}
    (hscan : Token.scan source 0 = .ok (b.lexemes ++ row offset links)) :
    ∃ x items,
      Grammar.Ends (fun n => operand n (b.lexemes ++ row offset links)) (.ok (Query.ofTerm x, row offset links)) ∧
      Grammar.Reading offset links items ∧
      ((∃ d, Query.parse source = .error d) ↔ Clash (links.map Link.op)) ∧
      (¬ Clash (links.map Link.op) → ∃ t : OperatorTree, Query.parse source = .ok t.query ∧
        (t.first = x ∧ t.rest = items ∧ t.Grouped) ∧
        ∀ t' : OperatorTree, t'.first = x ∧ t'.rest = items ∧ t'.Grouped → t' = t) := by
  obtain ⟨x, hx⟩ := b.taken_row offset links
  obtain ⟨items, hread⟩ := exists_reading offset links
  refine ⟨x, items, hx, hread, ?_⟩
  rw [← hread.map_fst]
  rcases pipe_row_ends hread hx with ⟨t, ht, hfirst, hrest, hgrouped⟩ | ⟨hclash, e, he⟩
  · have hparse : Query.parse source = .ok t.query := by
      rw [Query.parse, whole_of_ends (ends_whole hscan ht rfl)]
    have hno : ¬ Clash (items.map Prod.fst) := by
      rw [← hrest]
      exact hgrouped.not_clash
    refine ⟨⟨fun ⟨d, hd⟩ => ?_, fun h => absurd h hno⟩, fun _ => ⟨t, hparse, ⟨hfirst, hrest, hgrouped⟩, ?_⟩⟩
    · rw [hparse] at hd
      cases hd
    · rintro t' ⟨hfirst', hrest', hgrouped'⟩
      exact hgrouped'.unique hgrouped (hfirst'.trans hfirst.symm) (hrest'.trans hrest.symm)
  · have hparse : Query.parse source = .error (e.diagnostic source) := by
      rw [Query.parse, whole_of_ends (ends_whole_error hscan he)]
    exact ⟨⟨fun _ => hclash, fun _ => ⟨_, hparse⟩⟩, fun h => absurd hclash h⟩

theorem Query.parse_row_sum_of_product :
    Token.scan "1 + 2 * 3" 0 = .ok ((Block.number "1" 0).lexemes ++
      row 9 [⟨⟨.op .add, 2⟩, .add, .number "2" 4, rfl⟩, ⟨⟨.op .mul, 6⟩, .mul, .number "3" 8, rfl⟩]) ∧
    ∃ t : OperatorTree, Query.parse "1 + 2 * 3" = .ok t.query ∧ t.ops = [.add, .mul] ∧ t.Grouped := by
  have hscan : Token.scan "1 + 2 * 3" 0 = .ok ((Block.number "1" 0).lexemes ++
      row 9 [⟨⟨.op .add, 2⟩, .add, .number "2" 4, rfl⟩, ⟨⟨.op .mul, 6⟩, .mul, .number "3" 8, rfl⟩]) :=
    ok_of_toOption (by decide +kernel)
  obtain ⟨x, items, -, hread, -, h⟩ := Query.parse_row hscan
  have hno : ¬ Clash [.add, .mul] := by decide
  obtain ⟨t, ht, ⟨-, hrest, hgrouped⟩, -⟩ := h hno
  refine ⟨hscan, t, ht, ?_, hgrouped⟩
  rw [OperatorTree.ops, hrest, hread.map_fst]
  rfl

end DefTable
