import DefTable.Proofs.DerivationSoundness

/-!
# What has a derivation is what the parser reads

The other direction of soundness: a production gives what the rules say it reads, with every number of steps from some
number on (`Grammar.Derives.runs`). What the rules do not say and the parser looks at is the first token of a pipeline
behind a bracket or a brace: no pipeline starts with a sign that closes something (`not_closes_of_pipe`). A query and
definitions that have a derivation from all tokens of their source are then parsed (`Query.parse_of_derives`,
`Definition.parseAll_of_derives`).
-/

namespace DefTable

@[simp] theorem Node.ofOption_toOption {s : Shape} : ∀ n : Node (.optional s), ofOption n.toOption = n
  | .absent => rfl
  | .present _ => rfl

namespace Grammar

/-! ## Runs -/

/-- Items with a token between them, as a list. -/
inductive Chain {α : Type} (R : Lexemes → α → Lexemes → Prop) (separator : Token) :
    Lexemes → List α → Lexemes → Prop where
  | last {ls x ls₁} (h : R ls x ls₁) (hnext : peek ls₁ ≠ separator) : Chain R separator ls [x] ls₁
  | more {ls x o ls₁ xs ls₂} (h : R ls x (⟨separator, o⟩ :: ls₁)) (hxs : Chain R separator ls₁ xs ls₂) :
      Chain R separator ls (x :: xs) ls₂

/-- What the parser makes of lexemes where the rules have a production. -/
def Runs : (p : Production) → Lexemes → Node p.shape → Lexemes → Prop
  | .definition, ls, d, ls₁ => peek ls = .keyword .define ∧ Ends (fun n => definition n ls) (.ok (d, ls₁))
  | .pipe, ls, q, ls₁ => Ends (fun n => pipe n ls) (.ok (q, ls₁))
  | .binary least, ls, q, ls₁ => Ends (fun n => binary n least ls) (.ok (q, ls₁))
  | .binaryRest least left, ls, q, ls₁ => Ends (fun n => binaryRest n least left ls) (.ok (q, ls₁))
  | .rightOperand op, ls, q, ls₁ => Ends (fun n => rightOperand n op ls) (.ok (q, ls₁))
  | .operand, ls, q, ls₁ => Ends (fun n => operand n ls) (.ok (q, ls₁))
  | .term, ls, t, ls₁ => Ends (fun n => term n ls) (.ok (t, ls₁))
  | .termQuery, ls, q, ls₁ => ∃ t, q = Query.ofTerm t ∧ Ends (fun n => term n ls) (.ok (t, ls₁))
  | .primary, ls, t, ls₁ => Ends (fun n => primary n ls) (.ok (t, ls₁))
  | .suffixes, ls, ss, ls₁ => Ends (fun n => suffixes n ls) (.ok (ss.toList, ls₁))
  | .bracket, ls, i, ls₁ => Ends (fun n => bracket n ls) (.ok (i.toOption, ls₁))
  | .string, ls, x, ls₁ => ∃ parts o, ls = ⟨.str parts, o⟩ :: ls₁ ∧ Ends (fun n => string n parts) (.ok x)
  | .fragments parts, _, qs, _ => Ends (fun n => fragments n parts) (.ok qs.toList)
  | .objectEntries, ls, es, ls₁ => Ends (fun n => objectEntries n ls) (.ok (es.toList, ls₁))
  | .objectEntry, ls, e, ls₁ => Ends (fun n => objectEntry n ls) (.ok (e, ls₁))
  | .objectValue, ls, v, ls₁ => Ends (fun n => objectValue n ls) (.ok (v, ls₁))
  | .pattern, ls, p, ls₁ => Ends (fun n => pattern n ls) (.ok (p, ls₁))
  | .patternEntry, ls, e, ls₁ => Ends (fun n => patternEntry n ls) (.ok (e, ls₁))
  | .branches, ls, bs, ls₁ => Ends (fun n => branches n ls) (.ok (bs.toList, ls₁))
  | .definitions, ls, ds, _ => Ends (fun n => definitions n ls) (.ok ds.toList)
  | .separated item separator, ls, xs, ls₁ => Chain (Runs item) separator ls xs.toList ls₁
  | .after lead item, ls, x, ls₁ =>
    x = .absent ∧ ls₁ = ls ∧ peek ls ≠ lead ∨ ∃ o ls₂ n, x = .present n ∧ ls = ⟨lead, o⟩ :: ls₂ ∧ Runs item ls₂ n ls₁

section
variable {α β : Type} {P : Nat → Parsed α}

/-- A step without steps of its own. -/
theorem Ends.bind_of_ok {x : Parsed α} {a : α} {f : Nat → α → Parsed β} {r : Parsed β} (hx : x = .ok a)
    (h : Ends (fun n => f n a) r) : Ends (fun n => x >>= f n) r :=
  Ends.bind (.of_eq fun _ => hx) h

/-- A token that has to come next, and comes next. -/
theorem Ends.expect {t : Token} {o : Nat} {ls : Lexemes} {f : Nat → Lexemes → Parsed β} {r : Parsed β}
    (h : Ends (fun n => f n ls) r) : Ends (fun n => expect t (⟨t, o⟩ :: ls) >>= f n) r :=
  .bind_of_ok (if_pos rfl) h

theorem Ends.ok {a : α} {P : Nat → Parsed α} (h : Ends P (.ok a)) : ∃ n, P n = .ok a := by
  obtain ⟨k, h⟩ := h
  exact ⟨k, h k (Nat.le_refl k)⟩

end

/-! ## First tokens -/

/-- A sign that closes something, or stands in the middle. -/
def Closes (t : Token) : Prop :=
  t = .rightBracket ∨ t = .rightBrace ∨ t = .colon

theorem not_closes_of_primary : ∀ {n : Nat} {ls : Lexemes} {r}, primary n ls = .ok r → ¬ Closes (peek ls)
  | 0, _, _, h => by cases h
  | _ + 1, [], _, _ => by simp [peek, Closes]
  | n + 1, ⟨t, o⟩ :: ls, r, h => by
    rintro (rfl | rfl | rfl) <;> cases h

/-- No pipeline starts with a sign that closes something. -/
theorem not_closes_of_pipe : ∀ {n : Nat} {ls : Lexemes} {r}, pipe n ls = .ok r → ¬ Closes (peek ls)
  | 0, _, _, h => by cases h
  | n + 1, ls, r, h => by
    rw [pipe] at h
    split at h
    · next hdefine => simp [hdefine, Closes]
    · cases n with
      | zero => cases h
      | succ n =>
        rw [binary] at h
        obtain ⟨_, h, -⟩ := exists_of_bind_ok h
        cases n with
        | zero => cases h
        | succ n =>
          rw [operand] at h
          obtain ⟨_, h, -⟩ := exists_of_bind_ok h
          cases n with
          | zero => cases h
          | succ n =>
            rw [term] at h
            obtain ⟨_, h, -⟩ := exists_of_bind_ok h
            exact not_closes_of_primary h

theorem peek_ne_define_of_binary : ∀ {n least : Nat} {ls : Lexemes} {r}, binary n least ls = .ok r →
    peek ls ≠ .keyword .define
  | 0, _, _, _, h => by cases h
  | n + 1, least, ls, r, h => by
    rw [binary] at h
    obtain ⟨left, hleft, -⟩ := exists_of_bind_ok h
    exact peek_ne_define_of_operand hleft

theorem not_rightBrace_of_objectEntry : ∀ {n : Nat} {ls : Lexemes} {r}, objectEntry n ls = .ok r →
    peek ls ≠ .rightBrace
  | 0, _, _, h => by cases h
  | _ + 1, [], _, _ => by simp [peek]
  | n + 1, ⟨t, o⟩ :: ls, r, h => by
    rintro rfl
    cases h

/-! ## Single tokens -/

theorem Parameters.runs {ls : Lexemes} {names ls₁} (h : Parameters ls names ls₁) :
    parameters ls = .ok (names, ls₁) := by
  induction h with
  | last ht hname hnext =>
    rw [parameters, hname]
    dsimp only
    split
    · exact absurd rfl hnext
    · rfl
  | more ht hname h ih =>
    rw [parameters, hname]
    dsimp only
    rw [ih]
    rfl

theorem ParameterList.runs {ls : Lexemes} {names ls₁} (h : ParameterList ls names ls₁) :
    parameterList ls = .ok (names, ls₁) := by
  cases h with
  | none hnext =>
    unfold parameterList
    split
    · exact absurd rfl hnext
    · rfl
  | some h =>
    rw [parameterList, h.runs]
    rfl

/-! ## Lists -/

section
variable {α : Type} {ls ls₁ : Lexemes}

/-- A list is read when its members are. -/
theorem ends_listed {item : Nat → Lexemes → Parsed (α × Lexemes)} {list : Nat → Lexemes → Parsed (List α × Lexemes)}
    {separator : Token} (hlist : ∀ n ls, list (n + 1) ls = listed separator (item n ls) (list n)) {xs : List α}
    (h : Chain (fun ls x ls₁ => Ends (fun n => item n ls) (.ok (x, ls₁))) separator ls xs ls₁) :
    Ends (fun n => list n ls) (.ok (xs, ls₁)) := by
  induction h with
  | @last ls x ls₁ h hnext =>
    apply Ends.of_succ
    simp only [hlist]
    refine h.bind (.of_eq fun n => ?_)
    exact if_neg hnext
  | @more ls x o ls₁ xs ls₂ h hxs ih =>
    apply Ends.of_succ
    simp only [hlist]
    refine h.bind ?_
    have hpeek : peek (⟨separator, o⟩ :: ls₁) = separator := rfl
    simp only [if_pos hpeek]
    exact ih.bind (.of_eq fun n => rfl)

theorem Ends.optionally {item : Nat → Lexemes → Parsed (α × Lexemes)} {lead : Token} {x : Option α}
    (h : x = none ∧ ls₁ = ls ∧ peek ls ≠ lead ∨
      ∃ o ls₂ a, x = some a ∧ ls = ⟨lead, o⟩ :: ls₂ ∧ Ends (fun n => item n ls₂) (.ok (a, ls₁))) :
    Ends (fun n => optionally lead (item n) ls) (.ok (x, ls₁)) := by
  rcases h with ⟨rfl, rfl, hnext⟩ | ⟨o, ls₂, a, rfl, rfl, h⟩
  · exact .of_eq fun n => if_neg hnext
  · have hpeek : peek (⟨lead, o⟩ :: ls₂) = lead := rfl
    simp only [Grammar.optionally, if_pos hpeek]
    exact h.bind (.of_eq fun n => rfl)

/-- What may be missing is read, or is missing. -/
theorem ends_optionally {item : Nat → Lexemes → Parsed (α × Lexemes)}
    {optional : Nat → Lexemes → Parsed (Option α × Lexemes)} {lead : Token}
    (hoptional : ∀ n ls, optional (n + 1) ls = optionally lead (item n) ls) {x : Option α}
    (h : x = none ∧ ls₁ = ls ∧ peek ls ≠ lead ∨
      ∃ o ls₂ a, x = some a ∧ ls = ⟨lead, o⟩ :: ls₂ ∧ Ends (fun n => item n ls₂) (.ok (a, ls₁))) :
    Ends (fun n => optional n ls) (.ok (x, ls₁)) := by
  apply Ends.of_succ
  simp only [hoptional]
  exact .optionally h

end

theorem runs_after {item : Production} {lead : Token} {ls ls₁ : Lexemes} {x : Node (.optional item.shape)}
    (h : Runs (.after lead item) ls x ls₁) :
    x.toOption = none ∧ ls₁ = ls ∧ peek ls ≠ lead ∨
      ∃ o ls₂ n, x.toOption = some n ∧ ls = ⟨lead, o⟩ :: ls₂ ∧ Runs item ls₂ n ls₁ := by
  rcases h with ⟨rfl, h⟩ | ⟨o, ls₂, n, rfl, h⟩
  · exact .inl ⟨rfl, h⟩
  · exact .inr ⟨o, ls₂, n, rfl, h⟩

/-! ## Signs that close something

The parser tries these signs first. Where a pipeline follows, it goes on to that. -/

section
variable {ls ls₁ : Lexemes}

theorem primary_of_pipe {q : Query} (h : Ends (fun n => pipe n ls) (.ok (q, ls₁))) (n o : Nat) :
    primary (n + 1) (⟨.leftBracket, o⟩ :: ls) = (do
      let (q, ls) ← pipe n ls
      let ls ← expect .rightBracket ls
      return (Term.ofArray (some q), ls)) := by
  obtain ⟨m, hm⟩ := h.ok
  have hclose := not_closes_of_pipe hm
  exact primary_array n o fun hnext => hclose (.inl hnext)

theorem bracket_of_pipe {q : Query} (h : Ends (fun n => pipe n ls) (.ok (q, ls₁))) (n : Nat) :
    bracket (n + 1) ls = (do
      let (start, ls) ← pipe n ls
      match ls with
      | ⟨.colon, _⟩ :: ⟨.rightBracket, _⟩ :: ls =>
        return (some (.index "" .absent (.present start) .absent true), ls)
      | ⟨.colon, _⟩ :: ls => do
        let (stop, ls) ← pipe n ls
        let ls ← expect .rightBracket ls
        return (some (.index "" .absent (.present start) (.present stop) true), ls)
      | ls => do
        let ls ← expect .rightBracket ls
        return (some (.index "" .absent (.present start) .absent false), ls)) := by
  obtain ⟨m, hm⟩ := h.ok
  have hclose := not_closes_of_pipe hm
  have hright : ∀ o ls₂, ls = ⟨.rightBracket, o⟩ :: ls₂ → False := by
    rintro o ls rfl
    exact hclose (.inl rfl)
  have hcolon : ∀ o ls₂, ls = ⟨.colon, o⟩ :: ls₂ → False := by
    rintro o ls rfl
    exact hclose (.inr (.inr rfl))
  exact bracket.eq_4 ls n hright hcolon

theorem objectEntries_of_objectEntry {e : Node .entry} (h : Ends (fun n => objectEntry n ls) (.ok (e, ls₁)))
    (n : Nat) :
    objectEntries (n + 1) ls = (do
      let (e, ls) ← objectEntry n ls
      match ls with
      | ⟨.op .comma, _⟩ :: ls => do
        let (es, ls) ← objectEntries n ls
        return (e :: es, ls)
      | ls => do
        let ls ← expect .rightBrace ls
        return ([e], ls)) := by
  obtain ⟨m, hm⟩ := h.ok
  have hclose := not_rightBrace_of_objectEntry hm
  have hright : ∀ o ls₂, ls = ⟨.rightBrace, o⟩ :: ls₂ → False := by
    rintro o ls rfl
    exact hclose rfl
  exact objectEntries.eq_3 ls n hright

end

/-! ## Rules

What a rule says is read when what its premises say is. -/

/-! ### Queries -/

theorem Runs.definition {t name params body o o₁ o₂ o₃ ls ls₁ ls₂} (hname : wordKey? t = some name)
    (hparams : ParameterList ls params (⟨.colon, o₂⟩ :: ls₁)) (ih : Runs .pipe ls₁ body (⟨.semicolon, o₃⟩ :: ls₂)) :
    Runs .definition (⟨.keyword .define, o⟩ :: ⟨t, o₁⟩ :: ls) (.definition name params body) ls₂ := by
  have hread : definitionName (⟨t, o₁⟩ :: ls) = .ok (name, ls) := by rw [definitionName, hname]
  refine ⟨rfl, Ends.of_succ ?_⟩
  simp only [Grammar.definition]
  refine Ends.expect (.bind_of_ok hread (.bind_of_ok hparams.runs (Ends.expect ?_)))
  exact Ends.bind ih (Ends.expect (.of_eq fun n => rfl))

theorem Runs.localDefinition {d q ls ls₁ ls₂} (ihd : Runs .definition ls d ls₁) (ihq : Runs .pipe ls₁ q ls₂) :
    Runs .pipe ls (Query.withDefs (.cons d .nil) q) ls₂ := by
  obtain ⟨hdefine, ihd⟩ := ihd
  apply Ends.of_succ
  simp only [Grammar.pipe, if_pos hdefine]
  exact ihd.bind (Ends.bind ihq (.of_eq fun n => rfl))

theorem Runs.pipe {q ls ls₁} (ih : Runs (.binary 1) ls q ls₁) : Runs .pipe ls q ls₁ := by
  have hpeek : peek ls ≠ .keyword .define := by
    obtain ⟨n, hn⟩ := Ends.ok ih
    exact peek_ne_define_of_binary hn
  apply Ends.of_succ
  simp only [Grammar.pipe, if_neg hpeek]
  exact ih

theorem Runs.binaryOperand {op q ls ls₁} (hop : op ≠ .pipe) (ih : Runs (.binary (rightLeast op)) ls q ls₁) :
    Runs (.rightOperand op) ls q ls₁ := by
  have hright : ∀ n, rightOperand n op ls = Grammar.binary n (rightLeast op) ls := fun n => by
    rw [rightOperand, if_neg hop, rightLeast]
    split <;> rfl
  show Ends (fun n => rightOperand n op ls) (.ok (q, ls₁))
  simp only [hright]
  exact ih

theorem Runs.operand {t ls ls₁} (ih : Runs .term ls t ls₁) (hnext : peek ls₁ ≠ .keyword .as) :
    Runs .operand ls (Query.ofTerm t) ls₁ := by
  apply Ends.of_succ
  simp only [Grammar.operand]
  refine Ends.bind ih (.of_eq fun n => ?_)
  dsimp only
  split
  · exact absurd rfl hnext
  · rfl

theorem Runs.binding {t patterns body o o₁ ls ls₁ ls₂ ls₃} (iht : Runs .term ls t (⟨.keyword .as, o⟩ :: ls₁))
    (ihpatterns : Runs (.separated .pattern .alternative) ls₁ patterns (⟨.op .pipe, o₁⟩ :: ls₂))
    (ihbody : Runs .pipe ls₂ body ls₃) :
    Runs .operand ls (Query.ofTerm (Term.withSuffixes [Suffix.ofBinding patterns.toList body] t)) ls₃ := by
  apply Ends.of_succ
  simp only [Grammar.operand]
  refine Ends.bind iht ?_
  refine (ends_listed alternatives_succ ihpatterns).bind ?_
  exact Ends.expect (Ends.bind ihbody (.of_eq fun n => rfl))

theorem Runs.term {t ss ls ls₁ ls₂} (iht : Runs .primary ls t ls₁) (ihs : Runs .suffixes ls₁ ss ls₂) :
    Runs .term ls (Term.withSuffixes ss.toList t) ls₂ := by
  apply Ends.of_succ
  simp only [Grammar.term]
  exact Ends.bind iht (Ends.bind ihs (.of_eq fun n => rfl))

/-! ### Terms -/

theorem Runs.dotText {x o ls ls₁} (ih : Runs .string ls x ls₁) :
    Runs .primary (⟨.dot, o⟩ :: ls) (Term.ofIndex (Index.ofText x)) ls₁ := by
  obtain ⟨parts, o₁, rfl, hx⟩ := ih
  exact Ends.of_succ (hx.bind (.of_eq fun n => rfl))

theorem Runs.identity {o ls} (hstr : ∀ parts, peek ls ≠ .str parts) (hbracket : peek ls ≠ .leftBracket) :
    Runs .primary (⟨.dot, o⟩ :: ls) (Term.ofKind .identity) ls := by
  refine Ends.of_succ (.of_eq fun n => ?_)
  rw [Grammar.primary]
  · rintro parts o₁ ls₁ rfl
    exact hstr parts rfl
  · rintro o₁ ls₁ rfl
    exact hbracket rfl

theorem Runs.leaf {t x o ls} (hx : leaf? t = some x) : Runs .primary (⟨t, o⟩ :: ls) x ls := by
  refine Ends.of_succ (.of_eq fun n => ?_)
  cases t <;> cases hx <;> rfl

theorem Runs.text {x ls ls₁} (ih : Runs .string ls x ls₁) : Runs .primary ls (Term.ofText x) ls₁ := by
  obtain ⟨parts, o₁, rfl, hx⟩ := ih
  exact Ends.of_succ (hx.bind (.of_eq fun n => rfl))

theorem Runs.formatText {name x o ls ls₁} (ih : Runs .string ls x ls₁) :
    Runs .primary (⟨.format name, o⟩ :: ls) (Term.ofFormat name (some x)) ls₁ := by
  obtain ⟨parts, o₁, rfl, hx⟩ := ih
  exact Ends.of_succ (hx.bind (.of_eq fun n => rfl))

theorem Runs.format {name o ls} (hnext : ∀ parts, peek ls ≠ .str parts) :
    Runs .primary (⟨.format name, o⟩ :: ls) (Term.ofFormat name none) ls := by
  refine Ends.of_succ (.of_eq fun n => ?_)
  rw [Grammar.primary]
  rintro parts o₁ ls₁ rfl
  exact hnext parts rfl

theorem Runs.call {name args o o₁ o₂ ls ls₁}
    (ih : Runs (.separated .pipe .semicolon) ls args (⟨.rightParen, o₂⟩ :: ls₁)) :
    Runs .primary (⟨.ident name, o⟩ :: ⟨.leftParen, o₁⟩ :: ls) (Term.ofCall name args.toList) ls₁ := by
  refine Ends.of_succ ((ends_listed arguments_succ ih).bind ?_)
  exact Ends.expect (.of_eq fun n => rfl)

theorem Runs.array {q o o₁ ls ls₁} (ih : Runs .pipe ls q (⟨.rightBracket, o₁⟩ :: ls₁)) :
    Runs .primary (⟨.leftBracket, o⟩ :: ls) (Term.ofArray (some q)) ls₁ := by
  apply Ends.of_succ
  simp only [primary_of_pipe ih]
  exact Ends.bind ih (Ends.expect (.of_eq fun n => rfl))

theorem Runs.conditional {cond thenBranch elifs elseBranch o o₁ o₂ ls ls₁ ls₂ ls₃ ls₄}
    (ihcond : Runs .pipe ls cond (⟨.keyword .then, o₁⟩ :: ls₁)) (ihthen : Runs .pipe ls₁ thenBranch ls₂)
    (ihelifs : Runs .branches ls₂ elifs ls₃)
    (ihelse : Runs (.after (.keyword .else) .pipe) ls₃ elseBranch (⟨.keyword .end, o₂⟩ :: ls₄)) :
    Runs .primary (⟨.keyword .if, o⟩ :: ls)
      (Term.ofConditional (.conditional cond thenBranch elifs elseBranch)) ls₄ := by
  refine Ends.of_succ (Ends.bind ihcond (Ends.expect (Ends.bind ihthen (Ends.bind ihelifs ?_))))
  refine (ends_optionally elseBranch_succ (runs_after ihelse)).bind (Ends.expect (.of_eq fun n => ?_))
  simp
  rfl

theorem Runs.attempt {body handler o ls ls₁ ls₂} (ihbody : Runs .termQuery ls body ls₁)
    (ihhandler : Runs (.after (.keyword .catch) .termQuery) ls₁ handler ls₂) :
    Runs .primary (⟨.keyword .try, o⟩ :: ls) (Term.ofAttempt (.attempt body handler)) ls₂ := by
  obtain ⟨body, rfl, ihbody⟩ := ihbody
  refine Ends.of_succ (Ends.bind ihbody ?_)
  rcases ihhandler with ⟨rfl, rfl, hnext⟩ | ⟨o₁, ls₃, _, rfl, rfl, handler, rfl, ihhandler⟩
  · refine .of_eq fun n => ?_
    dsimp only
    split
    · exact absurd rfl hnext
    · rfl
  · exact Ends.bind ihhandler (.of_eq fun n => rfl)

theorem Runs.reduce {source p start update o o₁ o₂ o₃ o₄ ls ls₁ ls₂ ls₃ ls₄}
    (ihsource : Runs .term ls source (⟨.keyword .as, o₁⟩ :: ls₁))
    (ihp : Runs .pattern ls₁ p (⟨.leftParen, o₂⟩ :: ls₂)) (ihstart : Runs .pipe ls₂ start (⟨.semicolon, o₃⟩ :: ls₃))
    (ihupdate : Runs .pipe ls₃ update (⟨.rightParen, o₄⟩ :: ls₄)) :
    Runs .primary (⟨.keyword .reduce, o⟩ :: ls) (Term.ofReduce (.reduce source p start update)) ls₄ := by
  refine Ends.of_succ (Ends.bind ihsource (Ends.expect (Ends.bind ihp (Ends.expect ?_))))
  exact Ends.bind ihstart (Ends.expect (Ends.bind ihupdate (Ends.expect (.of_eq fun n => rfl))))

theorem Runs.foreach {source p start update extract o o₁ o₂ o₃ o₄ ls ls₁ ls₂ ls₃ ls₄ ls₅}
    (ihsource : Runs .term ls source (⟨.keyword .as, o₁⟩ :: ls₁))
    (ihp : Runs .pattern ls₁ p (⟨.leftParen, o₂⟩ :: ls₂)) (ihstart : Runs .pipe ls₂ start (⟨.semicolon, o₃⟩ :: ls₃))
    (ihupdate : Runs .pipe ls₃ update ls₄)
    (ihextract : Runs (.after .semicolon .pipe) ls₄ extract (⟨.rightParen, o₄⟩ :: ls₅)) :
    Runs .primary (⟨.keyword .foreach, o⟩ :: ls) (Term.ofForeach (.foreach source p start update extract)) ls₅ := by
  refine Ends.of_succ (Ends.bind ihsource (Ends.expect (Ends.bind ihp (Ends.expect ?_))))
  refine Ends.bind ihstart (Ends.expect (Ends.bind ihupdate ?_))
  refine (ends_optionally extraction_succ (runs_after ihextract)).bind (Ends.expect (.of_eq fun n => ?_))
  simp
  rfl

/-! ### Suffixes and brackets -/

theorem Runs.suffixesEnd {ls} (hnext : ¬ StartsSuffix ls) : Runs .suffixes ls .nil ls := by
  refine Ends.of_succ (.of_eq fun n => ?_)
  unfold Grammar.suffixes
  split
  case h_7 => rfl
  all_goals exact absurd trivial hnext

theorem Runs.textSuffix {x ss o ls ls₁ ls₂} (ihx : Runs .string ls x ls₁) (ih : Runs .suffixes ls₁ ss ls₂) :
    Runs .suffixes (⟨.dot, o⟩ :: ls) (.cons (Suffix.ofIndex (Index.ofText x)) ss) ls₂ := by
  obtain ⟨parts, o₁, rfl, ihx⟩ := ihx
  exact Ends.of_succ (ihx.bind (Ends.bind ih (.of_eq fun n => rfl)))

theorem Runs.sliceFrom {start o o₁ ls ls₁} (ih : Runs .pipe ls start (⟨.colon, o⟩ :: ⟨.rightBracket, o₁⟩ :: ls₁)) :
    Runs .bracket ls (.present (.index "" .absent (.present start) .absent true)) ls₁ := by
  apply Ends.of_succ
  simp only [bracket_of_pipe ih]
  exact Ends.bind ih (.of_eq fun n => rfl)

theorem Runs.slice {start stop o o₁ ls ls₁ ls₂} (ihstart : Runs .pipe ls start (⟨.colon, o⟩ :: ls₁))
    (ihstop : Runs .pipe ls₁ stop (⟨.rightBracket, o₁⟩ :: ls₂)) :
    Runs .bracket ls (.present (.index "" .absent (.present start) (.present stop) true)) ls₂ := by
  obtain ⟨m, hm⟩ := Ends.ok ihstop
  have hclose := not_closes_of_pipe hm
  apply Ends.of_succ
  simp only [bracket_of_pipe ihstart]
  refine Ends.bind ihstart ?_
  cases ls₁ with
  | nil => exact Ends.bind ihstop (Ends.expect (.of_eq fun n => rfl))
  | cons l ls₁ =>
    obtain ⟨t, o₂⟩ := l
    cases t with
    | rightBracket => exact absurd (.inl rfl) hclose
    | _ => exact Ends.bind ihstop (Ends.expect (.of_eq fun n => rfl))

theorem Runs.position {start o ls ls₁} (ih : Runs .pipe ls start (⟨.rightBracket, o⟩ :: ls₁)) :
    Runs .bracket ls (.present (.index "" .absent (.present start) .absent false)) ls₁ := by
  apply Ends.of_succ
  simp only [bracket_of_pipe ih]
  exact Ends.bind ih (Ends.expect (.of_eq fun n => rfl))

/-! ### Strings -/

theorem Runs.string {parts qs o ls} (hparts : ∀ s, parts ≠ [.literal s]) (ih : Runs (.fragments parts) [] qs []) :
    Runs .string (⟨.str parts, o⟩ :: ls) (.text "" qs) ls := by
  refine ⟨parts, o, rfl, Ends.of_succ ?_⟩
  simp only [string_queries _ hparts]
  exact Ends.bind ih (.of_eq fun n => by simp; rfl)

/-! ### Objects -/

theorem Runs.moreEntries {e es o ls ls₁ ls₂} (ihe : Runs .objectEntry ls e (⟨.op .comma, o⟩ :: ls₁))
    (ihes : Runs .objectEntries ls₁ es ls₂) : Runs .objectEntries ls (.cons e es) ls₂ := by
  apply Ends.of_succ
  simp only [objectEntries_of_objectEntry ihe]
  exact Ends.bind ihe (Ends.bind ihes (.of_eq fun n => rfl))

theorem Runs.lastEntry {e o ls ls₁} (ihe : Runs .objectEntry ls e (⟨.rightBrace, o⟩ :: ls₁)) :
    Runs .objectEntries ls (.cons e .nil) ls₁ := by
  apply Ends.of_succ
  simp only [objectEntries_of_objectEntry ihe]
  exact Ends.bind ihe (Ends.expect (.of_eq fun n => rfl))

theorem Runs.textEntry {x v ls ls₁ ls₂} (ihx : Runs .string ls x ls₁)
    (ihv : Runs (.after .colon .objectValue) ls₁ v ls₂) :
    Runs .objectEntry ls (.entry "" (.present x) .absent v) ls₂ := by
  obtain ⟨parts, o, rfl, ihx⟩ := ihx
  refine Ends.of_succ (ihx.bind ((ends_optionally optionalValue_succ (runs_after ihv)).bind (.of_eq fun n => ?_)))
  simp
  rfl

theorem Runs.wordEntry {t key v o ls ls₁} (hkey : wordKey? t = some key)
    (ihv : Runs (.after .colon .objectValue) ls v ls₁) :
    Runs .objectEntry (⟨t, o⟩ :: ls) (.entry key .absent .absent v) ls₁ := by
  have hvalue := ends_optionally optionalValue_succ (runs_after ihv)
  apply Ends.of_succ
  simp only [objectEntry_word _ _ hkey]
  exact hvalue.bind (.of_eq fun n => by simp; rfl)

theorem Runs.objectValue {t ls ls₁} (ih : Runs .term ls t ls₁) (hnext : peek ls₁ ≠ .op .pipe) :
    Runs .objectValue ls (Query.ofTerm t) ls₁ := by
  apply Ends.of_succ
  simp only [Grammar.objectValue]
  refine Ends.bind ih (.of_eq fun n => ?_)
  dsimp only
  split
  · exact absurd rfl hnext
  · rfl

theorem Runs.pipedValue {t v o ls ls₁ ls₂} (iht : Runs .term ls t (⟨.op .pipe, o⟩ :: ls₁))
    (ihv : Runs .objectValue ls₁ v ls₂) : Runs .objectValue ls (Query.binary (Query.ofTerm t) .pipe v) ls₂ := by
  apply Ends.of_succ
  simp only [Grammar.objectValue]
  exact Ends.bind iht (Ends.bind ihv (.of_eq fun n => rfl))

/-! ### Patterns -/

theorem Runs.variablePatternEntry {name v o ls ls₁} (ihv : Runs (.after .colon .pattern) ls v ls₁) :
    Runs .patternEntry (⟨.variable name, o⟩ :: ls) (.patternEntry name .absent .absent v) ls₁ := by
  apply Ends.of_succ
  simp only [patternEntry_variable]
  exact (Ends.optionally (runs_after ihv)).bind (.of_eq fun n => by simp; rfl)

theorem Runs.textPatternEntry {x p o ls ls₁ ls₂} (ihx : Runs .string ls x (⟨.colon, o⟩ :: ls₁))
    (ihp : Runs .pattern ls₁ p ls₂) :
    Runs .patternEntry ls (.patternEntry "" (.present x) .absent (.present p)) ls₂ := by
  obtain ⟨parts, o₁, rfl, ihx⟩ := ihx
  exact Ends.of_succ (ihx.bind (Ends.expect (Ends.bind ihp (.of_eq fun n => rfl))))

theorem Runs.wordPatternEntry {t key p o o₁ ls ls₁} (hkey : wordKey? t = some key) (ihp : Runs .pattern ls p ls₁) :
    Runs .patternEntry (⟨t, o⟩ :: ⟨.colon, o₁⟩ :: ls) (.patternEntry key .absent .absent (.present p)) ls₁ := by
  apply Ends.of_succ
  simp only [patternEntry_word _ _ hkey]
  exact Ends.expect (Ends.bind ihp (.of_eq fun n => rfl))

/-! ### Lists -/

theorem Runs.branchesEnd {ls} (hnext : peek ls ≠ .keyword .elif) : Runs .branches ls .nil ls := by
  refine Ends.of_succ (.of_eq fun n => ?_)
  unfold Grammar.branches
  split
  · exact absurd rfl hnext
  · rfl

theorem Runs.branch {cond thenBranch bs o o₁ ls ls₁ ls₂ ls₃}
    (ihcond : Runs .pipe ls cond (⟨.keyword .then, o₁⟩ :: ls₁)) (ihthen : Runs .pipe ls₁ thenBranch ls₂)
    (ihbs : Runs .branches ls₂ bs ls₃) :
    Runs .branches (⟨.keyword .elif, o⟩ :: ls) (.cons (.branch cond thenBranch) bs) ls₃ := by
  refine Ends.of_succ (Ends.bind ihcond (Ends.expect (Ends.bind ihthen ?_)))
  exact Ends.bind ihbs (.of_eq fun n => rfl)

theorem Runs.definitionsEnd {ls} (hend : peek ls = .eof) : Runs .definitions ls .nil ls := by
  refine Ends.of_succ (.of_eq fun n => ?_)
  simp only [Grammar.definitions, hend]
  rfl

theorem Runs.definitions {d ds ls ls₁ ls₂} (ihd : Runs .definition ls d ls₁) (ihds : Runs .definitions ls₁ ds ls₂) :
    Runs .definitions ls (.cons d ds) ls₂ := by
  obtain ⟨hdefine, ihd⟩ := ihd
  apply Ends.of_succ
  simp only [definitions_define _ hdefine]
  exact ihd.bind (Ends.bind ihds (.of_eq fun n => rfl))

/-- **What the rules say a production reads, it reads**, given enough steps. -/
theorem Derives.runs {p : Production} {ls ls₁ : Lexemes} {n : Node p.shape} (h : Derives p ls n ls₁) :
    Runs p ls n ls₁ := by
  induction h with
  | definition _ hname hparams _ ih => exact Runs.definition hname hparams ih
  | localDefinition _ _ ihd ihq => exact Runs.localDefinition ihd ihq
  | pipe _ ih => exact Runs.pipe ih
  | binary hleft hq ihleft ihq => exact ends_binary ihleft ihq
  | binaryEnd hnext => exact ends_binaryRest_stop hnext
  | binaryMore ht hop hleast hright hchain hq ihright ihq => exact ends_binaryRest_more hop hleast ihright hchain ihq
  | pipeOperand h ih => exact ih
  | binaryOperand hop _ ih => exact Runs.binaryOperand hop ih
  | operand _ hnext ih => exact Runs.operand ih hnext
  | binding _ _ _ iht ihpatterns ihbody => exact Runs.binding iht ihpatterns ihbody
  | term _ _ iht ihs => exact Runs.term iht ihs
  | termQuery h ih => exact ⟨_, rfl, ih⟩
  | dotText _ ih => exact Runs.dotText ih
  | dotAccess h ih => exact Ends.of_succ (Ends.bind ih (.of_eq fun n => rfl))
  | dotIterate h ih => exact Ends.of_succ (Ends.bind ih (.of_eq fun n => rfl))
  | identity hstr hbracket => exact Runs.identity hstr hbracket
  | leaf _ hx => exact Runs.leaf hx
  | text _ ih => exact Runs.text ih
  | formatText _ _ ih => exact Runs.formatText ih
  | format _ hnext => exact Runs.format hnext
  | call _ _ ih => exact Runs.call ih
  | name ht hnext => exact Ends.of_succ (.of_eq fun n => primary_name n _ _ hnext)
  | parentheses h ih => exact Ends.of_succ (Ends.bind ih (Ends.expect (.of_eq fun n => rfl)))
  | emptyArray => exact Ends.of_succ (.of_eq fun n => rfl)
  | array _ ih => exact Runs.array ih
  | object h ih =>
    exact Ends.of_succ (Ends.bind ih (.of_eq fun n => rfl))
  | sign hop h ih =>
    rcases hop with rfl | rfl <;> exact Ends.of_succ (Ends.bind ih (.of_eq fun n => rfl))
  | conditional _ _ _ _ ihcond ihthen ihelifs ihelse => exact Runs.conditional ihcond ihthen ihelifs ihelse
  | attempt _ _ ihbody ihhandler => exact Runs.attempt ihbody ihhandler
  | reduce _ _ _ _ ihsource ihp ihstart ihupdate => exact Runs.reduce ihsource ihp ihstart ihupdate
  | foreach _ _ _ _ _ ihsource ihp ihstart ihupdate ihextract =>
    exact Runs.foreach ihsource ihp ihstart ihupdate ihextract
  | label ht h ih => exact Ends.of_succ (.bind_of_ok rfl (Ends.expect (Ends.bind ih (.of_eq fun n => rfl))))
  | «break» ht => exact Ends.of_succ (.bind_of_ok rfl (.of_eq fun n => rfl))
  | suffixesEnd hnext => exact Runs.suffixesEnd hnext
  | fieldSuffix ht h ih => exact Ends.of_succ (Ends.bind ih (.of_eq fun n => rfl))
  | textSuffix _ _ ihx ih => exact Runs.textSuffix ihx ih
  | @dotBracketSuffix i ss o o₁ ls ls₁ ls₂ hi h ihi ih =>
    cases i <;> exact Ends.of_succ (Ends.bind ihi (Ends.bind ih (.of_eq fun n => rfl)))
  | @bracketSuffix i ss o ls ls₁ ls₂ hi h ihi ih =>
    cases i <;> exact Ends.of_succ (Ends.bind ihi (Ends.bind ih (.of_eq fun n => rfl)))
  | questionSuffix h ih => exact Ends.of_succ (Ends.bind ih (.of_eq fun n => rfl))
  | alternativeSuffix h ih => exact Ends.of_succ (Ends.bind ih (.of_eq fun n => rfl))
  | iterate => exact Ends.of_succ (.of_eq fun n => rfl)
  | sliceTo h ih => exact Ends.of_succ (Ends.bind ih (Ends.expect (.of_eq fun n => rfl)))
  | sliceFrom _ ih => exact Runs.sliceFrom ih
  | slice _ _ ihstart ihstop => exact Runs.slice ihstart ihstop
  | position _ ih => exact Runs.position ih
  | plainString => exact ⟨_, _, rfl, Ends.of_succ (.of_eq fun n => rfl)⟩
  | string _ hparts _ ih => exact Runs.string hparts ih
  | fragmentsEnd => exact Ends.of_succ (.of_eq fun n => rfl)
  | literal h ih => exact Ends.of_succ (Ends.bind ih (.of_eq fun n => rfl))
  | interpolation hscan hq hend h ihq ih =>
    exact Ends.of_succ ((ends_whole hscan ihq hend).bind (Ends.bind ih (.of_eq fun n => rfl)))
  | entriesEnd => exact Ends.of_succ (.of_eq fun n => rfl)
  | moreEntries _ _ ihe ihes => exact Runs.moreEntries ihe ihes
  | lastEntry _ ihe => exact Runs.lastEntry ihe
  | variableEntry ht => exact Ends.of_succ (.of_eq fun n => rfl)
  | textEntry _ _ ihx ihv => exact Runs.textEntry ihx ihv
  | computedEntry hq hv ihq ihv =>
    exact Ends.of_succ (Ends.bind ihq (Ends.expect (Ends.expect (Ends.bind ihv (.of_eq fun n => rfl)))))
  | wordEntry _ hkey _ ihv => exact Runs.wordEntry hkey ihv
  | objectValue _ hnext ih => exact Runs.objectValue ih hnext
  | pipedValue _ _ iht ihv => exact Runs.pipedValue iht ihv
  | variablePattern ht => exact Ends.of_succ (.of_eq fun n => rfl)
  | arrayPattern h ih =>
    exact Ends.of_succ ((ends_listed patternItems_succ ih).bind (Ends.expect (.of_eq fun n => rfl)))
  | objectPattern h ih =>
    exact Ends.of_succ ((ends_listed patternEntries_succ ih).bind (Ends.expect (.of_eq fun n => rfl)))
  | variablePatternEntry _ _ ihv => exact Runs.variablePatternEntry ihv
  | textPatternEntry _ _ ihx ihp => exact Runs.textPatternEntry ihx ihp
  | computedPatternEntry hq hp ihq ihp =>
    exact Ends.of_succ (Ends.bind ihq (Ends.expect (Ends.expect (Ends.bind ihp (.of_eq fun n => rfl)))))
  | wordPatternEntry _ hkey _ ihp => exact Runs.wordPatternEntry hkey ihp
  | branchesEnd hnext => exact Runs.branchesEnd hnext
  | branch _ _ _ ihcond ihthen ihbs => exact Runs.branch ihcond ihthen ihbs
  | definitionsEnd hend => exact Runs.definitionsEnd hend
  | definitions _ _ ihd ihds => exact Runs.definitions ihd ihds
  | last h hnext ih => exact .last ih hnext
  | more hx hxs ihx ihxs => exact .more ihx ihxs
  | missing hnext => exact .inl ⟨rfl, rfl, hnext⟩
  | given h ih => exact .inr ⟨_, _, _, rfl, rfl, ih⟩

end Grammar

open Grammar

/-- **What has a derivation from all tokens of a source is parsed.** -/
theorem Query.parse_of_derives {source : String} {ls ls₁ : Lexemes} {q : Query} (hscan : Token.scan source 0 = .ok ls)
    (h : Derives .pipe ls q ls₁) (hend : peek ls₁ = .eof) : Query.parse source = .ok q := by
  have hwhole := whole_of_ends (ends_whole hscan h.runs hend)
  rw [Query.parse, hwhole]

theorem Definition.parseAll_of_derives {source : String} {ls ls₁ : Lexemes} {ds : Node (.list .definition)}
    (hscan : Token.scan source 0 = .ok ls) (h : Derives .definitions ls ds ls₁) :
    Definition.parseAll source = .ok ds.toList := by
  have hds := definitions_of_ends hscan h.runs
  rw [Definition.parseAll, hscan, scanned]
  dsimp only
  rw [hds]

end DefTable
