import DefTable.Proofs.Wording

/-!
# The parser loses, adds and reorders nothing

What a production reads is spelled again by the tree it makes (`Grammar.Derives.unparses`), up to the differences that
`Respelled` allows. Statements are about the lexemes of a production with whatever comes behind it: if the rest is the
wording `tail`, then the whole is the wording of the tree in front of `tail`. There is a lemma for every rule of the
grammar.
-/

namespace DefTable

/-! ## Names -/

namespace Token

theorem ofName_variable {name : String} (h : (Token.variable name).WellSpelled) : ofName name = .variable name := by
  rw [ofName, (isVariableKey_of_wellSpelled h).1, if_pos rfl]

theorem ofName_ident {name : String} (h : (Token.ident name).WellSpelled) : ofName name = .ident name := by
  rw [ofName, not_isVariableKey_of_isWord h.1, if_neg Bool.false_ne_true, ofWord, h.2]

theorem ofName_wordKey {t : Token} {key : String} (ht : t.WellSpelled) (h : Grammar.wordKey? t = some key) :
    ofName key = t ∧ t.isPlain = true := by
  cases t with
  | ident name =>
    cases h
    exact ⟨ofName_ident ht, rfl⟩
  | keyword k =>
    cases h
    cases k <;> exact ⟨rfl, rfl⟩
  | _ => cases h

theorem ofName_parameter {t : Token} {name : String} (ht : t.WellSpelled) (h : Grammar.parameter? t = some name) :
    ofName name = t ∧ t.isPlain = true := by
  cases t with
  | ident name =>
    cases h
    exact ⟨ofName_ident ht, rfl⟩
  | «variable» name =>
    cases h
    exact ⟨ofName_variable ht, rfl⟩
  | _ => cases h

theorem token_of_operator? {l : Lexeme} {op : Operator} (ht : l.token.WellSpelled)
    (h : Grammar.operator? [l] = some op) : l.token = op.token ∧ op.token.isPlain = true := by
  obtain ⟨t, o⟩ := l
  cases t with
  | op op' =>
    cases h
    obtain ⟨hand, hor⟩ := ht
    cases op <;> first | exact ⟨rfl, rfl⟩ | contradiction
  | keyword k => cases k <;> cases h <;> exact ⟨rfl, rfl⟩
  | _ => cases h

end Token

namespace Grammar

/-! ## Writing lexemes as a tree has them -/

/-- A source has a wording, up to what is allowed to differ. -/
def Written {l : Level} (raw : l.Carrier) (u : Wording l) : Prop :=
  ∃ w, Spells raw w ∧ Respelled w u

namespace Written

variable {ls : Lexemes} {parts : List StringPart} {o : Nat} {u : Wording .tokens} {ps : Wording .parts}

theorem finish (h : peek ls = .eof) : @Written .tokens ls .nil :=
  ⟨.nil, .finish h, .nil⟩

theorem token {t : Token} (ht : t.isPlain = true) (h : @Written .tokens ls u) :
    @Written .tokens (⟨t, o⟩ :: ls) (.token t u) := by
  obtain ⟨w, hw, hu⟩ := h
  exact ⟨.token t w, .token ht hw, .token hu⟩

theorem quote (hps : @Written .parts parts ps) (h : @Written .tokens ls u) :
    @Written .tokens (⟨.str parts, o⟩ :: ls) (.quote ps u) := by
  obtain ⟨w, hw, hu⟩ := h
  obtain ⟨v, hv, hps⟩ := hps
  exact ⟨.quote v w, .quote hv hw, .quote hps hu⟩

theorem plain (s : String) : @Written .parts [.literal s] (.text s .done) :=
  ⟨.text s .done, .text .done, .text .done⟩

theorem literal {s : String} (h : @Written .parts parts ps) :
    @Written .parts (.literal s :: parts) (.splice (.quote (.text s .done) .nil) ps) := by
  obtain ⟨w, hw, hu⟩ := h
  exact ⟨.text s w, .text hw, .literal hu⟩

theorem splice {source : String} {offset : Nat} (hscan : Token.scan source offset = .ok ls)
    (hu : @Written .tokens ls u) (h : @Written .parts parts ps) :
    @Written .parts (.interpolation source offset :: parts) (.splice u ps) := by
  obtain ⟨w, hw, hps⟩ := h
  obtain ⟨v, hv, hu⟩ := hu
  exact ⟨.splice v w, .splice hscan hv hw, .splice hu hps⟩

/-- The comma behind the last entry of an object is left out. -/
theorem comma {o₁ : Nat} (h : @Written .tokens (⟨.rightBrace, o₁⟩ :: ls) u) :
    @Written .tokens (⟨.op .comma, o⟩ :: ⟨.rightBrace, o₁⟩ :: ls) u := by
  obtain ⟨w, hw, hu⟩ := h
  cases hw with
  | finish h => cases h
  | @token _ _ _ w ht hw => exact ⟨_, .token rfl (.token rfl hw), .comma hu⟩

/-- The sign `?//` behind a term is a question mark and an operator. -/
theorem alternative {o₁ : Nat} (h : @Written .tokens (⟨.op .alt, o₁⟩ :: ls) u) :
    @Written .tokens (⟨.alternative, o⟩ :: ls) (.token .question u) := by
  obtain ⟨w, hw, hu⟩ := h
  cases hw with
  | finish h => cases h
  | @token _ _ _ w ht hw => exact ⟨_, .token rfl hw, .alternative hu⟩

/-- Brackets behind a term are written with a dot. -/
theorem dotBracket (h : @Written .tokens ls u) :
    @Written .tokens (⟨.leftBracket, o⟩ :: ls) (.token .dot (.token .leftBracket u)) := by
  obtain ⟨w, hw, hu⟩ := h
  exact ⟨.token .leftBracket w, .token rfl hw, .dotTree trivial (.token hu)⟩

/-- A dot with brackets is the identity with brackets behind it. -/
theorem dotDotBracket {o₁ : Nat} (h : @Written .tokens ls u) :
    @Written .tokens (⟨.dot, o⟩ :: ⟨.leftBracket, o₁⟩ :: ls) (.token .dot (.token .dot (.token .leftBracket u))) := by
  obtain ⟨w, hw, hu⟩ := h
  exact ⟨.token .dot (.token .leftBracket w), .token rfl (.token rfl hw), .dotTree trivial (.token (.token hu))⟩

end Written

/-! ## Derivations -/

/-- The productions that stand in lists and behind a token. -/
def Production.Plain : Production → Prop
  | .pipe | .termQuery | .objectValue | .pattern | .patternEntry => True
  | _ => False

/-- The wording of what a production reads. -/
@[simp] def Production.wording : (p : Production) → Node p.shape → Wording .tokens
  | .definition, n | .pipe, n | .binary _, n | .binaryRest _ _, n | .rightOperand _, n | .operand, n | .term, n => n.unparse
  | .termQuery, n | .primary, n | .suffixes, n | .string, n | .fragments _, n | .objectEntry, n => n.unparse
  | .objectValue, n | .pattern, n | .patternEntry, n | .branches, n | .definitions, n => n.unparse
  | .bracket, i => i.inBrackets
  | .objectEntries, es => es.joined (.op .comma) ++ .token .rightBrace .nil
  | .separated _ separator, ns => ns.joined separator
  | .after lead _, n => .whenNot n.isEmpty (.token lead n.unparse)

/-- The lexemes that a production takes have the wording of what it reads. What follows a left operand is what the
tree has behind that. -/
def Unparses : (p : Production) → Lexemes → Node p.shape → Lexemes → Prop
  | .binaryRest _ left, ls, q, ls₁ =>
    ∃ u, q.unparse = left.unparse ++ u ∧ ∀ {tail}, @Written .tokens ls₁ tail → @Written .tokens ls (u ++ tail)
  | .fragments parts, _, qs, _ => @Written .parts parts qs.splices
  | .separated item separator, ls, ns, ls₁ =>
    item.Plain → separator.isPlain = true →
      ∀ {tail}, @Written .tokens ls₁ tail → @Written .tokens ls (ns.joined separator ++ tail)
  | .after lead item, ls, n, ls₁ =>
    item.Plain → lead.isPlain = true → ∀ {tail}, @Written .tokens ls₁ tail →
      @Written .tokens ls (.whenNot n.isEmpty (.token lead n.unparse) ++ tail)
  | p, ls, n, ls₁ => ∀ {tail}, @Written .tokens ls₁ tail → @Written .tokens ls (p.wording n ++ tail)

theorem Parameters.written {ls : Lexemes} {names ls₁} (h : Parameters ls names ls₁) {tail : Wording .tokens}
    (htail : @Written .tokens ls₁ tail) : @Written .tokens ls (Node.paramsWording names ++ tail) := by
  induction h with
  | last ht hname hnext =>
    obtain ⟨hname, hplain⟩ := Token.ofName_parameter ht hname
    simp only [Node.paramsWording, hname]
    exact .token hplain htail
  | @more t name o o₁ ls names ls₁ ht hname h ih =>
    obtain ⟨hname, hplain⟩ := Token.ofName_parameter ht hname
    cases names with
    | nil => cases h
    | cons =>
      simp only [Node.paramsWording, hname]
      exact .token hplain (.token rfl (ih htail))

theorem ParameterList.written {ls : Lexemes} {names ls₁} (h : ParameterList ls names ls₁) {tail : Wording .tokens}
    (htail : @Written .tokens ls₁ tail) :
    @Written .tokens ls
      (.whenNot names.isEmpty (.token .leftParen (Node.paramsWording names ++ .token .rightParen .nil)) ++ tail) := by
  cases h with
  | none hnext => exact htail
  | some h =>
    cases names with
    | nil => cases h
    | cons =>
      simp only [List.isEmpty_cons, Wording.whenNot_false, Wording.token_append, Wording.append_assoc, Wording.nil_append]
      exact .token rfl (h.written (.token rfl htail))

theorem Unparses.plain {item : Production} (hp : item.Plain) {ls n ls₁} (h : Unparses item ls n ls₁)
    {tail : Wording .tokens} (htail : @Written .tokens ls₁ tail) : @Written .tokens ls (n.unparse ++ tail) := by
  cases item with
  | pipe => exact h htail
  | termQuery => exact h htail
  | objectValue => exact h htail
  | pattern => exact h htail
  | patternEntry => exact h htail
  | _ => exact absurd hp id

section
variable {ls ls₁ : Lexemes}

theorem Derives.unparse_bracket {i : Index} (h : Derives .bracket ls (.present i) ls₁) :
    i.unparse = .token .dot (.token .leftBracket (Node.inBrackets (.present i))) := by
  cases h <;> simp [Node.inBrackets]

theorem Derives.unparse_bracketSuffix {i : Node (.optional .index)} (h : Derives .bracket ls i ls₁) :
    (Grammar.bracketSuffix i).unparse = .token .dot (.token .leftBracket i.inBrackets) := by
  cases i with
  | absent => simp [Grammar.bracketSuffix, Node.inBrackets]
  | present i => simp only [Grammar.bracketSuffix, Node.unparse_suffixOfIndex, h.unparse_bracket]

theorem Derives.isEmpty_separated {item : Production} {separator : Token} {ns : Node (.list item.shape)}
    (h : Derives (.separated item separator) ls ns ls₁) : ns.isEmpty = false := by
  cases h <;> rfl

theorem Derives.isEmpty_fragments {parts : List StringPart} {qs : Node (.list .query)} (hne : parts ≠ [])
    (h : Derives (.fragments parts) ls qs ls₁) : qs.isEmpty = false := by
  cases h with
  | fragmentsEnd => exact absurd rfl hne
  | literal => rfl
  | interpolation => rfl

theorem unparse_leaf {t : Token} {x : Term} (ht : t.WellSpelled) (h : leaf? t = some x) :
    x.unparse = .token t .nil ∧ t.isPlain = true := by
  cases t with
  | dotDot =>
    cases h
    exact ⟨by simp [Term.ofKind], rfl⟩
  | field name =>
    cases h
    exact ⟨by simp [Node.unparse_indexOfName (Token.ne_empty_of_isWord ht)], rfl⟩
  | number digits =>
    cases h
    exact ⟨by simp, rfl⟩
  | «variable» name =>
    cases h
    exact ⟨by simp [Node.ofList, Token.ofName_variable ht], rfl⟩
  | _ => cases h

theorem unparse_bareName {name : String} (ht : (Token.ident name).WellSpelled) :
    (bareName name).unparse = .token (.ident name) .nil := by
  unfold bareName
  split
  · simp [Term.ofKind]
  · simp [Term.ofKind]
  · simp [Term.ofKind]
  · simp [Node.ofList, Token.ofName_ident ht]

end

/-! ## Rules

What a rule reads is spelled again when what its premises read is. -/

/-! ### Queries -/

theorem Unparses.definition {t name params body o o₁ o₂ o₃ ls ls₁ ls₂} (ht : t.WellSpelled)
    (hname : wordKey? t = some name) (hparams : ParameterList ls params (⟨.colon, o₂⟩ :: ls₁))
    (ih : Unparses .pipe ls₁ body (⟨.semicolon, o₃⟩ :: ls₂)) :
    Unparses .definition (⟨.keyword .define, o⟩ :: ⟨t, o₁⟩ :: ls) (.definition name params body) ls₂ := by
  intro tail htail
  obtain ⟨hname, hplain⟩ := Token.ofName_wordKey ht hname
  simp [hname]
  exact .token rfl (.token hplain (hparams.written (.token rfl (ih (.token rfl htail)))))

theorem Unparses.localDefinition {d q ls ls₁ ls₂} (ihd : Unparses .definition ls d ls₁)
    (ihq : Unparses .pipe ls₁ q ls₂) : Unparses .pipe ls (Query.withDefs (.cons d .nil) q) ls₂ := by
  intro tail htail
  simp
  exact ihd (ihq htail)

theorem Unparses.binary {least left q ls ls₁ ls₂} (ihleft : Unparses .operand ls left ls₁)
    (ihq : Unparses (.binaryRest least left) ls₁ q ls₂) : Unparses (.binary least) ls q ls₂ := by
  intro tail htail
  obtain ⟨u, hu, ihq⟩ := ihq
  simp [hu]
  exact ihleft (ihq htail)

theorem Unparses.binaryMore {least left op right q l ls ls₁ ls₂} (ht : l.token.WellSpelled)
    (hop : operator? [l] = some op) (ihright : Unparses (.rightOperand op) ls right ls₁)
    (ihq : Unparses (.binaryRest least (Query.binary left op right)) ls₁ q ls₂) :
    Unparses (.binaryRest least left) (l :: ls) q ls₂ := by
  obtain ⟨t, o⟩ := l
  obtain ⟨hop, hplain⟩ := Token.token_of_operator? ht hop
  subst hop
  obtain ⟨u, hu, ihq⟩ := ihq
  refine ⟨.token op.token (right.unparse ++ u), by simp [hu], ?_⟩
  intro tail htail
  simp
  exact .token hplain (ihright (ihq htail))

theorem Unparses.operand {t ls ls₁} (ih : Unparses .term ls t ls₁) : Unparses .operand ls (Query.ofTerm t) ls₁ := by
  intro tail htail
  simp
  exact ih htail

theorem Unparses.binding {t patterns body o o₁ ls ls₁ ls₂ ls₃} (iht : Unparses .term ls t (⟨.keyword .as, o⟩ :: ls₁))
    (ihpatterns : Unparses (.separated .pattern .alternative) ls₁ patterns (⟨.op .pipe, o₁⟩ :: ls₂))
    (ihbody : Unparses .pipe ls₂ body ls₃) :
    Unparses .operand ls (Query.ofTerm (Term.withSuffixes [Suffix.ofBinding patterns.toList body] t)) ls₃ := by
  intro tail htail
  simp [Node.ofList]
  exact iht (.token rfl (ihpatterns trivial rfl (.token rfl (ihbody htail))))

theorem Unparses.term {t ss ls ls₁ ls₂} (iht : Unparses .primary ls t ls₁) (ihs : Unparses .suffixes ls₁ ss ls₂) :
    Unparses .term ls (Term.withSuffixes ss.toList t) ls₂ := by
  intro tail htail
  simp
  exact iht (ihs htail)

theorem Unparses.termQuery {t ls ls₁} (ih : Unparses .term ls t ls₁) :
    Unparses .termQuery ls (Query.ofTerm t) ls₁ := by
  intro tail htail
  simp
  exact ih htail

/-! ### Terms -/

theorem Unparses.dotText {x o ls ls₁} (ih : Unparses .string ls x ls₁) :
    Unparses .primary (⟨.dot, o⟩ :: ls) (Term.ofIndex (Index.ofText x)) ls₁ := by
  intro tail htail
  simp
  exact .token rfl (ih htail)

theorem Unparses.dotAccess {i o o₁ ls ls₁} (h : Derives .bracket ls (.present i) ls₁)
    (ih : Unparses .bracket ls (.present i) ls₁) :
    Unparses .primary (⟨.dot, o⟩ :: ⟨.leftBracket, o₁⟩ :: ls) (Term.ofIndex i) ls₁ := by
  intro tail htail
  simp [h.unparse_bracket]
  exact .token rfl (.token rfl (ih htail))

theorem Unparses.dotIterate {o o₁ ls ls₁} (h : Derives .bracket ls .absent ls₁) :
    Unparses .primary (⟨.dot, o⟩ :: ⟨.leftBracket, o₁⟩ :: ls)
      (Term.withSuffixes [Suffix.iterate] (Term.ofKind .identity)) ls₁ := by
  intro tail htail
  cases h with
  | iterate =>
    simp [Node.ofList]
    exact .dotDotBracket (.token rfl htail)

theorem Unparses.identity {o ls} : Unparses .primary (⟨.dot, o⟩ :: ls) (Term.ofKind .identity) ls := by
  intro tail htail
  simp
  exact .token rfl htail

theorem Unparses.leaf {t x o ls} (ht : t.WellSpelled) (hx : leaf? t = some x) :
    Unparses .primary (⟨t, o⟩ :: ls) x ls := by
  intro tail htail
  obtain ⟨hx, hplain⟩ := unparse_leaf ht hx
  simp [hx]
  exact .token hplain htail

theorem Unparses.text {x ls ls₁} (ih : Unparses .string ls x ls₁) : Unparses .primary ls (Term.ofText x) ls₁ := by
  intro tail htail
  simp
  exact ih htail

theorem Unparses.formatText {name x o ls ls₁} (ih : Unparses .string ls x ls₁) :
    Unparses .primary (⟨.format name, o⟩ :: ls) (Term.ofFormat name (some x)) ls₁ := by
  intro tail htail
  simp [Node.ofOption]
  exact .token rfl (ih htail)

theorem Unparses.format {name o ls} : Unparses .primary (⟨.format name, o⟩ :: ls) (Term.ofFormat name none) ls := by
  intro tail htail
  simp [Node.ofOption]
  exact .token rfl htail

theorem Unparses.call {name args o o₁ o₂ ls ls₁} (ht : (Token.ident name).WellSpelled)
    (h : Derives (.separated .pipe .semicolon) ls args (⟨.rightParen, o₂⟩ :: ls₁))
    (ih : Unparses (.separated .pipe .semicolon) ls args (⟨.rightParen, o₂⟩ :: ls₁)) :
    Unparses .primary (⟨.ident name, o⟩ :: ⟨.leftParen, o₁⟩ :: ls) (Term.ofCall name args.toList) ls₁ := by
  intro tail htail
  simp [h.isEmpty_separated, Token.ofName_ident ht]
  exact .token rfl (.token rfl (ih trivial rfl (.token rfl htail)))

theorem Unparses.name {name o ls} (ht : (Token.ident name).WellSpelled) :
    Unparses .primary (⟨.ident name, o⟩ :: ls) (bareName name) ls := by
  intro tail htail
  simp [unparse_bareName ht]
  exact .token rfl htail

theorem Unparses.parentheses {q o o₁ ls ls₁} (ih : Unparses .pipe ls q (⟨.rightParen, o₁⟩ :: ls₁)) :
    Unparses .primary (⟨.leftParen, o⟩ :: ls) (Term.ofQuery q) ls₁ := by
  intro tail htail
  simp
  exact .token rfl (ih (.token rfl htail))

theorem Unparses.emptyArray {o o₁ ls} :
    Unparses .primary (⟨.leftBracket, o⟩ :: ⟨.rightBracket, o₁⟩ :: ls) (Term.ofArray none) ls := by
  intro tail htail
  simp [Node.ofOption]
  exact .token rfl (.token rfl htail)

theorem Unparses.array {q o o₁ ls ls₁} (ih : Unparses .pipe ls q (⟨.rightBracket, o₁⟩ :: ls₁)) :
    Unparses .primary (⟨.leftBracket, o⟩ :: ls) (Term.ofArray (some q)) ls₁ := by
  intro tail htail
  simp [Node.ofOption]
  exact .token rfl (ih (.token rfl htail))

theorem Unparses.object {es o ls ls₁} (ih : Unparses .objectEntries ls es ls₁) :
    Unparses .primary (⟨.leftBrace, o⟩ :: ls) (Term.ofObject es.toList) ls₁ := by
  intro tail htail
  have hentries := ih htail
  simp at hentries ⊢
  exact .token rfl hentries

theorem Unparses.sign {op t o ls ls₁} (hop : op = .sub ∨ op = .add) (ih : Unparses .term ls t ls₁) :
    Unparses .primary (⟨.op op, o⟩ :: ls) (Term.ofUnary op t) ls₁ := by
  intro tail htail
  simp
  rcases hop with rfl | rfl
  · exact .token rfl (ih htail)
  · exact .token rfl (ih htail)

theorem Unparses.conditional {cond thenBranch elifs elseBranch o o₁ o₂ ls ls₁ ls₂ ls₃ ls₄}
    (ihcond : Unparses .pipe ls cond (⟨.keyword .then, o₁⟩ :: ls₁)) (ihthen : Unparses .pipe ls₁ thenBranch ls₂)
    (ihelifs : Unparses .branches ls₂ elifs ls₃)
    (ihelse : Unparses (.after (.keyword .else) .pipe) ls₃ elseBranch (⟨.keyword .end, o₂⟩ :: ls₄)) :
    Unparses .primary (⟨.keyword .if, o⟩ :: ls)
      (Term.ofConditional (.conditional cond thenBranch elifs elseBranch)) ls₄ := by
  intro tail htail
  simp
  exact .token rfl (ihcond (.token rfl (ihthen (ihelifs (ihelse trivial rfl (.token rfl htail))))))

theorem Unparses.attempt {body handler o ls ls₁ ls₂} (ihbody : Unparses .termQuery ls body ls₁)
    (ihhandler : Unparses (.after (.keyword .catch) .termQuery) ls₁ handler ls₂) :
    Unparses .primary (⟨.keyword .try, o⟩ :: ls) (Term.ofAttempt (.attempt body handler)) ls₂ := by
  intro tail htail
  simp
  exact .token rfl (ihbody (ihhandler trivial rfl htail))

theorem Unparses.reduce {source p start update o o₁ o₂ o₃ o₄ ls ls₁ ls₂ ls₃ ls₄}
    (ihsource : Unparses .term ls source (⟨.keyword .as, o₁⟩ :: ls₁))
    (ihp : Unparses .pattern ls₁ p (⟨.leftParen, o₂⟩ :: ls₂))
    (ihstart : Unparses .pipe ls₂ start (⟨.semicolon, o₃⟩ :: ls₃))
    (ihupdate : Unparses .pipe ls₃ update (⟨.rightParen, o₄⟩ :: ls₄)) :
    Unparses .primary (⟨.keyword .reduce, o⟩ :: ls) (Term.ofReduce (.reduce source p start update)) ls₄ := by
  intro tail htail
  simp
  exact .token rfl (ihsource (.token rfl (ihp (.token rfl (ihstart (.token rfl (ihupdate (.token rfl htail))))))))

theorem Unparses.foreach {source p start update extract o o₁ o₂ o₃ o₄ ls ls₁ ls₂ ls₃ ls₄ ls₅}
    (ihsource : Unparses .term ls source (⟨.keyword .as, o₁⟩ :: ls₁))
    (ihp : Unparses .pattern ls₁ p (⟨.leftParen, o₂⟩ :: ls₂))
    (ihstart : Unparses .pipe ls₂ start (⟨.semicolon, o₃⟩ :: ls₃)) (ihupdate : Unparses .pipe ls₃ update ls₄)
    (ihextract : Unparses (.after .semicolon .pipe) ls₄ extract (⟨.rightParen, o₄⟩ :: ls₅)) :
    Unparses .primary (⟨.keyword .foreach, o⟩ :: ls) (Term.ofForeach (.foreach source p start update extract)) ls₅ := by
  intro tail htail
  have hparts := ihstart (.token rfl (ihupdate (ihextract trivial rfl (.token rfl htail))))
  simp at hparts ⊢
  exact .token rfl (ihsource (.token rfl (ihp (.token rfl hparts))))

theorem Unparses.label {name body o o₁ o₂ ls ls₁} (ih : Unparses .pipe ls body ls₁) :
    Unparses .primary (⟨.keyword .label, o⟩ :: ⟨.variable name, o₁⟩ :: ⟨.op .pipe, o₂⟩ :: ls) (Term.ofLabel name body)
      ls₁ := by
  intro tail htail
  simp
  exact .token rfl (.token rfl (.token rfl (ih htail)))

theorem Unparses.break {name o o₁ ls} :
    Unparses .primary (⟨.keyword .break, o⟩ :: ⟨.variable name, o₁⟩ :: ls) (Term.ofBreak name) ls := by
  intro tail htail
  simp
  exact .token rfl (.token rfl htail)

/-! ### Suffixes and brackets -/

theorem Unparses.fieldSuffix {name ss o ls ls₁} (ht : (Token.field name).WellSpelled)
    (ih : Unparses .suffixes ls ss ls₁) :
    Unparses .suffixes (⟨.field name, o⟩ :: ls) (.cons (Suffix.ofIndex (Index.ofName name)) ss) ls₁ := by
  intro tail htail
  simp [Node.unparse_indexOfName (Token.ne_empty_of_isWord ht)]
  exact .token rfl (ih htail)

theorem Unparses.textSuffix {x ss o ls ls₁ ls₂} (ihx : Unparses .string ls x ls₁) (ih : Unparses .suffixes ls₁ ss ls₂) :
    Unparses .suffixes (⟨.dot, o⟩ :: ls) (.cons (Suffix.ofIndex (Index.ofText x)) ss) ls₂ := by
  intro tail htail
  simp
  exact .token rfl (ihx (ih htail))

theorem Unparses.dotBracketSuffix {i ss o o₁ ls ls₁ ls₂} (hi : Derives .bracket ls i ls₁)
    (ihi : Unparses .bracket ls i ls₁) (ih : Unparses .suffixes ls₁ ss ls₂) :
    Unparses .suffixes (⟨.dot, o⟩ :: ⟨.leftBracket, o₁⟩ :: ls) (.cons (bracketSuffix i) ss) ls₂ := by
  intro tail htail
  simp [hi.unparse_bracketSuffix]
  exact .token rfl (.token rfl (ihi (ih htail)))

theorem Unparses.bracketSuffix {i ss o ls ls₁ ls₂} (hi : Derives .bracket ls i ls₁) (ihi : Unparses .bracket ls i ls₁)
    (ih : Unparses .suffixes ls₁ ss ls₂) :
    Unparses .suffixes (⟨.leftBracket, o⟩ :: ls) (.cons (bracketSuffix i) ss) ls₂ := by
  intro tail htail
  simp [hi.unparse_bracketSuffix]
  exact .dotBracket (ihi (ih htail))

theorem Unparses.questionSuffix {ss o ls ls₁} (ih : Unparses .suffixes ls ss ls₁) :
    Unparses .suffixes (⟨.question, o⟩ :: ls) (.cons Suffix.optional ss) ls₁ := by
  intro tail htail
  simp
  exact .token rfl (ih htail)

theorem Unparses.alternativeSuffix {ss o ls ls₁} (ih : Unparses .suffixes (⟨.op .alt, o⟩ :: ls) ss ls₁) :
    Unparses .suffixes (⟨.alternative, o⟩ :: ls) (.cons Suffix.optional ss) ls₁ := by
  intro tail htail
  simp
  exact .alternative (ih htail)

theorem Unparses.iterate {o ls} : Unparses .bracket (⟨.rightBracket, o⟩ :: ls) .absent ls := by
  intro tail htail
  simp [Node.inBrackets]
  exact .token rfl htail

theorem Unparses.sliceTo {stop o o₁ ls ls₁} (ih : Unparses .pipe ls stop (⟨.rightBracket, o₁⟩ :: ls₁)) :
    Unparses .bracket (⟨.colon, o⟩ :: ls) (.present (.index "" .absent .absent (.present stop) true)) ls₁ := by
  intro tail htail
  simp [Node.inBrackets]
  exact .token rfl (ih (.token rfl htail))

theorem Unparses.sliceFrom {start o o₁ ls ls₁}
    (ih : Unparses .pipe ls start (⟨.colon, o⟩ :: ⟨.rightBracket, o₁⟩ :: ls₁)) :
    Unparses .bracket ls (.present (.index "" .absent (.present start) .absent true)) ls₁ := by
  intro tail htail
  simp [Node.inBrackets]
  exact ih (.token rfl (.token rfl htail))

theorem Unparses.slice {start stop o o₁ ls ls₁ ls₂} (ihstart : Unparses .pipe ls start (⟨.colon, o⟩ :: ls₁))
    (ihstop : Unparses .pipe ls₁ stop (⟨.rightBracket, o₁⟩ :: ls₂)) :
    Unparses .bracket ls (.present (.index "" .absent (.present start) (.present stop) true)) ls₂ := by
  intro tail htail
  simp [Node.inBrackets]
  exact ihstart (.token rfl (ihstop (.token rfl htail)))

theorem Unparses.position {start o ls ls₁} (ih : Unparses .pipe ls start (⟨.rightBracket, o⟩ :: ls₁)) :
    Unparses .bracket ls (.present (.index "" .absent (.present start) .absent false)) ls₁ := by
  intro tail htail
  simp [Node.inBrackets]
  exact ih (.token rfl htail)

/-! ### Strings -/

theorem Unparses.plainString {s o ls} : Unparses .string (⟨.str [.literal s], o⟩ :: ls) (plainText s) ls := by
  intro tail htail
  simp
  exact .quote (.plain _) htail

theorem Unparses.string {parts qs o ls} (hne : parts ≠ []) (h : Derives (.fragments parts) [] qs [])
    (ih : Unparses (.fragments parts) [] qs []) : Unparses .string (⟨.str parts, o⟩ :: ls) (.text "" qs) ls := by
  intro tail htail
  simp [h.isEmpty_fragments hne]
  exact .quote ih htail

theorem Unparses.literal {s parts qs} (ih : Unparses (.fragments parts) [] qs []) :
    Unparses (.fragments (.literal s :: parts)) [] (.cons (Query.ofTerm (Term.ofText (plainText s))) qs) [] := by
  show @Written .parts _ _
  simp
  exact .literal ih

theorem Unparses.interpolation {source offset parts q qs ls ls₁} (hscan : Token.scan source offset = .ok ls)
    (ihq : Unparses .pipe ls q ls₁) (hend : peek ls₁ = .eof) (ih : Unparses (.fragments parts) [] qs []) :
    Unparses (.fragments (.interpolation source offset :: parts)) [] (.cons q qs) [] := by
  have hwhole := ihq (.finish hend)
  rw [Wording.append_nil] at hwhole
  exact .splice hscan hwhole ih

/-! ### Objects -/

theorem Unparses.moreEntries {e es o ls ls₁ ls₂} (ihe : Unparses .objectEntry ls e (⟨.op .comma, o⟩ :: ls₁))
    (hes : Derives .objectEntries ls₁ es ls₂) (ihes : Unparses .objectEntries ls₁ es ls₂) :
    Unparses .objectEntries ls (.cons e es) ls₂ := by
  intro tail htail
  cases es with
  | nil =>
    -- only the closing brace is left
    cases hes with
    | entriesEnd =>
      simp
      exact ihe (.comma (.token rfl htail))
  | cons =>
    have hes := ihes htail
    simp at hes ⊢
    exact ihe (.token rfl hes)

theorem Unparses.lastEntry {e o ls ls₁} (ihe : Unparses .objectEntry ls e (⟨.rightBrace, o⟩ :: ls₁)) :
    Unparses .objectEntries ls (.cons e .nil) ls₁ := by
  intro tail htail
  simp
  exact ihe (.token rfl htail)

theorem Unparses.variableEntry {name o ls} (ht : (Token.variable name).WellSpelled) :
    Unparses .objectEntry (⟨.variable name, o⟩ :: ls) (.entry name .absent .absent .absent) ls := by
  intro tail htail
  simp [(Token.isVariableKey_of_wellSpelled ht).2, Token.ofName_variable ht]
  exact .token rfl htail

theorem Unparses.textEntry {x v ls ls₁ ls₂} (ihx : Unparses .string ls x ls₁)
    (ihv : Unparses (.after .colon .objectValue) ls₁ v ls₂) :
    Unparses .objectEntry ls (.entry "" (.present x) .absent v) ls₂ := by
  intro tail htail
  simp
  exact ihx (ihv trivial rfl htail)

theorem Unparses.computedEntry {q v o o₁ o₂ ls ls₁ ls₂}
    (ihq : Unparses .pipe ls q (⟨.rightParen, o₁⟩ :: ⟨.colon, o₂⟩ :: ls₁)) (ihv : Unparses .objectValue ls₁ v ls₂) :
    Unparses .objectEntry (⟨.leftParen, o⟩ :: ls) (.entry "" .absent (.present q) (.present v)) ls₂ := by
  intro tail htail
  simp
  exact .token rfl (ihq (.token rfl (.token rfl (ihv htail))))

theorem Unparses.wordEntry {t key v o ls ls₁} (ht : t.WellSpelled) (hkey : wordKey? t = some key)
    (ihv : Unparses (.after .colon .objectValue) ls v ls₁) :
    Unparses .objectEntry (⟨t, o⟩ :: ls) (.entry key .absent .absent v) ls₁ := by
  intro tail htail
  have hne := (Token.wordKey_facts ht hkey).1
  obtain ⟨hkey, hplain⟩ := Token.ofName_wordKey ht hkey
  simp [hne, hkey]
  exact .token hplain (ihv trivial rfl htail)

theorem Unparses.objectValue {t ls ls₁} (ih : Unparses .term ls t ls₁) :
    Unparses .objectValue ls (Query.ofTerm t) ls₁ := by
  intro tail htail
  simp
  exact ih htail

theorem Unparses.pipedValue {t v o ls ls₁ ls₂} (iht : Unparses .term ls t (⟨.op .pipe, o⟩ :: ls₁))
    (ihv : Unparses .objectValue ls₁ v ls₂) :
    Unparses .objectValue ls (Query.binary (Query.ofTerm t) .pipe v) ls₂ := by
  intro tail htail
  simp
  exact iht (.token rfl (ihv htail))

/-! ### Patterns -/

theorem Unparses.variablePattern {name o ls} (ht : (Token.variable name).WellSpelled) :
    Unparses .pattern (⟨.variable name, o⟩ :: ls) (Pattern.ofVariable name) ls := by
  intro tail htail
  simp [Node.unparse_ofVariable (Token.isVariableKey_of_wellSpelled ht).2]
  exact .token rfl htail

theorem Unparses.arrayPattern {ps o o₁ ls ls₁}
    (h : Derives (.separated .pattern (.op .comma)) ls ps (⟨.rightBracket, o₁⟩ :: ls₁))
    (ih : Unparses (.separated .pattern (.op .comma)) ls ps (⟨.rightBracket, o₁⟩ :: ls₁)) :
    Unparses .pattern (⟨.leftBracket, o⟩ :: ls) (Pattern.ofArray ps.toList) ls₁ := by
  intro tail htail
  simp [Node.unparse_patternOfArray h.isEmpty_separated]
  exact .token rfl (ih trivial rfl (.token rfl htail))

theorem Unparses.objectPattern {es o o₁ ls ls₁}
    (h : Derives (.separated .patternEntry (.op .comma)) ls es (⟨.rightBrace, o₁⟩ :: ls₁))
    (ih : Unparses (.separated .patternEntry (.op .comma)) ls es (⟨.rightBrace, o₁⟩ :: ls₁)) :
    Unparses .pattern (⟨.leftBrace, o⟩ :: ls) (Pattern.ofObject es.toList) ls₁ := by
  intro tail htail
  simp [Node.unparse_patternOfObject h.isEmpty_separated]
  exact .token rfl (ih trivial rfl (.token rfl htail))

theorem Unparses.variablePatternEntry {name v o ls ls₁} (ht : (Token.variable name).WellSpelled)
    (ihv : Unparses (.after .colon .pattern) ls v ls₁) :
    Unparses .patternEntry (⟨.variable name, o⟩ :: ls) (.patternEntry name .absent .absent v) ls₁ := by
  intro tail htail
  simp [(Token.isVariableKey_of_wellSpelled ht).2, Token.ofName_variable ht]
  exact .token rfl (ihv trivial rfl htail)

theorem Unparses.textPatternEntry {x p o ls ls₁ ls₂} (ihx : Unparses .string ls x (⟨.colon, o⟩ :: ls₁))
    (ihp : Unparses .pattern ls₁ p ls₂) :
    Unparses .patternEntry ls (.patternEntry "" (.present x) .absent (.present p)) ls₂ := by
  intro tail htail
  simp
  exact ihx (.token rfl (ihp htail))

theorem Unparses.computedPatternEntry {q p o o₁ o₂ ls ls₁ ls₂}
    (ihq : Unparses .pipe ls q (⟨.rightParen, o₁⟩ :: ⟨.colon, o₂⟩ :: ls₁)) (ihp : Unparses .pattern ls₁ p ls₂) :
    Unparses .patternEntry (⟨.leftParen, o⟩ :: ls) (.patternEntry "" .absent (.present q) (.present p)) ls₂ := by
  intro tail htail
  simp
  exact .token rfl (ihq (.token rfl (.token rfl (ihp htail))))

theorem Unparses.wordPatternEntry {t key p o o₁ ls ls₁} (ht : t.WellSpelled) (hkey : wordKey? t = some key)
    (ihp : Unparses .pattern ls p ls₁) :
    Unparses .patternEntry (⟨t, o⟩ :: ⟨.colon, o₁⟩ :: ls) (.patternEntry key .absent .absent (.present p)) ls₁ := by
  intro tail htail
  have hne := (Token.wordKey_facts ht hkey).1
  obtain ⟨hkey, hplain⟩ := Token.ofName_wordKey ht hkey
  simp [hne, hkey]
  exact .token hplain (.token rfl (ihp htail))

/-! ### Lists -/

theorem Unparses.branch {cond thenBranch bs o o₁ ls ls₁ ls₂ ls₃}
    (ihcond : Unparses .pipe ls cond (⟨.keyword .then, o₁⟩ :: ls₁)) (ihthen : Unparses .pipe ls₁ thenBranch ls₂)
    (ihbs : Unparses .branches ls₂ bs ls₃) :
    Unparses .branches (⟨.keyword .elif, o⟩ :: ls) (.cons (.branch cond thenBranch) bs) ls₃ := by
  intro tail htail
  simp
  exact .token rfl (ihcond (.token rfl (ihthen (ihbs htail))))

theorem Unparses.definitions {d ds ls ls₁ ls₂} (ihd : Unparses .definition ls d ls₁)
    (ihds : Unparses .definitions ls₁ ds ls₂) : Unparses .definitions ls (.cons d ds) ls₂ := by
  intro tail htail
  simp
  exact ihd (ihds htail)

theorem Unparses.last {item : Production} {separator : Token} {x : Node item.shape} {ls ls₁}
    (ih : Unparses item ls x ls₁) : Unparses (.separated item separator) ls (.cons x .nil) ls₁ := by
  intro hplain htoken tail htail
  simp
  exact ih.plain hplain htail

theorem Unparses.more {item : Production} {separator : Token} {x : Node item.shape} {xs o ls ls₁ ls₂}
    (ihx : Unparses item ls x (⟨separator, o⟩ :: ls₁)) (hxs : Derives (.separated item separator) ls₁ xs ls₂)
    (ihxs : Unparses (.separated item separator) ls₁ xs ls₂) :
    Unparses (.separated item separator) ls (.cons x xs) ls₂ := by
  intro hplain htoken tail htail
  simp [hxs.isEmpty_separated]
  exact ihx.plain hplain (.token htoken (ihxs hplain htoken htail))

theorem Unparses.given {item : Production} {lead : Token} {x : Node item.shape} {o ls ls₁}
    (ih : Unparses item ls x ls₁) : Unparses (.after lead item) (⟨lead, o⟩ :: ls) (.present x) ls₁ := by
  intro hplain htoken tail htail
  simp
  exact .token htoken (ih.plain hplain htail)

/-- **The lexemes that a production takes have the wording of what it reads**, whatever comes behind them. -/
theorem Derives.unparses {p : Production} {ls ls₁ : Lexemes} {n : Node p.shape} (h : Derives p ls n ls₁) :
    Unparses p ls n ls₁ := by
  induction h with
  | definition ht hname hparams _ ih => exact Unparses.definition ht hname hparams ih
  | localDefinition _ _ ihd ihq => exact Unparses.localDefinition ihd ihq
  | pipe h ih => exact ih
  | binary _ _ ihleft ihq => exact Unparses.binary ihleft ihq
  | binaryEnd hnext => exact ⟨.nil, by simp, fun htail => htail⟩
  | binaryMore ht hop _ _ _ _ ihright ihq => exact Unparses.binaryMore ht hop ihright ihq
  | pipeOperand h ih => exact ih
  | binaryOperand hop h ih => exact ih
  | operand _ _ ih => exact Unparses.operand ih
  | binding _ _ _ iht ihpatterns ihbody => exact Unparses.binding iht ihpatterns ihbody
  | term _ _ iht ihs => exact Unparses.term iht ihs
  | termQuery _ ih => exact Unparses.termQuery ih
  | dotText _ ih => exact Unparses.dotText ih
  | dotAccess h ih => exact Unparses.dotAccess h ih
  | dotIterate h _ => exact Unparses.dotIterate h
  | identity _ _ => exact Unparses.identity
  | leaf ht hx => exact Unparses.leaf ht hx
  | text _ ih => exact Unparses.text ih
  | formatText _ _ ih => exact Unparses.formatText ih
  | format _ _ => exact Unparses.format
  | call ht h ih => exact Unparses.call ht h ih
  | name ht _ => exact Unparses.name ht
  | parentheses _ ih => exact Unparses.parentheses ih
  | emptyArray => exact Unparses.emptyArray
  | array _ ih => exact Unparses.array ih
  | object _ ih => exact Unparses.object ih
  | sign hop _ ih => exact Unparses.sign hop ih
  | conditional _ _ _ _ ihcond ihthen ihelifs ihelse => exact Unparses.conditional ihcond ihthen ihelifs ihelse
  | attempt _ _ ihbody ihhandler => exact Unparses.attempt ihbody ihhandler
  | reduce _ _ _ _ ihsource ihp ihstart ihupdate => exact Unparses.reduce ihsource ihp ihstart ihupdate
  | foreach _ _ _ _ _ ihsource ihp ihstart ihupdate ihextract =>
    exact Unparses.foreach ihsource ihp ihstart ihupdate ihextract
  | label _ _ ih => exact Unparses.label ih
  | «break» _ => exact Unparses.break
  | suffixesEnd hnext =>
    intro tail htail
    exact htail
  | fieldSuffix ht _ ih => exact Unparses.fieldSuffix ht ih
  | textSuffix _ _ ihx ih => exact Unparses.textSuffix ihx ih
  | dotBracketSuffix hi _ ihi ih => exact Unparses.dotBracketSuffix hi ihi ih
  | bracketSuffix hi _ ihi ih => exact Unparses.bracketSuffix hi ihi ih
  | questionSuffix _ ih => exact Unparses.questionSuffix ih
  | alternativeSuffix _ ih => exact Unparses.alternativeSuffix ih
  | iterate => exact Unparses.iterate
  | sliceTo _ ih => exact Unparses.sliceTo ih
  | sliceFrom _ ih => exact Unparses.sliceFrom ih
  | slice _ _ ihstart ihstop => exact Unparses.slice ihstart ihstop
  | position _ ih => exact Unparses.position ih
  | plainString => exact Unparses.plainString
  | string hne _ h ih => exact Unparses.string hne h ih
  | fragmentsEnd => exact ⟨.done, .done, .done⟩
  | literal _ ih => exact Unparses.literal ih
  | interpolation hscan _ hend _ ihq ih => exact Unparses.interpolation hscan ihq hend ih
  | entriesEnd =>
    intro tail htail
    exact .token rfl htail
  | moreEntries _ hes ihe ihes => exact Unparses.moreEntries ihe hes ihes
  | lastEntry _ ihe => exact Unparses.lastEntry ihe
  | variableEntry ht => exact Unparses.variableEntry ht
  | textEntry _ _ ihx ihv => exact Unparses.textEntry ihx ihv
  | computedEntry _ _ ihq ihv => exact Unparses.computedEntry ihq ihv
  | wordEntry ht hkey _ ihv => exact Unparses.wordEntry ht hkey ihv
  | objectValue _ _ ih => exact Unparses.objectValue ih
  | pipedValue _ _ iht ihv => exact Unparses.pipedValue iht ihv
  | variablePattern ht => exact Unparses.variablePattern ht
  | arrayPattern h ih => exact Unparses.arrayPattern h ih
  | objectPattern h ih => exact Unparses.objectPattern h ih
  | variablePatternEntry ht _ ihv => exact Unparses.variablePatternEntry ht ihv
  | textPatternEntry _ _ ihx ihp => exact Unparses.textPatternEntry ihx ihp
  | computedPatternEntry _ _ ihq ihp => exact Unparses.computedPatternEntry ihq ihp
  | wordPatternEntry ht hkey _ ihp => exact Unparses.wordPatternEntry ht hkey ihp
  | branchesEnd hnext =>
    intro tail htail
    exact htail
  | branch _ _ _ ihcond ihthen ihbs => exact Unparses.branch ihcond ihthen ihbs
  | definitionsEnd hend =>
    intro tail htail
    exact htail
  | definitions _ _ ihd ihds => exact Unparses.definitions ihd ihds
  | last _ _ ih => exact Unparses.last ih
  | more _ hxs ihx ihxs => exact Unparses.more ihx hxs ihxs
  | missing hnext =>
    intro hplain htoken tail htail
    exact htail
  | given _ ih => exact Unparses.given ih

end Grammar
end DefTable
