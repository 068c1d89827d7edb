import DefTable.Proofs.NextTokens
import DefTable.Proofs.Unparsing

/-!
# Reading the wording of a tree

Lexemes that have the wording of a tree which was read from a source are read into the same tree again
(`Grammar.Derives.again`). They need not be those of the source, so another token may come next (`NextTokens`). There
is a lemma for every rule of the grammar: what the rule reads is read again, if what its premises read is.
-/

namespace DefTable

/-! ## Reading a wording -/

theorem Spells.of_nil {ls : Lexemes} (h : @Spells .tokens ls .nil) : Grammar.peek ls = .eof := by
  cases h with
  | finish h => exact h

theorem Spells.of_text {parts : List StringPart} {s : String} (h : @Spells .parts parts (.text s .done)) :
    parts = [.literal s] := by
  cases h with
  | text h => cases h; rfl

namespace Grammar

/-- Where lexemes have a wording and then another, the other begins behind what `Q` says of the first. -/
def Rereads (w : Wording .tokens) (Q : Lexemes → Lexemes → Prop) : Prop :=
  ∀ ⦃ls' tail⦄, @Spells .tokens ls' (w ++ tail) → ∃ ls₁', @Spells .tokens ls₁' tail ∧ Q ls' ls₁'

/-- What begins with a wording alone ends behind it. -/
theorem Rereads.whole {w : Wording .tokens} {Q : Lexemes → Lexemes → Prop} {ls' : Lexemes} (h : Rereads w Q)
    (hls : @Spells .tokens ls' w) : ∃ ls₁', peek ls₁' = .eof ∧ Q ls' ls₁' := by
  rw [← Wording.append_nil w] at hls
  obtain ⟨ls₁', hend, hQ⟩ := h hls
  exact ⟨ls₁', hend.of_nil, hQ⟩

/-- What ends in front of a token is read again up to that token. -/
theorem Rereads.upTo {w tail : Wording .tokens} {Q : Lexemes → Lexemes → Prop} {t : Token} {o : Nat} {ls₁ ls' : Lexemes}
    (h : Rereads w fun ls' ls₁' => SameNext (⟨t, o⟩ :: ls₁) ls₁' → Q ls' ls₁') (ht : t ≠ .dot)
    (hls : @Spells .tokens ls' (w ++ .token t tail)) :
    ∃ o' ls₁', @Spells .tokens ls₁' tail ∧ Q ls' (⟨t, o'⟩ :: ls₁') := by
  obtain ⟨ls₁', hls, hQ⟩ := h hls
  obtain _ | ⟨-, hls⟩ := hls
  exact ⟨_, _, hls, hQ (.cons ht)⟩

/-- How lexemes are read that have the wording of what a production read before. What has no end of its own needs the
same token to come next; what may be empty tells which token it starts with. -/
def Again : (p : Production) → Lexemes → Node p.shape → Lexemes → Prop
  | .binaryRest least left, ls, q, ls₁ =>
    ∃ u, q.unparse = left.unparse ++ u ∧ Rereads u fun ls' ls₁' =>
      SameNext ls₁ ls₁' → Derives (.binaryRest least left) ls' q ls₁' ∧ SameNext ls ls'
  | .primary, _, t, ls₁ =>
    Rereads t.unparse fun ls' ls₁' => NearNext ls₁ ls₁' →
      ∀ {ss ls₂'}, Derives .suffixes ls₁' ss ls₂' → Derives .term ls' (Term.withSuffixes ss.toList t) ls₂'
  | .suffixes, ls, ss, ls₁ =>
    Rereads ss.unparse fun ls' ls₁' => SameNext ls₁ ls₁' → Derives .suffixes ls' ss ls₁' ∧ NearNext ls ls'
  | .fragments _, _, qs, _ =>
    ∀ {parts'}, @Spells .parts parts' qs.splices → Derives (.fragments parts') [] qs []
  | .branches, ls, bs, ls₁ =>
    Rereads bs.unparse fun ls' ls₁' => SameNext ls₁ ls₁' → Derives .branches ls' bs ls₁' ∧ SameNext ls ls'
  | .separated item separator, _, ns, ls₁ =>
    item.Plain → Separates separator → Rereads (ns.joined separator) fun ls' ls₁' =>
      SameNext ls₁ ls₁' → Derives (.separated item separator) ls' ns ls₁'
  | .after lead item, ls, n, ls₁ =>
    item.Plain → Separates lead → Rereads (.whenNot n.isEmpty (.token lead n.unparse)) fun ls' ls₁' =>
      SameNext ls₁ ls₁' → Derives (.after lead item) ls' n ls₁' ∧ SameNext ls ls'
  | .definition, _, d, _ => Rereads d.unparse fun ls' ls₁' => Derives .definition ls' d ls₁'
  | .bracket, _, i, _ => Rereads i.inBrackets fun ls' ls₁' => Derives .bracket ls' i ls₁'
  | .string, _, x, _ => Rereads x.unparse fun ls' ls₁' => Derives .string ls' x ls₁'
  | .objectEntries, _, es, _ =>
    Rereads (Production.objectEntries.wording es) fun ls' ls₁' => Derives .objectEntries ls' es ls₁'
  | p, _, n, ls₁ => Rereads (p.wording n) fun ls' ls₁' => SameNext ls₁ ls₁' → Derives p ls' n ls₁'

theorem Again.plain {item : Production} (hp : item.Plain) {ls n ls₁} (h : Again item ls n ls₁) :
    Rereads n.unparse fun ls' ls₁' => SameNext ls₁ ls₁' → Derives item ls' n ls₁' := by
  cases item with
  | pipe => exact h
  | termQuery => exact h
  | objectValue => exact h
  | pattern => exact h
  | patternEntry => exact h
  | _ => exact absurd hp id

theorem Parameters.again {ls : Lexemes} {names ls₁} (h : Parameters ls names ls₁) :
    Rereads (Node.paramsWording names) fun ls' ls₁' => peek ls₁' ≠ .semicolon → Parameters ls' names ls₁' := by
  induction h with
  | last ht hname hnext =>
    intro ls' tail h
    simp only [Node.paramsWording, (Token.ofName_parameter ht hname).1] at h
    obtain _ | ⟨-, h⟩ := h
    exact ⟨_, h, .last ht hname⟩
  | @more t name o o₁ ls names ls₁ ht hname h ih =>
    intro ls' tail h'
    cases names with
    | nil => cases h
    | cons =>
      simp only [Node.paramsWording, (Token.ofName_parameter ht hname).1] at h'
      obtain _ | ⟨-, h'⟩ := h'
      obtain _ | ⟨-, h'⟩ := h'
      obtain ⟨ls₁', h', hnames⟩ := ih h'
      exact ⟨_, h', fun hnext => .more ht hname (hnames hnext)⟩

theorem ParameterList.again {ls : Lexemes} {names ls₁} (h : ParameterList ls names ls₁) :
    Rereads (.whenNot names.isEmpty (.token .leftParen (Node.paramsWording names ++ .token .rightParen .nil)))
      fun ls' ls₁' => peek ls₁' ≠ .leftParen → ParameterList ls' names ls₁' := by
  intro ls' tail h'
  cases h with
  | none hnext => exact ⟨_, h', .none⟩
  | some h =>
    cases names with
    | nil => cases h
    | cons =>
      simp only [List.isEmpty_cons, Wording.whenNot_false, Wording.token_append, Wording.append_assoc,
        Wording.nil_append] at h'
      obtain _ | ⟨-, h'⟩ := h'
      obtain ⟨ls₁', h', hnames⟩ := h.again h'
      obtain _ | ⟨-, h'⟩ := h'
      exact ⟨_, h', fun _ => .some (hnames (by simp [peek]))⟩

/-! ## Strings -/

theorem Derives.eq_str {ls ls₁ : Lexemes} {x : Node .text} (h : Derives .string ls x ls₁) :
    ∃ parts o, ls = ⟨.str parts, o⟩ :: ls₁ := by
  cases h with
  | plainString => exact ⟨_, _, rfl⟩
  | string => exact ⟨_, _, rfl⟩

/-- A string as a query of its own. -/
theorem derives_plainText {ls : Lexemes} (s : String) (o : Nat) (hend : peek ls = .eof) :
    Derives .pipe (⟨.str [.literal s], o⟩ :: ls) (Query.ofTerm (Term.ofText (plainText s))) ls := by
  have hsuffixes : Derives .suffixes ls .nil ls := .suffixesEnd (not_startsSuffix hend rfl)
  have hterm : Derives .term (⟨.str [.literal s], o⟩ :: ls) (Term.ofText (plainText s)) ls :=
    .term (.text .plainString) hsuffixes
  have hoperator : operator? ls = none := by rw [operator?, hend]
  exact .pipe (.binary (.operand hterm (by simp [hend])) (.binaryEnd (by simp [hoperator])))

/-! ## Rules

What a rule reads is read again when what its premises read is. -/

/-! ### Queries -/

theorem Again.definition {t name params body o o₁ o₂ o₃ ls ls₁ ls₂} (ht : t.WellSpelled)
    (hname : wordKey? t = some name) (hparams : ParameterList ls params (⟨.colon, o₂⟩ :: ls₁))
    (ih : Again .pipe ls₁ body (⟨.semicolon, o₃⟩ :: ls₂)) :
    Again .definition (⟨.keyword .define, o⟩ :: ⟨t, o₁⟩ :: ls) (.definition name params body) ls₂ := by
  intro ls' tail h
  simp [(Token.ofName_wordKey ht hname).1] at h
  obtain _ | ⟨-, h⟩ := h
  obtain _ | ⟨-, h⟩ := h
  obtain ⟨ls', h, hparams⟩ := hparams.again h
  obtain _ | ⟨-, h⟩ := h
  obtain ⟨_, ls', h, hbody⟩ := Rereads.upTo ih (by simp) h
  exact ⟨_, h, .definition ht hname (hparams (by simp [peek])) hbody⟩

theorem Again.localDefinition {d q ls ls₁ ls₂} (ihd : Again .definition ls d ls₁) (ihq : Again .pipe ls₁ q ls₂) :
    Again .pipe ls (Query.withDefs (.cons d .nil) q) ls₂ := by
  intro ls' tail h
  simp at h
  obtain ⟨ls', h, hd⟩ := ihd h
  obtain ⟨ls', h, hq⟩ := ihq h
  exact ⟨_, h, fun hnext => .localDefinition hd (hq hnext)⟩

theorem Again.binary {least left q ls ls₁ ls₂} (ihleft : Again .operand ls left ls₁)
    (ihq : Again (.binaryRest least left) ls₁ q ls₂) : Again (.binary least) ls q ls₂ := by
  intro ls' tail h
  obtain ⟨u, hu, ihq⟩ := ihq
  simp [hu] at h
  obtain ⟨ls', h, hleft⟩ := ihleft h
  obtain ⟨ls', h, hq⟩ := ihq h
  refine ⟨_, h, fun hnext => ?_⟩
  obtain ⟨hq, hstart⟩ := hq hnext
  exact .binary (hleft hstart) hq

theorem Again.binaryEnd {least left ls} (hnext : ∀ op ∈ operator? ls, op.precedence < least) :
    Again (.binaryRest least left) ls left ls := by
  refine ⟨.nil, by simp, ?_⟩
  intro ls' tail h
  refine ⟨_, h, fun hsame => ⟨.binaryEnd ?_, hsame⟩⟩
  rcases hsame.operator? with hop | hop
  · rwa [hop]
  · simp [hop]

theorem Again.binaryMore {least left op right q l ls ls₁ ls₂} (ht : l.token.WellSpelled)
    (hop : operator? [l] = some op) (hleast : least ≤ op.precedence) (ihright : Again (.rightOperand op) ls right ls₁)
    (hchain : ¬ (op.associativity = .none ∧ (operator? ls₁).map Operator.precedence = some op.precedence))
    (ihq : Again (.binaryRest least (Query.binary left op right)) ls₁ q ls₂) :
    Again (.binaryRest least left) (l :: ls) q ls₂ := by
  obtain ⟨t, o⟩ := l
  obtain ⟨ht', -⟩ := Token.token_of_operator? ht hop
  subst ht'
  obtain ⟨u, hu, ihq⟩ := ihq
  refine ⟨.token op.token (right.unparse ++ u), by simp [hu], ?_⟩
  intro ls' tail h
  simp at h
  obtain _ | ⟨-, h⟩ := h
  obtain ⟨ls₁', h, hright⟩ := ihright h
  obtain ⟨ls₂', h, hq⟩ := ihq h
  refine ⟨_, h, fun hnext => ?_⟩
  obtain ⟨hq, hstart⟩ := hq hnext
  have hchain' : ¬ (op.associativity = .none ∧
      (Grammar.operator? ls₁').map Operator.precedence = some op.precedence) := by
    rcases hstart.operator? with hop | hop
    · rwa [hop]
    · simp [hop]
  exact ⟨.binaryMore ht hop hleast (hright hstart) hchain' hq, .cons (by cases op <;> simp [Operator.token])⟩

theorem Again.operand {t ls ls₁} (ih : Again .term ls t ls₁) (hnext : peek ls₁ ≠ .keyword .as) :
    Again .operand ls (Query.ofTerm t) ls₁ := by
  intro ls' tail h
  simp at h
  obtain ⟨ls', h, ht⟩ := ih h
  exact ⟨_, h, fun hsame => .operand (ht hsame) (hsame.ne hnext (by simp))⟩

theorem Again.binding {t patterns body o o₁ ls ls₁ ls₂ ls₃} (iht : Again .term ls t (⟨.keyword .as, o⟩ :: ls₁))
    (ihpatterns : Again (.separated .pattern .alternative) ls₁ patterns (⟨.op .pipe, o₁⟩ :: ls₂))
    (ihbody : Again .pipe ls₂ body ls₃) :
    Again .operand ls (Query.ofTerm (Term.withSuffixes [Suffix.ofBinding patterns.toList body] t)) ls₃ := by
  intro ls' tail h
  simp [Node.ofList] at h
  obtain ⟨_, ls', h, ht⟩ := Rereads.upTo iht (by simp) h
  obtain ⟨_, ls', h, hpatterns⟩ := Rereads.upTo (ihpatterns trivial (by decide)) (by simp) h
  obtain ⟨ls', h, hbody⟩ := ihbody h
  exact ⟨_, h, fun hnext => .binding ht hpatterns (hbody hnext)⟩

theorem Again.term {t ss ls ls₁ ls₂} (iht : Again .primary ls t ls₁) (ihs : Again .suffixes ls₁ ss ls₂) :
    Again .term ls (Term.withSuffixes ss.toList t) ls₂ := by
  intro ls' tail h
  simp at h
  obtain ⟨ls', h, ht⟩ := iht h
  obtain ⟨ls', h, hs⟩ := ihs h
  refine ⟨_, h, fun hnext => ?_⟩
  obtain ⟨hs, hnear⟩ := hs hnext
  exact ht hnear hs

theorem Again.termQuery {t ls ls₁} (ih : Again .term ls t ls₁) : Again .termQuery ls (Query.ofTerm t) ls₁ := by
  intro ls' tail h
  simp at h
  obtain ⟨ls', h, ht⟩ := ih h
  exact ⟨_, h, fun hnext => .termQuery (ht hnext)⟩

/-! ### Terms -/

/-- A term that is read again by itself is read again with the suffixes that follow. -/
theorem Again.of_primary {ls : Lexemes} {t : Term} {ls₁ : Lexemes}
    (h : Rereads t.unparse fun ls' ls₁' => NearNext ls₁ ls₁' → Derives .primary ls' t ls₁') :
    Again .primary ls t ls₁ := by
  intro ls' tail hls
  obtain ⟨ls₁', hls, ht⟩ := h hls
  exact ⟨ls₁', hls, fun hnear _ _ hs => .term (ht hnear) hs⟩

theorem Again.dotText {x o ls ls₁} (ih : Again .string ls x ls₁) :
    Again .primary (⟨.dot, o⟩ :: ls) (Term.ofIndex (Index.ofText x)) ls₁ := by
  apply Again.of_primary
  intro ls' tail h
  simp at h
  obtain _ | ⟨-, h⟩ := h
  obtain ⟨ls', h, hx⟩ := ih h
  exact ⟨_, h, fun _ => .dotText hx⟩

theorem Again.dotAccess {i o o₁ ls ls₁} (h : Derives .bracket ls (.present i) ls₁)
    (ih : Again .bracket ls (.present i) ls₁) :
    Again .primary (⟨.dot, o⟩ :: ⟨.leftBracket, o₁⟩ :: ls) (Term.ofIndex i) ls₁ := by
  apply Again.of_primary
  intro ls' tail h'
  simp [h.unparse_bracket] at h'
  obtain _ | ⟨-, h'⟩ := h'
  obtain _ | ⟨-, h'⟩ := h'
  obtain ⟨ls', h', hi⟩ := ih h'
  exact ⟨_, h', fun _ => .dotAccess hi⟩

/-- The dot in front of brackets is a token of its own now, and the first one is the identity. -/
theorem Again.dotIterate {o o₁ ls ls₁} :
    Again .primary (⟨.dot, o⟩ :: ⟨.leftBracket, o₁⟩ :: ls)
      (Term.withSuffixes [Suffix.iterate] (Term.ofKind .identity)) ls₁ := by
  intro ls' tail h'
  simp [Node.ofList] at h'
  obtain _ | ⟨-, h'⟩ := h'
  obtain _ | ⟨-, h'⟩ := h'
  obtain _ | ⟨-, h'⟩ := h'
  obtain _ | ⟨-, h'⟩ := h'
  refine ⟨_, h', fun _ ss _ hs => ?_⟩
  show Derives .term _
    (Term.withSuffixes (Node.cons (Grammar.bracketSuffix .absent) ss).toList (Term.ofKind .identity)) _
  exact .term (.identity (by simp [peek]) (by simp [peek])) (.dotBracketSuffix .iterate hs)

theorem Again.identity {o ls} (hstr : ∀ parts, peek ls ≠ .str parts) (hbracket : peek ls ≠ .leftBracket) :
    Again .primary (⟨.dot, o⟩ :: ls) (Term.ofKind .identity) ls := by
  apply Again.of_primary
  intro ls' tail h
  simp at h
  obtain _ | ⟨-, h⟩ := h
  refine ⟨_, h, fun hnear => .identity (fun parts => ?_) ?_⟩
  · exact hnear.ne (hstr parts) (by simp) (by simp [opensSuffix])
  · exact hnear.ne hbracket (by simp) fun _ => rfl

theorem Again.leaf {t x o ls} (ht : t.WellSpelled) (hx : leaf? t = some x) : Again .primary (⟨t, o⟩ :: ls) x ls := by
  apply Again.of_primary
  intro ls' tail h
  simp [(unparse_leaf ht hx).1] at h
  obtain _ | ⟨-, h⟩ := h
  exact ⟨_, h, fun _ => .leaf ht hx⟩

theorem Again.text {x ls ls₁} (ih : Again .string ls x ls₁) : Again .primary ls (Term.ofText x) ls₁ := by
  apply Again.of_primary
  intro ls' tail h
  simp at h
  obtain ⟨ls', h, hx⟩ := ih h
  exact ⟨_, h, fun _ => .text hx⟩

theorem Again.formatText {name x o ls ls₁} (ht : (Token.format name).WellSpelled) (ih : Again .string ls x ls₁) :
    Again .primary (⟨.format name, o⟩ :: ls) (Term.ofFormat name (some x)) ls₁ := by
  apply Again.of_primary
  intro ls' tail h
  simp [Node.ofOption] at h
  obtain _ | ⟨-, h⟩ := h
  obtain ⟨ls', h, hx⟩ := ih h
  exact ⟨_, h, fun _ => .formatText ht hx⟩

theorem Again.format {name o ls} (ht : (Token.format name).WellSpelled) (hnext : ∀ parts, peek ls ≠ .str parts) :
    Again .primary (⟨.format name, o⟩ :: ls) (Term.ofFormat name none) ls := by
  apply Again.of_primary
  intro ls' tail h
  simp [Node.ofOption] at h
  obtain _ | ⟨-, h⟩ := h
  refine ⟨_, h, fun hnear => .format ht fun parts => ?_⟩
  exact hnear.ne (hnext parts) (by simp) (by simp [opensSuffix])

theorem Again.call {name args o o₁ o₂ ls ls₁} (ht : (Token.ident name).WellSpelled)
    (h : Derives (.separated .pipe .semicolon) ls args (⟨.rightParen, o₂⟩ :: ls₁))
    (ih : Again (.separated .pipe .semicolon) ls args (⟨.rightParen, o₂⟩ :: ls₁)) :
    Again .primary (⟨.ident name, o⟩ :: ⟨.leftParen, o₁⟩ :: ls) (Term.ofCall name args.toList) ls₁ := by
  apply Again.of_primary
  intro ls' tail h'
  simp [h.isEmpty_separated, Token.ofName_ident ht] at h'
  obtain _ | ⟨-, h'⟩ := h'
  obtain _ | ⟨-, h'⟩ := h'
  obtain ⟨_, ls', h', hargs⟩ := Rereads.upTo (ih trivial (by decide)) (by simp) h'
  exact ⟨_, h', fun _ => .call ht hargs⟩

theorem Again.name {name o ls} (ht : (Token.ident name).WellSpelled) (hnext : peek ls ≠ .leftParen) :
    Again .primary (⟨.ident name, o⟩ :: ls) (bareName name) ls := by
  apply Again.of_primary
  intro ls' tail h
  simp [unparse_bareName ht] at h
  obtain _ | ⟨-, h⟩ := h
  refine ⟨_, h, fun hnear => .name ht ?_⟩
  exact hnear.ne hnext (by simp) (by simp [opensSuffix])

theorem Again.parentheses {q o o₁ ls ls₁} (ih : Again .pipe ls q (⟨.rightParen, o₁⟩ :: ls₁)) :
    Again .primary (⟨.leftParen, o⟩ :: ls) (Term.ofQuery q) ls₁ := by
  apply Again.of_primary
  intro ls' tail h
  simp at h
  obtain _ | ⟨-, h⟩ := h
  obtain ⟨_, ls', h, hq⟩ := Rereads.upTo ih (by simp) h
  exact ⟨_, h, fun _ => .parentheses hq⟩

theorem Again.emptyArray {o o₁ ls} :
    Again .primary (⟨.leftBracket, o⟩ :: ⟨.rightBracket, o₁⟩ :: ls) (Term.ofArray none) ls := by
  apply Again.of_primary
  intro ls' tail h
  simp [Node.ofOption] at h
  obtain _ | ⟨-, h⟩ := h
  obtain _ | ⟨-, h⟩ := h
  exact ⟨_, h, fun _ => .emptyArray⟩

theorem Again.array {q o o₁ ls ls₁} (ih : Again .pipe ls q (⟨.rightBracket, o₁⟩ :: ls₁)) :
    Again .primary (⟨.leftBracket, o⟩ :: ls) (Term.ofArray (some q)) ls₁ := by
  apply Again.of_primary
  intro ls' tail h
  simp [Node.ofOption] at h
  obtain _ | ⟨-, h⟩ := h
  obtain ⟨_, ls', h, hq⟩ := Rereads.upTo ih (by simp) h
  exact ⟨_, h, fun _ => .array hq⟩

theorem Again.object {es o ls ls₁} (ih : Again .objectEntries ls es ls₁) :
    Again .primary (⟨.leftBrace, o⟩ :: ls) (Term.ofObject es.toList) ls₁ := by
  apply Again.of_primary
  intro ls' tail h
  simp only [Node.unparse_ofObject, Node.ofList_toList, Node.unparse, Wording.token_append] at h
  obtain _ | ⟨-, h⟩ := h
  obtain ⟨ls', h, hes⟩ := ih h
  exact ⟨_, h, fun _ => .object hes⟩

theorem Again.sign {op t o ls ls₁} (hop : op = .sub ∨ op = .add) (h : Derives .term ls t ls₁)
    (ih : Again .term ls t ls₁) : Again .primary (⟨.op op, o⟩ :: ls) (Term.ofUnary op t) ls₁ := by
  apply Again.of_primary
  intro ls' tail h'
  have htoken : op.token = .op op := by rcases hop with rfl | rfl <;> rfl
  simp [htoken] at h'
  obtain _ | ⟨-, h'⟩ := h'
  obtain ⟨ls', h', ht⟩ := ih h'
  exact ⟨_, h', fun hnear => .sign hop (ht (hnear.same h.unsuffixed))⟩

theorem Again.conditional {cond thenBranch elifs elseBranch o o₁ o₂ ls ls₁ ls₂ ls₃ ls₄}
    (ihcond : Again .pipe ls cond (⟨.keyword .then, o₁⟩ :: ls₁)) (ihthen : Again .pipe ls₁ thenBranch ls₂)
    (ihelifs : Again .branches ls₂ elifs ls₃)
    (ihelse : Again (.after (.keyword .else) .pipe) ls₃ elseBranch (⟨.keyword .end, o₂⟩ :: ls₄)) :
    Again .primary (⟨.keyword .if, o⟩ :: ls)
      (Term.ofConditional (.conditional cond thenBranch elifs elseBranch)) ls₄ := by
  apply Again.of_primary
  intro ls' tail h
  simp at h
  obtain _ | ⟨-, h⟩ := h
  obtain ⟨_, ls', h, hcond⟩ := Rereads.upTo ihcond (by simp) h
  obtain ⟨ls', h, hthen⟩ := ihthen h
  obtain ⟨ls', h, helifs⟩ := ihelifs h
  obtain ⟨_, ls', h, helse⟩ := Rereads.upTo (ihelse trivial (by decide)) (by simp) h
  refine ⟨_, h, fun _ => ?_⟩
  obtain ⟨helse, hnext⟩ := helse
  obtain ⟨helifs, hnext⟩ := helifs hnext
  exact .conditional hcond (hthen hnext) helifs helse

theorem Again.attempt {body handler o ls ls₁ ls₂} (hbody : Derives .termQuery ls body ls₁)
    (ihbody : Again .termQuery ls body ls₁) (hhandler : Derives (.after (.keyword .catch) .termQuery) ls₁ handler ls₂)
    (ihhandler : Again (.after (.keyword .catch) .termQuery) ls₁ handler ls₂) :
    Again .primary (⟨.keyword .try, o⟩ :: ls) (Term.ofAttempt (.attempt body handler)) ls₂ := by
  apply Again.of_primary
  intro ls' tail h
  simp at h
  obtain _ | ⟨-, h⟩ := h
  obtain ⟨ls', h, hbody'⟩ := ihbody h
  obtain ⟨ls', h, hhandler'⟩ := ihhandler trivial (by decide) h
  refine ⟨_, h, fun hnear => ?_⟩
  obtain ⟨hhandler, hnext⟩ := hhandler' (hnear.same (hhandler.unsuffixed hbody.unsuffixed))
  exact .attempt (hbody' hnext) hhandler

theorem Again.reduce {source p start update o o₁ o₂ o₃ o₄ ls ls₁ ls₂ ls₃ ls₄}
    (ihsource : Again .term ls source (⟨.keyword .as, o₁⟩ :: ls₁))
    (ihp : Again .pattern ls₁ p (⟨.leftParen, o₂⟩ :: ls₂)) (ihstart : Again .pipe ls₂ start (⟨.semicolon, o₃⟩ :: ls₃))
    (ihupdate : Again .pipe ls₃ update (⟨.rightParen, o₄⟩ :: ls₄)) :
    Again .primary (⟨.keyword .reduce, o⟩ :: ls) (Term.ofReduce (.reduce source p start update)) ls₄ := by
  apply Again.of_primary
  intro ls' tail h
  simp at h
  obtain _ | ⟨-, h⟩ := h
  obtain ⟨_, ls', h, hsource⟩ := Rereads.upTo ihsource (by simp) h
  obtain ⟨_, ls', h, hp⟩ := Rereads.upTo ihp (by simp) h
  obtain ⟨_, ls', h, hstart⟩ := Rereads.upTo ihstart (by simp) h
  obtain ⟨_, ls', h, hupdate⟩ := Rereads.upTo ihupdate (by simp) h
  exact ⟨_, h, fun _ => .reduce hsource hp hstart hupdate⟩

theorem Again.foreach {source p start update extract o o₁ o₂ o₃ o₄ ls ls₁ ls₂ ls₃ ls₄ ls₅}
    (ihsource : Again .term ls source (⟨.keyword .as, o₁⟩ :: ls₁))
    (ihp : Again .pattern ls₁ p (⟨.leftParen, o₂⟩ :: ls₂)) (ihstart : Again .pipe ls₂ start (⟨.semicolon, o₃⟩ :: ls₃))
    (ihupdate : Again .pipe ls₃ update ls₄)
    (ihextract : Again (.after .semicolon .pipe) ls₄ extract (⟨.rightParen, o₄⟩ :: ls₅)) :
    Again .primary (⟨.keyword .foreach, o⟩ :: ls) (Term.ofForeach (.foreach source p start update extract)) ls₅ := by
  apply Again.of_primary
  intro ls' tail h
  simp only [Node.unparse_ofForeach, Node.unparse, Wording.token_append, Wording.append_assoc,
    Wording.nil_append] at h
  obtain _ | ⟨-, h⟩ := h
  obtain ⟨_, ls', h, hsource⟩ := Rereads.upTo ihsource (by simp) h
  obtain ⟨_, ls', h, hp⟩ := Rereads.upTo ihp (by simp) h
  obtain ⟨_, ls', h, hstart⟩ := Rereads.upTo ihstart (by simp) h
  obtain ⟨ls', h, hupdate⟩ := ihupdate h
  obtain ⟨_, ls', h, hextract⟩ := Rereads.upTo (ihextract trivial (by decide)) (by simp) h
  obtain ⟨hextract, hnext⟩ := hextract
  exact ⟨_, h, fun _ => .foreach hsource hp hstart (hupdate hnext) hextract⟩

theorem Again.label {name body o o₁ o₂ ls ls₁} (ht : (Token.variable name).WellSpelled)
    (h : Derives .pipe ls body ls₁) (ih : Again .pipe ls body ls₁) :
    Again .primary (⟨.keyword .label, o⟩ :: ⟨.variable name, o₁⟩ :: ⟨.op .pipe, o₂⟩ :: ls) (Term.ofLabel name body)
      ls₁ := by
  apply Again.of_primary
  intro ls' tail h'
  simp at h'
  obtain _ | ⟨-, h'⟩ := h'
  obtain _ | ⟨-, h'⟩ := h'
  obtain _ | ⟨-, h'⟩ := h'
  obtain ⟨ls', h', hbody⟩ := ih h'
  exact ⟨_, h', fun hnear => .label ht (hbody (hnear.same h.unsuffixed))⟩

theorem Again.break {name o o₁ ls} (ht : (Token.variable name).WellSpelled) :
    Again .primary (⟨.keyword .break, o⟩ :: ⟨.variable name, o₁⟩ :: ls) (Term.ofBreak name) ls := by
  apply Again.of_primary
  intro ls' tail h
  simp at h
  obtain _ | ⟨-, h⟩ := h
  obtain _ | ⟨-, h⟩ := h
  exact ⟨_, h, fun _ => .break ht⟩

/-! ### Suffixes and brackets -/

theorem Again.fieldSuffix {name ss o ls ls₁} (ht : (Token.field name).WellSpelled) (ih : Again .suffixes ls ss ls₁) :
    Again .suffixes (⟨.field name, o⟩ :: ls) (.cons (Suffix.ofIndex (Index.ofName name)) ss) ls₁ := by
  intro ls' tail h
  simp [Node.unparse_indexOfName (Token.ne_empty_of_isWord ht)] at h
  obtain _ | ⟨-, h⟩ := h
  obtain ⟨ls', h, hss⟩ := ih h
  exact ⟨_, h, fun hnext => ⟨.fieldSuffix ht (hss hnext).1, .inr ⟨trivial, trivial, by simp [peek]⟩⟩⟩

theorem Again.textSuffix {x ss o ls ls₁ ls₂} (hx : Derives .string ls x ls₁) (ihx : Again .string ls x ls₁)
    (ih : Again .suffixes ls₁ ss ls₂) :
    Again .suffixes (⟨.dot, o⟩ :: ls) (.cons (Suffix.ofIndex (Index.ofText x)) ss) ls₂ := by
  intro ls' tail h
  simp at h
  obtain _ | ⟨-, h⟩ := h
  obtain ⟨ls', h, hx'⟩ := ihx h
  obtain ⟨ls', h, hss⟩ := ih h
  refine ⟨_, h, fun hnext => ⟨.textSuffix hx' (hss hnext).1, ?_⟩⟩
  obtain ⟨parts, o, rfl⟩ := hx.eq_str
  obtain ⟨parts', o', rfl⟩ := hx'.eq_str
  exact .inr ⟨trivial, trivial, by simp [peek]⟩

/-- Brackets are written with a dot in front. -/
theorem Again.brackets {i ss start ls ls₁ ls₂} (hstart : StartsSuffix start) (hi : Derives .bracket ls i ls₁)
    (ihi : Again .bracket ls i ls₁) (ih : Again .suffixes ls₁ ss ls₂) :
    Again .suffixes start (.cons (bracketSuffix i) ss) ls₂ := by
  intro ls' tail h
  simp [hi.unparse_bracketSuffix] at h
  obtain _ | ⟨-, h⟩ := h
  obtain _ | ⟨-, h⟩ := h
  obtain ⟨ls', h, hi⟩ := ihi h
  obtain ⟨ls', h, hss⟩ := ih h
  exact ⟨_, h, fun hnext => ⟨.dotBracketSuffix hi (hss hnext).1, .inr ⟨hstart, trivial, by simp [peek]⟩⟩⟩

/-- A question mark, which a sign was that had an operator behind it. -/
theorem Again.question {ss start ls ls₁} (hstart : StartsSuffix start) (ih : Again .suffixes ls ss ls₁) :
    Again .suffixes start (.cons Suffix.optional ss) ls₁ := by
  intro ls' tail h
  simp at h
  obtain _ | ⟨-, h⟩ := h
  obtain ⟨ls', h, hss⟩ := ih h
  exact ⟨_, h, fun hnext => ⟨.questionSuffix (hss hnext).1, .inr ⟨hstart, trivial, by simp [peek]⟩⟩⟩

theorem Again.iterate {o ls} : Again .bracket (⟨.rightBracket, o⟩ :: ls) .absent ls := by
  intro ls' tail h
  simp [Node.inBrackets] at h
  obtain _ | ⟨-, h⟩ := h
  exact ⟨_, h, .iterate⟩

theorem Again.sliceTo {stop o o₁ ls ls₁} (ih : Again .pipe ls stop (⟨.rightBracket, o₁⟩ :: ls₁)) :
    Again .bracket (⟨.colon, o⟩ :: ls) (.present (.index "" .absent .absent (.present stop) true)) ls₁ := by
  intro ls' tail h
  simp [Node.inBrackets] at h
  obtain _ | ⟨-, h⟩ := h
  obtain ⟨_, ls', h, hstop⟩ := Rereads.upTo ih (by simp) h
  exact ⟨_, h, .sliceTo hstop⟩

theorem Again.sliceFrom {start o o₁ ls ls₁} (ih : Again .pipe ls start (⟨.colon, o⟩ :: ⟨.rightBracket, o₁⟩ :: ls₁)) :
    Again .bracket ls (.present (.index "" .absent (.present start) .absent true)) ls₁ := by
  intro ls' tail h
  simp [Node.inBrackets] at h
  obtain ⟨_, ls', h, hstart⟩ := Rereads.upTo ih (by simp) h
  obtain _ | ⟨-, h⟩ := h
  exact ⟨_, h, .sliceFrom hstart⟩

theorem Again.slice {start stop o o₁ ls ls₁ ls₂} (ihstart : Again .pipe ls start (⟨.colon, o⟩ :: ls₁))
    (ihstop : Again .pipe ls₁ stop (⟨.rightBracket, o₁⟩ :: ls₂)) :
    Again .bracket ls (.present (.index "" .absent (.present start) (.present stop) true)) ls₂ := by
  intro ls' tail h
  simp [Node.inBrackets] at h
  obtain ⟨_, ls', h, hstart⟩ := Rereads.upTo ihstart (by simp) h
  obtain ⟨_, ls', h, hstop⟩ := Rereads.upTo ihstop (by simp) h
  exact ⟨_, h, .slice hstart hstop⟩

theorem Again.position {start o ls ls₁} (ih : Again .pipe ls start (⟨.rightBracket, o⟩ :: ls₁)) :
    Again .bracket ls (.present (.index "" .absent (.present start) .absent false)) ls₁ := by
  intro ls' tail h
  simp [Node.inBrackets] at h
  obtain ⟨_, ls', h, hstart⟩ := Rereads.upTo ih (by simp) h
  exact ⟨_, h, .position hstart⟩

/-! ### Strings -/

theorem Again.plainString {s o ls} : Again .string (⟨.str [.literal s], o⟩ :: ls) (plainText s) ls := by
  intro ls' tail h
  simp at h
  cases h with
  | quote hps h =>
    cases hps.of_text
    exact ⟨_, h, .plainString⟩

theorem Again.string {parts qs o ls} (hne : parts ≠ []) (h : Derives (.fragments parts) [] qs [])
    (ih : Again (.fragments parts) [] qs []) : Again .string (⟨.str parts, o⟩ :: ls) (.text "" qs) ls := by
  intro ls' tail h'
  simp [h.isEmpty_fragments hne] at h'
  cases h' with
  | quote hps h' =>
    have hfragments := ih hps
    cases qs with
    | nil => exact absurd (h.isEmpty_fragments hne) (by simp)
    | cons q qs =>
      cases hps with
      | splice => exact ⟨_, h', .string (by simp) (by simp) hfragments⟩

theorem Again.literal {s parts qs} (ih : Again (.fragments parts) [] qs []) :
    Again (.fragments (.literal s :: parts)) [] (.cons (Query.ofTerm (Term.ofText (plainText s))) qs) [] := by
  -- the characters are an interpolated string now
  intro parts' h
  simp at h
  cases h with
  | splice hscan hinner h =>
    cases hinner with
    | quote hps hinner =>
      cases hps.of_text
      exact .interpolation hscan (derives_plainText _ _ hinner.of_nil) hinner.of_nil (ih h)

theorem Again.interpolation {source offset parts q qs ls ls₁} (ihq : Again .pipe ls q ls₁) (hend : peek ls₁ = .eof)
    (ih : Again (.fragments parts) [] qs []) :
    Again (.fragments (.interpolation source offset :: parts)) [] (.cons q qs) [] := by
  intro parts' h
  cases h with
  | splice hscan hinner h =>
    obtain ⟨ls', hend', hq⟩ := Rereads.whole ihq hinner
    exact .interpolation hscan (hq (.of_eof hend hend')) hend' (ih h)

/-! ### Objects -/

theorem Again.moreEntries {e es o ls ls₁ ls₂} (ihe : Again .objectEntry ls e (⟨.op .comma, o⟩ :: ls₁))
    (ihes : Again .objectEntries ls₁ es ls₂) : Again .objectEntries ls (.cons e es) ls₂ := by
  intro ls' tail h
  cases es with
  | nil =>
    -- the comma is gone
    simp at h
    obtain ⟨ls', h, he⟩ := ihe h
    obtain _ | ⟨-, h⟩ := h
    exact ⟨_, h, .lastEntry (he ⟨by simp [peek], .inr ⟨rfl, rfl⟩⟩)⟩
  | cons e₁ es =>
    simp at h
    obtain ⟨ls', h, he⟩ := ihe h
    obtain _ | ⟨-, h⟩ := h
    obtain ⟨ls', h, hes⟩ := @ihes _ tail (by simpa using h)
    exact ⟨_, h, .moreEntries (he (.cons (by simp))) hes⟩

theorem Again.lastEntry {e o ls ls₁} (ihe : Again .objectEntry ls e (⟨.rightBrace, o⟩ :: ls₁)) :
    Again .objectEntries ls (.cons e .nil) ls₁ := by
  intro ls' tail h
  simp at h
  obtain ⟨_, ls', h, he⟩ := Rereads.upTo ihe (by simp) h
  exact ⟨_, h, .lastEntry he⟩

theorem Again.variableEntry {name o ls} (ht : (Token.variable name).WellSpelled) :
    Again .objectEntry (⟨.variable name, o⟩ :: ls) (.entry name .absent .absent .absent) ls := by
  intro ls' tail h
  simp [(Token.isVariableKey_of_wellSpelled ht).2, Token.ofName_variable ht] at h
  obtain _ | ⟨-, h⟩ := h
  exact ⟨_, h, fun _ => .variableEntry ht⟩

theorem Again.textEntry {x v ls ls₁ ls₂} (ihx : Again .string ls x ls₁)
    (ihv : Again (.after .colon .objectValue) ls₁ v ls₂) :
    Again .objectEntry ls (.entry "" (.present x) .absent v) ls₂ := by
  intro ls' tail h
  simp at h
  obtain ⟨ls', h, hx⟩ := ihx h
  obtain ⟨ls', h, hv⟩ := ihv trivial (by decide) h
  exact ⟨_, h, fun hnext => .textEntry hx (hv hnext).1⟩

theorem Again.computedEntry {q v o o₁ o₂ ls ls₁ ls₂}
    (ihq : Again .pipe ls q (⟨.rightParen, o₁⟩ :: ⟨.colon, o₂⟩ :: ls₁)) (ihv : Again .objectValue ls₁ v ls₂) :
    Again .objectEntry (⟨.leftParen, o⟩ :: ls) (.entry "" .absent (.present q) (.present v)) ls₂ := by
  intro ls' tail h
  simp at h
  obtain _ | ⟨-, h⟩ := h
  obtain ⟨_, ls', h, hq⟩ := Rereads.upTo ihq (by simp) h
  obtain _ | ⟨-, h⟩ := h
  obtain ⟨ls', h, hv⟩ := ihv h
  exact ⟨_, h, fun hnext => .computedEntry hq (hv hnext)⟩

theorem Again.wordEntry {t key v o ls ls₁} (ht : t.WellSpelled) (hkey : wordKey? t = some key)
    (ihv : Again (.after .colon .objectValue) ls v ls₁) :
    Again .objectEntry (⟨t, o⟩ :: ls) (.entry key .absent .absent v) ls₁ := by
  intro ls' tail h
  simp [(Token.wordKey_facts ht hkey).1, (Token.ofName_wordKey ht hkey).1] at h
  obtain _ | ⟨-, h⟩ := h
  obtain ⟨ls', h, hv⟩ := ihv trivial (by decide) h
  exact ⟨_, h, fun hnext => .wordEntry ht hkey (hv hnext).1⟩

theorem Again.objectValue {t ls ls₁} (ih : Again .term ls t ls₁) (hnext : peek ls₁ ≠ .op .pipe) :
    Again .objectValue ls (Query.ofTerm t) ls₁ := by
  intro ls' tail h
  simp at h
  obtain ⟨ls', h, ht⟩ := ih h
  exact ⟨_, h, fun hsame => .objectValue (ht hsame) (hsame.ne hnext (by simp))⟩

theorem Again.pipedValue {t v o ls ls₁ ls₂} (iht : Again .term ls t (⟨.op .pipe, o⟩ :: ls₁))
    (ihv : Again .objectValue ls₁ v ls₂) : Again .objectValue ls (Query.binary (Query.ofTerm t) .pipe v) ls₂ := by
  intro ls' tail h
  simp at h
  obtain ⟨_, ls', h, ht⟩ := Rereads.upTo iht (by simp) h
  obtain ⟨ls', h, hv⟩ := ihv h
  exact ⟨_, h, fun hnext => .pipedValue ht (hv hnext)⟩

/-! ### Patterns -/

theorem Again.variablePattern {name o ls} (ht : (Token.variable name).WellSpelled) :
    Again .pattern (⟨.variable name, o⟩ :: ls) (Pattern.ofVariable name) ls := by
  intro ls' tail h
  simp [Node.unparse_ofVariable (Token.isVariableKey_of_wellSpelled ht).2] at h
  obtain _ | ⟨-, h⟩ := h
  exact ⟨_, h, fun _ => .variablePattern ht⟩

theorem Again.arrayPattern {ps o o₁ ls ls₁}
    (h : Derives (.separated .pattern (.op .comma)) ls ps (⟨.rightBracket, o₁⟩ :: ls₁))
    (ih : Again (.separated .pattern (.op .comma)) ls ps (⟨.rightBracket, o₁⟩ :: ls₁)) :
    Again .pattern (⟨.leftBracket, o⟩ :: ls) (Pattern.ofArray ps.toList) ls₁ := by
  intro ls' tail h'
  simp [Node.unparse_patternOfArray h.isEmpty_separated] at h'
  obtain _ | ⟨-, h'⟩ := h'
  obtain ⟨_, ls', h', hps⟩ := Rereads.upTo (ih trivial (by decide)) (by simp) h'
  exact ⟨_, h', fun _ => .arrayPattern hps⟩

theorem Again.objectPattern {es o o₁ ls ls₁}
    (h : Derives (.separated .patternEntry (.op .comma)) ls es (⟨.rightBrace, o₁⟩ :: ls₁))
    (ih : Again (.separated .patternEntry (.op .comma)) ls es (⟨.rightBrace, o₁⟩ :: ls₁)) :
    Again .pattern (⟨.leftBrace, o⟩ :: ls) (Pattern.ofObject es.toList) ls₁ := by
  intro ls' tail h'
  simp [Node.unparse_patternOfObject h.isEmpty_separated] at h'
  obtain _ | ⟨-, h'⟩ := h'
  obtain ⟨_, ls', h', hes⟩ := Rereads.upTo (ih trivial (by decide)) (by simp) h'
  exact ⟨_, h', fun _ => .objectPattern hes⟩

theorem Again.variablePatternEntry {name v o ls ls₁} (ht : (Token.variable name).WellSpelled)
    (ihv : Again (.after .colon .pattern) ls v ls₁) :
    Again .patternEntry (⟨.variable name, o⟩ :: ls) (.patternEntry name .absent .absent v) ls₁ := by
  intro ls' tail h
  simp [(Token.isVariableKey_of_wellSpelled ht).2, Token.ofName_variable ht] at h
  obtain _ | ⟨-, h⟩ := h
  obtain ⟨ls', h, hv⟩ := ihv trivial (by decide) h
  exact ⟨_, h, fun hnext => .variablePatternEntry ht (hv hnext).1⟩

theorem Again.textPatternEntry {x p o ls ls₁ ls₂} (ihx : Again .string ls x (⟨.colon, o⟩ :: ls₁))
    (ihp : Again .pattern ls₁ p ls₂) :
    Again .patternEntry ls (.patternEntry "" (.present x) .absent (.present p)) ls₂ := by
  intro ls' tail h
  simp at h
  obtain ⟨ls', h, hx⟩ := ihx h
  obtain _ | ⟨-, h⟩ := h
  obtain ⟨ls', h, hp⟩ := ihp h
  exact ⟨_, h, fun hnext => .textPatternEntry hx (hp hnext)⟩

theorem Again.computedPatternEntry {q p o o₁ o₂ ls ls₁ ls₂}
    (ihq : Again .pipe ls q (⟨.rightParen, o₁⟩ :: ⟨.colon, o₂⟩ :: ls₁)) (ihp : Again .pattern ls₁ p ls₂) :
    Again .patternEntry (⟨.leftParen, o⟩ :: ls) (.patternEntry "" .absent (.present q) (.present p)) ls₂ := by
  intro ls' tail h
  simp at h
  obtain _ | ⟨-, h⟩ := h
  obtain ⟨_, ls', h, hq⟩ := Rereads.upTo ihq (by simp) h
  obtain _ | ⟨-, h⟩ := h
  obtain ⟨ls', h, hp⟩ := ihp h
  exact ⟨_, h, fun hnext => .computedPatternEntry hq (hp hnext)⟩

theorem Again.wordPatternEntry {t key p o o₁ ls ls₁} (ht : t.WellSpelled) (hkey : wordKey? t = some key)
    (ihp : Again .pattern ls p ls₁) :
    Again .patternEntry (⟨t, o⟩ :: ⟨.colon, o₁⟩ :: ls) (.patternEntry key .absent .absent (.present p)) ls₁ := by
  intro ls' tail h
  simp [(Token.wordKey_facts ht hkey).1, (Token.ofName_wordKey ht hkey).1] at h
  obtain _ | ⟨-, h⟩ := h
  obtain _ | ⟨-, h⟩ := h
  obtain ⟨ls', h, hp⟩ := ihp h
  exact ⟨_, h, fun hnext => .wordPatternEntry ht hkey (hp hnext)⟩

/-! ### Lists -/

theorem Again.branch {cond thenBranch bs o o₁ ls ls₁ ls₂ ls₃}
    (ihcond : Again .pipe ls cond (⟨.keyword .then, o₁⟩ :: ls₁)) (ihthen : Again .pipe ls₁ thenBranch ls₂)
    (ihbs : Again .branches ls₂ bs ls₃) :
    Again .branches (⟨.keyword .elif, o⟩ :: ls) (.cons (.branch cond thenBranch) bs) ls₃ := by
  intro ls' tail h
  simp at h
  obtain _ | ⟨-, h⟩ := h
  obtain ⟨_, ls', h, hcond⟩ := Rereads.upTo ihcond (by simp) h
  obtain ⟨ls', h, hthen⟩ := ihthen h
  obtain ⟨ls', h, hbs⟩ := ihbs h
  refine ⟨_, h, fun hnext => ?_⟩
  obtain ⟨hbs, hstart⟩ := hbs hnext
  exact ⟨.branch hcond (hthen hstart) hbs, .cons (by simp)⟩

theorem Again.definitionsEnd {ls} (hend : peek ls = .eof) : Again .definitions ls .nil ls := by
  intro ls' tail h
  refine ⟨_, h, fun hsame => .definitionsEnd ?_⟩
  rcases hsame.2 with hpeek | ⟨hpeek, -⟩
  · rw [hpeek, hend]
  · simp [hend] at hpeek

theorem Again.definitions {d ds ls ls₁ ls₂} (ihd : Again .definition ls d ls₁) (ihds : Again .definitions ls₁ ds ls₂) :
    Again .definitions ls (.cons d ds) ls₂ := by
  intro ls' tail h
  simp at h
  obtain ⟨ls', h, hd⟩ := ihd h
  obtain ⟨ls', h, hds⟩ := ihds h
  exact ⟨_, h, fun hnext => .definitions hd (hds hnext)⟩

theorem Again.last {item : Production} {separator : Token} {x : Node item.shape} {ls ls₁} (ih : Again item ls x ls₁)
    (hnext : peek ls₁ ≠ separator) : Again (.separated item separator) ls (.cons x .nil) ls₁ := by
  intro hplain hseparator ls' tail h
  simp at h
  obtain ⟨ls', h, hx⟩ := ih.plain hplain h
  exact ⟨_, h, fun hsame => .last (hx hsame) (hsame.ne hnext hseparator.2.2)⟩

theorem Again.more {item : Production} {separator : Token} {x : Node item.shape} {xs o ls ls₁ ls₂}
    (ihx : Again item ls x (⟨separator, o⟩ :: ls₁)) (hxs : Derives (.separated item separator) ls₁ xs ls₂)
    (ihxs : Again (.separated item separator) ls₁ xs ls₂) : Again (.separated item separator) ls (.cons x xs) ls₂ := by
  intro hplain hseparator ls' tail h
  simp [hxs.isEmpty_separated] at h
  obtain ⟨ls', h, hx⟩ := ihx.plain hplain h
  obtain _ | ⟨-, h⟩ := h
  obtain ⟨ls', h, hxs⟩ := ihxs hplain hseparator h
  exact ⟨_, h, fun hnext => .more (hx (.cons hseparator.2.1)) (hxs hnext)⟩

theorem Again.given {item : Production} {lead : Token} {x : Node item.shape} {o ls ls₁} (ih : Again item ls x ls₁) :
    Again (.after lead item) (⟨lead, o⟩ :: ls) (.present x) ls₁ := by
  intro hplain hlead ls' tail h
  simp at h
  obtain _ | ⟨-, h⟩ := h
  obtain ⟨ls', h, hx⟩ := ih.plain hplain h
  exact ⟨_, h, fun hnext => ⟨.given (hx hnext), .cons hlead.2.1⟩⟩

/-- **What a production read is read again from any lexemes that have its wording.** -/
theorem Derives.again {p : Production} {ls ls₁ : Lexemes} {n : Node p.shape} (h : Derives p ls n ls₁) :
    Again p ls n ls₁ := by
  induction h with
  | definition ht hname hparams _ ih => exact Again.definition ht hname hparams ih
  | localDefinition _ _ ihd ihq => exact Again.localDefinition ihd ihq
  | pipe h ih =>
    intro ls' tail h
    obtain ⟨ls', h, hq⟩ := ih h
    exact ⟨_, h, fun hnext => .pipe (hq hnext)⟩
  | binary _ _ ihleft ihq => exact Again.binary ihleft ihq
  | binaryEnd hnext => exact Again.binaryEnd hnext
  | binaryMore ht hop hleast _ hchain _ ihright ihq => exact Again.binaryMore ht hop hleast ihright hchain ihq
  | pipeOperand h ih =>
    intro ls' tail h
    obtain ⟨ls', h, hq⟩ := ih h
    exact ⟨_, h, fun hnext => .pipeOperand (hq hnext)⟩
  | binaryOperand hop h ih =>
    intro ls' tail h
    obtain ⟨ls', h, hq⟩ := ih h
    exact ⟨_, h, fun hnext => .binaryOperand hop (hq hnext)⟩
  | operand _ hnext ih => exact Again.operand ih hnext
  | binding _ _ _ iht ihpatterns ihbody => exact Again.binding iht ihpatterns ihbody
  | term _ _ iht ihs => exact Again.term iht ihs
  | termQuery _ ih => exact Again.termQuery ih
  | dotText _ ih => exact Again.dotText ih
  | dotAccess h ih => exact Again.dotAccess h ih
  | dotIterate _ _ => exact Again.dotIterate
  | identity hstr hbracket => exact Again.identity hstr hbracket
  | leaf ht hx => exact Again.leaf ht hx
  | text _ ih => exact Again.text ih
  | formatText ht _ ih => exact Again.formatText ht ih
  | format ht hnext => exact Again.format ht hnext
  | call ht h ih => exact Again.call ht h ih
  | name ht hnext => exact Again.name ht hnext
  | parentheses _ ih => exact Again.parentheses ih
  | emptyArray => exact Again.emptyArray
  | array _ ih => exact Again.array ih
  | object _ ih => exact Again.object ih
  | sign hop h ih => exact Again.sign hop h ih
  | conditional _ _ _ _ ihcond ihthen ihelifs ihelse => exact Again.conditional ihcond ihthen ihelifs ihelse
  | attempt hbody hhandler ihbody ihhandler => exact Again.attempt hbody ihbody hhandler ihhandler
  | reduce _ _ _ _ ihsource ihp ihstart ihupdate => exact Again.reduce ihsource ihp ihstart ihupdate
  | foreach _ _ _ _ _ ihsource ihp ihstart ihupdate ihextract =>
    exact Again.foreach ihsource ihp ihstart ihupdate ihextract
  | label ht h ih => exact Again.label ht h ih
  | «break» ht => exact Again.break ht
  | suffixesEnd hnext =>
    intro ls' tail h
    exact ⟨_, h, fun hsame => ⟨.suffixesEnd (hsame.not_startsSuffix hnext), .inl ⟨hnext, hsame⟩⟩⟩
  | fieldSuffix ht _ ih => exact Again.fieldSuffix ht ih
  | textSuffix hx _ ihx ih => exact Again.textSuffix hx ihx ih
  | dotBracketSuffix hi _ ihi ih | bracketSuffix hi _ ihi ih => exact Again.brackets trivial hi ihi ih
  | questionSuffix _ ih | alternativeSuffix _ ih => exact Again.question trivial ih
  | iterate => exact Again.iterate
  | sliceTo _ ih => exact Again.sliceTo ih
  | sliceFrom _ ih => exact Again.sliceFrom ih
  | slice _ _ ihstart ihstop => exact Again.slice ihstart ihstop
  | position _ ih => exact Again.position ih
  | plainString => exact Again.plainString
  | string hne _ h ih => exact Again.string hne h ih
  | fragmentsEnd =>
    intro parts' h
    cases h
    exact .fragmentsEnd
  | literal _ ih => exact Again.literal ih
  | interpolation _ _ hend _ ihq ih => exact Again.interpolation ihq hend ih
  | entriesEnd =>
    intro ls' tail h
    obtain _ | ⟨-, h⟩ := h
    exact ⟨_, h, .entriesEnd⟩
  | moreEntries _ _ ihe ihes => exact Again.moreEntries ihe ihes
  | lastEntry _ ihe => exact Again.lastEntry ihe
  | variableEntry ht => exact Again.variableEntry ht
  | textEntry _ _ ihx ihv => exact Again.textEntry ihx ihv
  | computedEntry _ _ ihq ihv => exact Again.computedEntry ihq ihv
  | wordEntry ht hkey _ ihv => exact Again.wordEntry ht hkey ihv
  | objectValue _ hnext ih => exact Again.objectValue ih hnext
  | pipedValue _ _ iht ihv => exact Again.pipedValue iht ihv
  | variablePattern ht => exact Again.variablePattern ht
  | arrayPattern h ih => exact Again.arrayPattern h ih
  | objectPattern h ih => exact Again.objectPattern h ih
  | variablePatternEntry ht _ ihv => exact Again.variablePatternEntry ht ihv
  | textPatternEntry _ _ ihx ihp => exact Again.textPatternEntry ihx ihp
  | computedPatternEntry _ _ ihq ihp => exact Again.computedPatternEntry ihq ihp
  | wordPatternEntry ht hkey _ ihp => exact Again.wordPatternEntry ht hkey ihp
  | branchesEnd hnext =>
    intro ls' tail h
    exact ⟨_, h, fun hsame => ⟨.branchesEnd (hsame.ne hnext (by simp)), hsame⟩⟩
  | branch _ _ _ ihcond ihthen ihbs => exact Again.branch ihcond ihthen ihbs
  | definitionsEnd hend => exact Again.definitionsEnd hend
  | definitions _ _ ihd ihds => exact Again.definitions ihd ihds
  | last _ hnext ih => exact Again.last ih hnext
  | more _ hxs ihx ihxs => exact Again.more ihx hxs ihxs
  | missing hnext =>
    intro hplain hlead ls' tail h
    exact ⟨_, h, fun hsame => ⟨.missing (hsame.ne hnext hlead.2.2), hsame⟩⟩
  | given _ ih => exact Again.given ih

end Grammar
end DefTable
