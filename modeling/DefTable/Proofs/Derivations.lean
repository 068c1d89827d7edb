import DefTable.Proofs.TokenSpelling
import DefTable.Proofs.OperatorParsing

/-!
# The grammar as rules

What the parser accepts, without numbers of steps: `Derives p ls n ls'` says that the production `p` reads the node `n`
at the start of the lexemes `ls` and leaves `ls'`. There is a rule for every way a production can go. Where the parser
looks at the next token to choose its way, the rule has a premise on that token. All lexemes are meant to come from
scanning, so the rules name what is known of the tokens they take (`Token.WellSpelled`).

The rules are exactly what the parser does: a production that succeeds has a derivation (`Sound`), and what has a
derivation is what the production gives, from some number of steps on (`Derives.runs`).
-/

namespace DefTable
namespace Grammar

/-! ## Productions -/

/-- What can be read, with what it depends on. -/
inductive Production where
  | definition
  | pipe
  | binary (least : Nat)
  | binaryRest (least : Nat) (left : Query)
  /-- What an operator takes on its right. -/
  | rightOperand (op : Operator)
  | operand
  | term
  /-- A term that makes a query of its own. -/
  | termQuery
  | primary
  | suffixes
  | bracket
  | string
  /-- The parts of a string, which are no lexemes. -/
  | fragments (parts : List StringPart)
  | objectEntries
  | objectEntry
  | objectValue
  | pattern
  | patternEntry
  | branches
  | definitions
  /-- One or more items with a token between them. -/
  | separated (item : Production) (separator : Token)
  /-- An item behind a token, which may both be missing. -/
  | after (lead : Token) (item : Production)

/-- The type of what a production reads. -/
@[reducible] def Production.shape : Production → Shape
  | .definition => .definition
  | .pipe | .binary _ | .binaryRest _ _ | .rightOperand _ | .operand | .termQuery | .objectValue => .query
  | .term | .primary => .term
  | .suffixes => .list .suffix
  | .bracket => .optional .index
  | .string => .text
  | .fragments _ => .list .query
  | .objectEntries => .list .entry
  | .objectEntry => .entry
  | .pattern => .pattern
  | .patternEntry => .patternEntry
  | .branches => .list .branch
  | .definitions => .list .definition
  | .separated item _ => .list item.shape
  | .after _ item => .optional item.shape

/-! ## Rules -/

/-- One or more parameters, with semicolons between them. -/
inductive Parameters : Lexemes → List String → Lexemes → Prop where
  | last {t name o ls} (ht : t.WellSpelled) (hname : parameter? t = some name) (hnext : peek ls ≠ .semicolon) :
      Parameters (⟨t, o⟩ :: ls) [name] ls
  | more {t name o o₁ ls names ls₁} (ht : t.WellSpelled) (hname : parameter? t = some name)
      (h : Parameters ls names ls₁) : Parameters (⟨t, o⟩ :: ⟨.semicolon, o₁⟩ :: ls) (name :: names) ls₁

/-- The parameters of a definition, if it has any. -/
inductive ParameterList : Lexemes → List String → Lexemes → Prop where
  | none {ls} (hnext : peek ls ≠ .leftParen) : ParameterList ls [] ls
  | some {ls names o o₁ ls₁} (h : Parameters ls names (⟨.rightParen, o₁⟩ :: ls₁)) :
      ParameterList (⟨.leftParen, o⟩ :: ls) names ls₁

/-- The term that a token is by itself. -/
def leaf? : Token → Option Term
  | .dotDot => some (Term.ofKind .recurse)
  | .field name => some (Term.ofIndex (Index.ofName name))
  | .number digits => some (Term.ofNumber digits)
  | .variable name => some (Term.ofCall name [])
  | _ => none

/-- Whether lexemes start with a suffix of a term. -/
def StartsSuffix : Lexemes → Prop
  | ⟨.field _, _⟩ :: _ => True
  | ⟨.dot, _⟩ :: ⟨.str _, _⟩ :: _ => True
  | ⟨.dot, _⟩ :: ⟨.leftBracket, _⟩ :: _ => True
  | ⟨.leftBracket, _⟩ :: _ => True
  | ⟨.question, _⟩ :: _ => True
  | ⟨.alternative, _⟩ :: _ => True
  | _ => False

/-- The suffix that brackets make: an access, or the iteration if they are empty. -/
def bracketSuffix : Node (.optional .index) → Suffix
  | .absent => Suffix.iterate
  | .present i => Suffix.ofIndex i

/-- **The rules of the grammar.** -/
inductive Derives : (p : Production) → Lexemes → Node p.shape → Lexemes → Prop where
  | definition {t name params body o o₁ o₂ o₃ ls ls₁ ls₂} (ht : t.WellSpelled) (hname : wordKey? t = some name)
      (hparams : ParameterList ls params (⟨.colon, o₂⟩ :: ls₁))
      (hbody : Derives .pipe ls₁ body (⟨.semicolon, o₃⟩ :: ls₂)) :
      Derives .definition (⟨.keyword .define, o⟩ :: ⟨t, o₁⟩ :: ls) (.definition name params body) ls₂
  -- queries
  | localDefinition {d q ls ls₁ ls₂} (hd : Derives .definition ls d ls₁) (hq : Derives .pipe ls₁ q ls₂) :
      Derives .pipe ls (Query.withDefs (.cons d .nil) q) ls₂
  | pipe {q ls ls₁} (h : Derives (.binary 1) ls q ls₁) : Derives .pipe ls q ls₁
  | binary {least left q ls ls₁ ls₂} (hleft : Derives .operand ls left ls₁)
      (hq : Derives (.binaryRest least left) ls₁ q ls₂) : Derives (.binary least) ls q ls₂
  | binaryEnd {least left ls} (hnext : ∀ op ∈ operator? ls, op.precedence < least) :
      Derives (.binaryRest least left) ls left ls
  | binaryMore {least left op right q l ls ls₁ ls₂} (ht : l.token.WellSpelled) (hop : operator? [l] = some op)
      (hleast : least ≤ op.precedence) (hright : Derives (.rightOperand op) ls right ls₁)
      (hchain : ¬ (op.associativity = .none ∧ (operator? ls₁).map Operator.precedence = some op.precedence))
      (hq : Derives (.binaryRest least (Query.binary left op right)) ls₁ q ls₂) :
      Derives (.binaryRest least left) (l :: ls) q ls₂
  | pipeOperand {q ls ls₁} (h : Derives .pipe ls q ls₁) : Derives (.rightOperand .pipe) ls q ls₁
  | binaryOperand {op q ls ls₁} (hop : op ≠ .pipe) (h : Derives (.binary (rightLeast op)) ls q ls₁) :
      Derives (.rightOperand op) ls q ls₁
  | operand {t ls ls₁} (h : Derives .term ls t ls₁) (hnext : peek ls₁ ≠ .keyword .as) :
      Derives .operand ls (Query.ofTerm t) ls₁
  | binding {t patterns body o o₁ ls ls₁ ls₂ ls₃} (ht : Derives .term ls t (⟨.keyword .as, o⟩ :: ls₁))
      (hpatterns : Derives (.separated .pattern .alternative) ls₁ patterns (⟨.op .pipe, o₁⟩ :: ls₂))
      (hbody : Derives .pipe ls₂ body ls₃) :
      Derives .operand ls (Query.ofTerm (Term.withSuffixes [Suffix.ofBinding patterns.toList body] t)) ls₃
  | term {t ss ls ls₁ ls₂} (ht : Derives .primary ls t ls₁) (hs : Derives .suffixes ls₁ ss ls₂) :
      Derives .term ls (Term.withSuffixes ss.toList t) ls₂
  | termQuery {t ls ls₁} (h : Derives .term ls t ls₁) : Derives .termQuery ls (Query.ofTerm t) ls₁
  -- terms
  | dotText {x o ls ls₁} (h : Derives .string ls x ls₁) :
      Derives .primary (⟨.dot, o⟩ :: ls) (Term.ofIndex (Index.ofText x)) ls₁
  | dotAccess {i o o₁ ls ls₁} (h : Derives .bracket ls (.present i) ls₁) :
      Derives .primary (⟨.dot, o⟩ :: ⟨.leftBracket, o₁⟩ :: ls) (Term.ofIndex i) ls₁
  | dotIterate {o o₁ ls ls₁} (h : Derives .bracket ls .absent ls₁) :
      Derives .primary (⟨.dot, o⟩ :: ⟨.leftBracket, o₁⟩ :: ls)
        (Term.withSuffixes [Suffix.iterate] (Term.ofKind .identity)) ls₁
  | identity {o ls} (hstr : ∀ parts, peek ls ≠ .str parts) (hbracket : peek ls ≠ .leftBracket) :
      Derives .primary (⟨.dot, o⟩ :: ls) (Term.ofKind .identity) ls
  | leaf {t x o ls} (ht : t.WellSpelled) (hx : leaf? t = some x) : Derives .primary (⟨t, o⟩ :: ls) x ls
  | text {x ls ls₁} (h : Derives .string ls x ls₁) : Derives .primary ls (Term.ofText x) ls₁
  | formatText {name x o ls ls₁} (ht : (Token.format name).WellSpelled) (h : Derives .string ls x ls₁) :
      Derives .primary (⟨.format name, o⟩ :: ls) (Term.ofFormat name (some x)) ls₁
  | format {name o ls} (ht : (Token.format name).WellSpelled) (hnext : ∀ parts, peek ls ≠ .str parts) :
      Derives .primary (⟨.format name, o⟩ :: ls) (Term.ofFormat name none) ls
  | call {name args o o₁ o₂ ls ls₁} (ht : (Token.ident name).WellSpelled)
      (h : Derives (.separated .pipe .semicolon) ls args (⟨.rightParen, o₂⟩ :: ls₁)) :
      Derives .primary (⟨.ident name, o⟩ :: ⟨.leftParen, o₁⟩ :: ls) (Term.ofCall name args.toList) ls₁
  | name {name o ls} (ht : (Token.ident name).WellSpelled) (hnext : peek ls ≠ .leftParen) :
      Derives .primary (⟨.ident name, o⟩ :: ls) (bareName name) ls
  | parentheses {q o o₁ ls ls₁} (h : Derives .pipe ls q (⟨.rightParen, o₁⟩ :: ls₁)) :
      Derives .primary (⟨.leftParen, o⟩ :: ls) (Term.ofQuery q) ls₁
  | emptyArray {o o₁ ls} :
      Derives .primary (⟨.leftBracket, o⟩ :: ⟨.rightBracket, o₁⟩ :: ls) (Term.ofArray none) ls
  | array {q o o₁ ls ls₁} (h : Derives .pipe ls q (⟨.rightBracket, o₁⟩ :: ls₁)) :
      Derives .primary (⟨.leftBracket, o⟩ :: ls) (Term.ofArray (some q)) ls₁
  | object {es o ls ls₁} (h : Derives .objectEntries ls es ls₁) :
      Derives .primary (⟨.leftBrace, o⟩ :: ls) (Term.ofObject es.toList) ls₁
  | sign {op t o ls ls₁} (hop : op = .sub ∨ op = .add) (h : Derives .term ls t ls₁) :
      Derives .primary (⟨.op op, o⟩ :: ls) (Term.ofUnary op t) ls₁
  | conditional {cond thenBranch elifs elseBranch o o₁ o₂ ls ls₁ ls₂ ls₃ ls₄}
      (hcond : Derives .pipe ls cond (⟨.keyword .then, o₁⟩ :: ls₁)) (hthen : Derives .pipe ls₁ thenBranch ls₂)
      (helifs : Derives .branches ls₂ elifs ls₃)
      (helse : Derives (.after (.keyword .else) .pipe) ls₃ elseBranch (⟨.keyword .end, o₂⟩ :: ls₄)) :
      Derives .primary (⟨.keyword .if, o⟩ :: ls)
        (Term.ofConditional (.conditional cond thenBranch elifs elseBranch)) ls₄
  | attempt {body handler o ls ls₁ ls₂} (hbody : Derives .termQuery ls body ls₁)
      (hhandler : Derives (.after (.keyword .catch) .termQuery) ls₁ handler ls₂) :
      Derives .primary (⟨.keyword .try, o⟩ :: ls) (Term.ofAttempt (.attempt body handler)) ls₂
  | reduce {source p start update o o₁ o₂ o₃ o₄ ls ls₁ ls₂ ls₃ ls₄}
      (hsource : Derives .term ls source (⟨.keyword .as, o₁⟩ :: ls₁))
      (hp : Derives .pattern ls₁ p (⟨.leftParen, o₂⟩ :: ls₂))
      (hstart : Derives .pipe ls₂ start (⟨.semicolon, o₃⟩ :: ls₃))
      (hupdate : Derives .pipe ls₃ update (⟨.rightParen, o₄⟩ :: ls₄)) :
      Derives .primary (⟨.keyword .reduce, o⟩ :: ls) (Term.ofReduce (.reduce source p start update)) ls₄
  | foreach {source p start update extract o o₁ o₂ o₃ o₄ ls ls₁ ls₂ ls₃ ls₄ ls₅}
      (hsource : Derives .term ls source (⟨.keyword .as, o₁⟩ :: ls₁))
      (hp : Derives .pattern ls₁ p (⟨.leftParen, o₂⟩ :: ls₂))
      (hstart : Derives .pipe ls₂ start (⟨.semicolon, o₃⟩ :: ls₃)) (hupdate : Derives .pipe ls₃ update ls₄)
      (hextract : Derives (.after .semicolon .pipe) ls₄ extract (⟨.rightParen, o₄⟩ :: ls₅)) :
      Derives .primary (⟨.keyword .foreach, o⟩ :: ls) (Term.ofForeach (.foreach source p start update extract)) ls₅
  | label {name body o o₁ o₂ ls ls₁} (ht : (Token.variable name).WellSpelled) (h : Derives .pipe ls body ls₁) :
      Derives .primary (⟨.keyword .label, o⟩ :: ⟨.variable name, o₁⟩ :: ⟨.op .pipe, o₂⟩ :: ls)
        (Term.ofLabel name body) ls₁
  | break {name o o₁ ls} (ht : (Token.variable name).WellSpelled) :
      Derives .primary (⟨.keyword .break, o⟩ :: ⟨.variable name, o₁⟩ :: ls) (Term.ofBreak name) ls
  -- suffixes
  | suffixesEnd {ls} (hnext : ¬ StartsSuffix ls) : Derives .suffixes ls .nil ls
  | fieldSuffix {name ss o ls ls₁} (ht : (Token.field name).WellSpelled) (h : Derives .suffixes ls ss ls₁) :
      Derives .suffixes (⟨.field name, o⟩ :: ls) (.cons (Suffix.ofIndex (Index.ofName name)) ss) ls₁
  | textSuffix {x ss o ls ls₁ ls₂} (hx : Derives .string ls x ls₁) (h : Derives .suffixes ls₁ ss ls₂) :
      Derives .suffixes (⟨.dot, o⟩ :: ls) (.cons (Suffix.ofIndex (Index.ofText x)) ss) ls₂
  | dotBracketSuffix {i ss o o₁ ls ls₁ ls₂} (hi : Derives .bracket ls i ls₁) (h : Derives .suffixes ls₁ ss ls₂) :
      Derives .suffixes (⟨.dot, o⟩ :: ⟨.leftBracket, o₁⟩ :: ls) (.cons (bracketSuffix i) ss) ls₂
  | bracketSuffix {i ss o ls ls₁ ls₂} (hi : Derives .bracket ls i ls₁) (h : Derives .suffixes ls₁ ss ls₂) :
      Derives .suffixes (⟨.leftBracket, o⟩ :: ls) (.cons (bracketSuffix i) ss) ls₂
  | questionSuffix {ss o ls ls₁} (h : Derives .suffixes ls ss ls₁) :
      Derives .suffixes (⟨.question, o⟩ :: ls) (.cons Suffix.optional ss) ls₁
  | alternativeSuffix {ss o ls ls₁} (h : Derives .suffixes (⟨.op .alt, o⟩ :: ls) ss ls₁) :
      Derives .suffixes (⟨.alternative, o⟩ :: ls) (.cons Suffix.optional ss) ls₁
  -- brackets
  | iterate {o ls} : Derives .bracket (⟨.rightBracket, o⟩ :: ls) .absent ls
  | sliceTo {stop o o₁ ls ls₁} (h : Derives .pipe ls stop (⟨.rightBracket, o₁⟩ :: ls₁)) :
      Derives .bracket (⟨.colon, o⟩ :: ls) (.present (.index "" .absent .absent (.present stop) true)) ls₁
  | sliceFrom {start o o₁ ls ls₁} (h : Derives .pipe ls start (⟨.colon, o⟩ :: ⟨.rightBracket, o₁⟩ :: ls₁)) :
      Derives .bracket ls (.present (.index "" .absent (.present start) .absent true)) ls₁
  | slice {start stop o o₁ ls ls₁ ls₂} (hstart : Derives .pipe ls start (⟨.colon, o⟩ :: ls₁))
      (hstop : Derives .pipe ls₁ stop (⟨.rightBracket, o₁⟩ :: ls₂)) :
      Derives .bracket ls (.present (.index "" .absent (.present start) (.present stop) true)) ls₂
  | position {start o ls ls₁} (h : Derives .pipe ls start (⟨.rightBracket, o⟩ :: ls₁)) :
      Derives .bracket ls (.present (.index "" .absent (.present start) .absent false)) ls₁
  -- strings
  | plainString {s o ls} : Derives .string (⟨.str [.literal s], o⟩ :: ls) (plainText s) ls
  | string {parts qs o ls} (hne : parts ≠ []) (hparts : ∀ s, parts ≠ [.literal s])
      (h : Derives (.fragments parts) [] qs []) : Derives .string (⟨.str parts, o⟩ :: ls) (.text "" qs) ls
  | fragmentsEnd : Derives (.fragments []) [] .nil []
  | literal {s parts qs} (h : Derives (.fragments parts) [] qs []) :
      Derives (.fragments (.literal s :: parts)) [] (.cons (Query.ofTerm (Term.ofText (plainText s))) qs) []
  | interpolation {source offset parts q qs ls ls₁} (hscan : Token.scan source offset = .ok ls)
      (hq : Derives .pipe ls q ls₁) (hend : peek ls₁ = .eof) (h : Derives (.fragments parts) [] qs []) :
      Derives (.fragments (.interpolation source offset :: parts)) [] (.cons q qs) []
  -- objects
  | entriesEnd {o ls} : Derives .objectEntries (⟨.rightBrace, o⟩ :: ls) .nil ls
  | moreEntries {e es o ls ls₁ ls₂} (he : Derives .objectEntry ls e (⟨.op .comma, o⟩ :: ls₁))
      (hes : Derives .objectEntries ls₁ es ls₂) : Derives .objectEntries ls (.cons e es) ls₂
  | lastEntry {e o ls ls₁} (he : Derives .objectEntry ls e (⟨.rightBrace, o⟩ :: ls₁)) :
      Derives .objectEntries ls (.cons e .nil) ls₁
  | variableEntry {name o ls} (ht : (Token.variable name).WellSpelled) :
      Derives .objectEntry (⟨.variable name, o⟩ :: ls) (.entry name .absent .absent .absent) ls
  | textEntry {x v ls ls₁ ls₂} (hx : Derives .string ls x ls₁) (hv : Derives (.after .colon .objectValue) ls₁ v ls₂) :
      Derives .objectEntry ls (.entry "" (.present x) .absent v) ls₂
  | computedEntry {q v o o₁ o₂ ls ls₁ ls₂} (hq : Derives .pipe ls q (⟨.rightParen, o₁⟩ :: ⟨.colon, o₂⟩ :: ls₁))
      (hv : Derives .objectValue ls₁ v ls₂) :
      Derives .objectEntry (⟨.leftParen, o⟩ :: ls) (.entry "" .absent (.present q) (.present v)) ls₂
  | wordEntry {t key v o ls ls₁} (ht : t.WellSpelled) (hkey : wordKey? t = some key)
      (hv : Derives (.after .colon .objectValue) ls v ls₁) :
      Derives .objectEntry (⟨t, o⟩ :: ls) (.entry key .absent .absent v) ls₁
  | objectValue {t ls ls₁} (h : Derives .term ls t ls₁) (hnext : peek ls₁ ≠ .op .pipe) :
      Derives .objectValue ls (Query.ofTerm t) ls₁
  | pipedValue {t v o ls ls₁ ls₂} (ht : Derives .term ls t (⟨.op .pipe, o⟩ :: ls₁))
      (hv : Derives .objectValue ls₁ v ls₂) :
      Derives .objectValue ls (Query.binary (Query.ofTerm t) .pipe v) ls₂
  -- patterns
  | variablePattern {name o ls} (ht : (Token.variable name).WellSpelled) :
      Derives .pattern (⟨.variable name, o⟩ :: ls) (Pattern.ofVariable name) ls
  | arrayPattern {ps o o₁ ls ls₁}
      (h : Derives (.separated .pattern (.op .comma)) ls ps (⟨.rightBracket, o₁⟩ :: ls₁)) :
      Derives .pattern (⟨.leftBracket, o⟩ :: ls) (Pattern.ofArray ps.toList) ls₁
  | objectPattern {es o o₁ ls ls₁}
      (h : Derives (.separated .patternEntry (.op .comma)) ls es (⟨.rightBrace, o₁⟩ :: ls₁)) :
      Derives .pattern (⟨.leftBrace, o⟩ :: ls) (Pattern.ofObject es.toList) ls₁
  | variablePatternEntry {name v o ls ls₁} (ht : (Token.variable name).WellSpelled)
      (hv : Derives (.after .colon .pattern) ls v ls₁) :
      Derives .patternEntry (⟨.variable name, o⟩ :: ls) (.patternEntry name .absent .absent v) ls₁
  | textPatternEntry {x p o ls ls₁ ls₂} (hx : Derives .string ls x (⟨.colon, o⟩ :: ls₁))
      (hp : Derives .pattern ls₁ p ls₂) :
      Derives .patternEntry ls (.patternEntry "" (.present x) .absent (.present p)) ls₂
  | computedPatternEntry {q p o o₁ o₂ ls ls₁ ls₂}
      (hq : Derives .pipe ls q (⟨.rightParen, o₁⟩ :: ⟨.colon, o₂⟩ :: ls₁)) (hp : Derives .pattern ls₁ p ls₂) :
      Derives .patternEntry (⟨.leftParen, o⟩ :: ls) (.patternEntry "" .absent (.present q) (.present p)) ls₂
  | wordPatternEntry {t key p o o₁ ls ls₁} (ht : t.WellSpelled) (hkey : wordKey? t = some key)
      (hp : Derives .pattern ls p ls₁) :
      Derives .patternEntry (⟨t, o⟩ :: ⟨.colon, o₁⟩ :: ls) (.patternEntry key .absent .absent (.present p)) ls₁
  -- lists
  | branchesEnd {ls} (hnext : peek ls ≠ .keyword .elif) : Derives .branches ls .nil ls
  | branch {cond thenBranch bs o o₁ ls ls₁ ls₂ ls₃} (hcond : Derives .pipe ls cond (⟨.keyword .then, o₁⟩ :: ls₁))
      (hthen : Derives .pipe ls₁ thenBranch ls₂) (hbs : Derives .branches ls₂ bs ls₃) :
      Derives .branches (⟨.keyword .elif, o⟩ :: ls) (.cons (.branch cond thenBranch) bs) ls₃
  | definitionsEnd {ls} (hend : peek ls = .eof) : Derives .definitions ls .nil ls
  | definitions {d ds ls ls₁ ls₂} (hd : Derives .definition ls d ls₁) (hds : Derives .definitions ls₁ ds ls₂) :
      Derives .definitions ls (.cons d ds) ls₂
  | last {item : Production} {separator : Token} {x : Node item.shape} {ls ls₁} (h : Derives item ls x ls₁)
      (hnext : peek ls₁ ≠ separator) : Derives (.separated item separator) ls (.cons x .nil) ls₁
  | more {item : Production} {separator : Token} {x : Node item.shape} {xs o ls ls₁ ls₂}
      (hx : Derives item ls x (⟨separator, o⟩ :: ls₁)) (hxs : Derives (.separated item separator) ls₁ xs ls₂) :
      Derives (.separated item separator) ls (.cons x xs) ls₂
  | missing {item : Production} {lead : Token} {ls} (hnext : peek ls ≠ lead) :
      Derives (.after lead item) ls .absent ls
  | given {item : Production} {lead : Token} {x : Node item.shape} {o ls ls₁} (h : Derives item ls x ls₁) :
      Derives (.after lead item) (⟨lead, o⟩ :: ls) (.present x) ls₁

/-! ## Lexemes of a source -/

/-- Lexemes whose tokens look as those of a source do. -/
def Spelled (ls : Lexemes) : Prop :=
  ∀ l ∈ ls, l.token.WellSpelled

theorem spelled_cons {t : Token} {o : Nat} {ls : Lexemes} : Spelled (⟨t, o⟩ :: ls) ↔ t.WellSpelled ∧ Spelled ls :=
  List.forall_mem_cons

theorem Spelled.tail {t : Token} {o : Nat} {ls : Lexemes} (h : Spelled (⟨t, o⟩ :: ls)) : Spelled ls :=
  (spelled_cons.1 h).2

end Grammar
end DefTable
