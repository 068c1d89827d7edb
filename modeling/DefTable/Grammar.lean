import DefTable.Node
import DefTable.Token.Scan

/-!
# The grammar

The productions of the query language. Each takes the lexemes from its place on, which end with the end of the source,
and yields a tree with the lexemes that are left. Binary operators are read by precedence climbing (`binary`). A
binding, a label and local definitions extend as far to the right as they can. An interpolation is a source of its own,
cut into tokens when the string that holds it is reached.

The productions are recursive in one another, and a nested source is no part of the lexemes, so they count down a
number of steps. `enoughSteps` is what a source of a given length can take at most.
-/

namespace DefTable

/-- Why a production yields no tree. -/
inductive Halt where
  | fault (e : SyntaxError)
  /-- The number of steps ran out. -/
  | exhausted
deriving DecidableEq, Repr

abbrev Parsed := Except Halt

/-- A part of a source, cut into tokens. -/
abbrev Lexemes := List Lexeme

namespace Grammar

/-! ## Single tokens -/

def peek : Lexemes → Token
  | [] => .eof
  | l :: _ => l.token

def offset : Lexemes → Nat
  | [] => 0
  | l :: _ => l.offset

def unexpected (ls : Lexemes) (wanted : Expectation) : Halt :=
  .fault ⟨.unexpected (peek ls) wanted, offset ls⟩

/-- The lexemes behind a token that has to come next. -/
def expect (t : Token) : Lexemes → Parsed Lexemes
  | l :: ls => if l.token = t then .ok ls else .error (unexpected (l :: ls) (.token t))
  | [] => .error (unexpected [] (.token t))

/-- Nothing may be left but the end of the source. -/
def expectEnd (ls : Lexemes) : Parsed Unit :=
  if peek ls = .eof then .ok () else .error (unexpected ls .endOfQuery)

def variableName : Lexemes → Parsed (String × Lexemes)
  | ⟨.variable name, _⟩ :: ls => .ok (name, ls)
  | ls => .error (unexpected ls .variable)

/-- The operator that the next token is. The operators that are words are reserved words. -/
def operator? (ls : Lexemes) : Option Operator :=
  match peek ls with
  | .op o => some o
  | .keyword .and => some .and
  | .keyword .or => some .or
  | _ => none

/-- The key that a token is: a name, or a reserved word as a name. -/
def wordKey? : Token → Option String
  | .ident name => some name
  | .keyword k => some k.text
  | _ => none

def parameter? : Token → Option String
  | .ident name => some name
  | .variable name => some name
  | _ => none

/-- One or more parameters, with semicolons between them. -/
def parameters : Lexemes → Parsed (List String × Lexemes)
  | [] => .error (unexpected [] .parameterName)
  | l :: ls =>
    match parameter? l.token with
    | none => .error (unexpected (l :: ls) .parameterName)
    | some name =>
      match ls with
      | ⟨.semicolon, _⟩ :: ls => do
        let (names, ls) ← parameters ls
        return (name :: names, ls)
      | ls => .ok ([name], ls)

/-- The parameters of a definition, if it has any. -/
def parameterList : Lexemes → Parsed (List String × Lexemes)
  | ⟨.leftParen, _⟩ :: ls => do
    let (names, ls) ← parameters ls
    let ls ← expect .rightParen ls
    return (names, ls)
  | ls => .ok ([], ls)

/-- The name of a definition, which may be a reserved word. -/
def definitionName : Lexemes → Parsed (String × Lexemes)
  | [] => .error (unexpected [] .functionName)
  | l :: ls =>
    match wordKey? l.token with
    | some name => .ok (name, ls)
    | none => .error (unexpected (l :: ls) .functionName)

/-- What a name without arguments stands for: a constant, or a call. -/
def bareName : String → Term
  | "null" => Term.ofKind .null
  | "true" => Term.ofKind .true
  | "false" => Term.ofKind .false
  | name => Term.ofCall name []

/-- The string that plain characters make. -/
def plainText (s : String) : Node .text :=
  .text s .nil

/-- A fault of a nested source. -/
def scanned (r : Except SyntaxError Lexemes) : Parsed Lexemes :=
  match r with
  | .ok ls => .ok ls
  | .error e => .error (.fault e)

/-! ## Productions -/

mutual

/-- A definition, from its reserved word to its semicolon. -/
def definition : Nat → Lexemes → Parsed (Definition × Lexemes)
  | 0, _ => .error .exhausted
  | n + 1, ls => do
    let ls ← expect (.keyword .define) ls
    let (name, ls) ← definitionName ls
    let (params, ls) ← parameterList ls
    let ls ← expect .colon ls
    let (body, ls) ← pipe n ls
    let ls ← expect .semicolon ls
    return (.definition name params body, ls)

/-- A query with its local definitions. -/
def pipe : Nat → Lexemes → Parsed (Query × Lexemes)
  | 0, _ => .error .exhausted
  | n + 1, ls =>
    if peek ls = .keyword .define then do
      let (d, ls) ← definition n ls
      let (q, ls) ← pipe n ls
      return (Query.withDefs (.cons d .nil) q, ls)
    else binary n 1 ls

/-- Operands joined by operators of at least a given precedence. -/
def binary : Nat → Nat → Lexemes → Parsed (Query × Lexemes)
  | 0, _, _ => .error .exhausted
  | n + 1, least, ls => do
    let (left, ls) ← operand n ls
    binaryRest n least left ls

/-- What follows a left operand. After an operator that does not chain, another one of its precedence is refused. -/
def binaryRest : Nat → Nat → Query → Lexemes → Parsed (Query × Lexemes)
  | 0, _, _, _ => .error .exhausted
  | n + 1, least, left, ls =>
    match operator? ls with
    | none => .ok (left, ls)
    | some op =>
      if op.precedence < least then .ok (left, ls)
      else do
        let (right, ls) ←
          if op = .pipe then pipe n ls.tail
          else if op.associativity = .right then binary n op.precedence ls.tail
          else binary n (op.precedence + 1) ls.tail
        if op.associativity = .none ∧ (operator? ls).map Operator.precedence = some op.precedence then
          .error (unexpected ls .noChain)
        else binaryRest n least (Query.binary left op right) ls

/-- A term, or a binding, which owns the rest of the pipeline. -/
def operand : Nat → Lexemes → Parsed (Query × Lexemes)
  | 0, _ => .error .exhausted
  | n + 1, ls => do
    let (t, ls) ← term n ls
    match ls with
    | ⟨.keyword .as, _⟩ :: ls => do
      let (patterns, ls) ← alternatives n ls
      let ls ← expect (.op .pipe) ls
      let (body, ls) ← pipe n ls
      return (Query.ofTerm (Term.withSuffixes [Suffix.ofBinding patterns body] t), ls)
    | ls => return (Query.ofTerm t, ls)

/-- One or more alternative patterns. -/
def alternatives : Nat → Lexemes → Parsed (List Pattern × Lexemes)
  | 0, _ => .error .exhausted
  | n + 1, ls => do
    let (p, ls) ← pattern n ls
    match ls with
    | ⟨.alternative, _⟩ :: ls => do
      let (ps, ls) ← alternatives n ls
      return (p :: ps, ls)
    | ls => return ([p], ls)

def term : Nat → Lexemes → Parsed (Term × Lexemes)
  | 0, _ => .error .exhausted
  | n + 1, ls => do
    let (t, ls) ← primary n ls
    let (ss, ls) ← suffixes n ls
    return (Term.withSuffixes ss t, ls)

/-- A term without the suffixes that follow it. -/
def primary : Nat → Lexemes → Parsed (Term × Lexemes)
  | 0, _ => .error .exhausted
  | n + 1, ls =>
    match ls with
    | ⟨.dot, _⟩ :: ⟨.str parts, _⟩ :: ls => do
      let text ← string n parts
      return (Term.ofIndex (Index.ofText text), ls)
    | ⟨.dot, _⟩ :: ⟨.leftBracket, _⟩ :: ls => do
      let (access, ls) ← bracket n ls
      match access with
      | some i => return (Term.ofIndex i, ls)
      | none => return (Term.withSuffixes [Suffix.iterate] (Term.ofKind .identity), ls)
    | ⟨.dot, _⟩ :: ls => .ok (Term.ofKind .identity, ls)
    | ⟨.dotDot, _⟩ :: ls => .ok (Term.ofKind .recurse, ls)
    | ⟨.field name, _⟩ :: ls => .ok (Term.ofIndex (Index.ofName name), ls)
    | ⟨.number digits, _⟩ :: ls => .ok (Term.ofNumber digits, ls)
    | ⟨.str parts, _⟩ :: ls => do
      let text ← string n parts
      return (Term.ofText text, ls)
    | ⟨.format name, _⟩ :: ⟨.str parts, _⟩ :: ls => do
      let text ← string n parts
      return (Term.ofFormat name (some text), ls)
    | ⟨.format name, _⟩ :: ls => .ok (Term.ofFormat name none, ls)
    | ⟨.variable name, _⟩ :: ls => .ok (Term.ofCall name [], ls)
    | ⟨.ident name, _⟩ :: ⟨.leftParen, _⟩ :: ls => do
      let (args, ls) ← arguments n ls
      let ls ← expect .rightParen ls
      return (Term.ofCall name args, ls)
    | ⟨.ident name, _⟩ :: ls => .ok (bareName name, ls)
    | ⟨.leftParen, _⟩ :: ls => do
      let (q, ls) ← pipe n ls
      let ls ← expect .rightParen ls
      return (Term.ofQuery q, ls)
    | ⟨.leftBracket, _⟩ :: ⟨.rightBracket, _⟩ :: ls => .ok (Term.ofArray none, ls)
    | ⟨.leftBracket, _⟩ :: ls => do
      let (q, ls) ← pipe n ls
      let ls ← expect .rightBracket ls
      return (Term.ofArray (some q), ls)
    | ⟨.leftBrace, _⟩ :: ls => do
      let (entries, ls) ← objectEntries n ls
      return (Term.ofObject entries, ls)
    | ⟨.op .sub, _⟩ :: ls => do
      let (t, ls) ← term n ls
      return (Term.ofUnary .sub t, ls)
    | ⟨.op .add, _⟩ :: ls => do
      let (t, ls) ← term n ls
      return (Term.ofUnary .add t, ls)
    | ⟨.keyword .if, _⟩ :: ls => do
      let (cond, ls) ← pipe n ls
      let ls ← expect (.keyword .then) ls
      let (thenBranch, ls) ← pipe n ls
      let (elifs, ls) ← branches n ls
      let (elseBranch, ls) ← elseBranch n ls
      let ls ← expect (.keyword .end) ls
      return (Term.ofConditional (.conditional cond thenBranch (.ofList elifs) (.ofOption elseBranch)), ls)
    | ⟨.keyword .try, _⟩ :: ls => do
      let (body, ls) ← term n ls
      match ls with
      | ⟨.keyword .catch, _⟩ :: ls => do
        let (handler, ls) ← term n ls
        return (Term.ofAttempt (.attempt (Query.ofTerm body) (.present (Query.ofTerm handler))), ls)
      | ls => return (Term.ofAttempt (.attempt (Query.ofTerm body) .absent), ls)
    | ⟨.keyword .reduce, _⟩ :: ls => do
      let (source, ls) ← term n ls
      let ls ← expect (.keyword .as) ls
      let (p, ls) ← pattern n ls
      let ls ← expect .leftParen ls
      let (start, ls) ← pipe n ls
      let ls ← expect .semicolon ls
      let (update, ls) ← pipe n ls
      let ls ← expect .rightParen ls
      return (Term.ofReduce (.reduce source p start update), ls)
    | ⟨.keyword .foreach, _⟩ :: ls => do
      let (source, ls) ← term n ls
      let ls ← expect (.keyword .as) ls
      let (p, ls) ← pattern n ls
      let ls ← expect .leftParen ls
      let (start, ls) ← pipe n ls
      let ls ← expect .semicolon ls
      let (update, ls) ← pipe n ls
      let (extract, ls) ← extraction n ls
      let ls ← expect .rightParen ls
      return (Term.ofForeach (.foreach source p start update (.ofOption extract)), ls)
    | ⟨.keyword .label, _⟩ :: ls => do
      let (name, ls) ← variableName ls
      let ls ← expect (.op .pipe) ls
      let (body, ls) ← pipe n ls
      return (Term.ofLabel name body, ls)
    | ⟨.keyword .break, _⟩ :: ls => do
      let (name, ls) ← variableName ls
      return (Term.ofBreak name, ls)
    | ls => .error (unexpected ls .term)

/-- One or more arguments, with semicolons between them. -/
def arguments : Nat → Lexemes → Parsed (List Query × Lexemes)
  | 0, _ => .error .exhausted
  | n + 1, ls => do
    let (q, ls) ← pipe n ls
    match ls with
    | ⟨.semicolon, _⟩ :: ls => do
      let (qs, ls) ← arguments n ls
      return (q :: qs, ls)
    | ls => return ([q], ls)

/-- The suffixes of a term. The sign `?//` behind a term is a question mark with the operator `//` behind it. -/
def suffixes : Nat → Lexemes → Parsed (List Suffix × Lexemes)
  | 0, _ => .error .exhausted
  | n + 1, ls =>
    match ls with
    | ⟨.field name, _⟩ :: ls => do
      let (ss, ls) ← suffixes n ls
      return (Suffix.ofIndex (Index.ofName name) :: ss, ls)
    | ⟨.dot, _⟩ :: ⟨.str parts, _⟩ :: ls => do
      let text ← string n parts
      let (ss, ls) ← suffixes n ls
      return (Suffix.ofIndex (Index.ofText text) :: ss, ls)
    | ⟨.dot, _⟩ :: ⟨.leftBracket, _⟩ :: ls => do
      let (access, ls) ← bracket n ls
      let (ss, ls) ← suffixes n ls
      return ((match access with | some i => Suffix.ofIndex i | none => Suffix.iterate) :: ss, ls)
    | ⟨.leftBracket, _⟩ :: ls => do
      let (access, ls) ← bracket n ls
      let (ss, ls) ← suffixes n ls
      return ((match access with | some i => Suffix.ofIndex i | none => Suffix.iterate) :: ss, ls)
    | ⟨.question, _⟩ :: ls => do
      let (ss, ls) ← suffixes n ls
      return (Suffix.optional :: ss, ls)
    | ⟨.alternative, offset⟩ :: ls => do
      let (ss, ls) ← suffixes n (⟨.op .alt, offset⟩ :: ls)
      return (Suffix.optional :: ss, ls)
    | ls => .ok ([], ls)

/-- What stands in brackets, and the closing bracket: an index or a range, or nothing, for an iteration. -/
def bracket : Nat → Lexemes → Parsed (Option Index × Lexemes)
  | 0, _ => .error .exhausted
  | n + 1, ls =>
    match ls with
    | ⟨.rightBracket, _⟩ :: ls => .ok (none, ls)
    | ⟨.colon, _⟩ :: ls => do
      let (stop, ls) ← pipe n ls
      let ls ← expect .rightBracket ls
      return (some (.index "" .absent .absent (.present stop) true), ls)
    | ls => do
      let (start, ls) ← pipe n ls
      match ls with
      | ⟨.colon, _⟩ :: ⟨.rightBracket, _⟩ :: ls =>
        return (some (.index "" .absent (.present start) .absent true), ls)
      | ⟨.colon, _⟩ :: ls => do
        let (stop, ls) ← pipe n ls
        let ls ← expect .rightBracket ls
        return (some (.index "" .absent (.present start) (.present stop) true), ls)
      | ls => do
        let ls ← expect .rightBracket ls
        return (some (.index "" .absent (.present start) .absent false), ls)

/-- The string that the parts of a string token make. One piece of plain characters is kept as it is; otherwise every
part is a query, plain characters as a string of their own. -/
def string : Nat → List StringPart → Parsed (Node .text)
  | 0, _ => .error .exhausted
  | n + 1, parts =>
    match parts with
    | [.literal s] => .ok (plainText s)
    | parts => do
      let qs ← fragments n parts
      return .text "" (.ofList qs)

def fragments : Nat → List StringPart → Parsed (List Query)
  | 0, _ => .error .exhausted
  | _ + 1, [] => .ok []
  | n + 1, .literal s :: parts => do
    let qs ← fragments n parts
    return Query.ofTerm (Term.ofText (plainText s)) :: qs
  | n + 1, .interpolation source offset :: parts => do
    let q ← whole n source offset
    let qs ← fragments n parts
    return q :: qs

/-- The query that a source is, whose first byte has the given offset. -/
def whole : Nat → String → Nat → Parsed Query
  | 0, _, _ => .error .exhausted
  | n + 1, source, base => do
    let ls ← scanned (Token.scan source base)
    let (q, ls) ← pipe n ls
    expectEnd ls
    return q

/-- The entries of an object, and the closing brace; a comma may stand before it. -/
def objectEntries : Nat → Lexemes → Parsed (List (Node .entry) × Lexemes)
  | 0, _ => .error .exhausted
  | n + 1, ls =>
    match ls with
    | ⟨.rightBrace, _⟩ :: ls => .ok ([], ls)
    | ls => do
      let (e, ls) ← objectEntry n ls
      match ls with
      | ⟨.op .comma, _⟩ :: ls => do
        let (es, ls) ← objectEntries n ls
        return (e :: es, ls)
      | ls => do
        let ls ← expect .rightBrace ls
        return ([e], ls)

/-- A key of an object with its value. A variable stands for its name and its value, a computed key has to have a
value, and a word or a string may do without. -/
def objectEntry : Nat → Lexemes → Parsed (Node .entry × Lexemes)
  | 0, _ => .error .exhausted
  | n + 1, ls =>
    match ls with
    | ⟨.variable name, _⟩ :: ls => .ok (.entry name .absent .absent .absent, ls)
    | ⟨.str parts, _⟩ :: ls => do
      let text ← string n parts
      let (value, ls) ← optionalValue n ls
      return (.entry "" (.present text) .absent (.ofOption value), ls)
    | ⟨.leftParen, _⟩ :: ls => do
      let (key, ls) ← pipe n ls
      let ls ← expect .rightParen ls
      let ls ← expect .colon ls
      let (value, ls) ← objectValue n ls
      return (.entry "" .absent (.present key) (.present value), ls)
    | ls =>
      match wordKey? (peek ls) with
      | some key => do
        let (value, ls) ← optionalValue n ls.tail
        return (.entry key .absent .absent (.ofOption value), ls)
      | none => .error (unexpected ls .objectKey)

def optionalValue : Nat → Lexemes → Parsed (Option Query × Lexemes)
  | 0, _ => .error .exhausted
  | n + 1, ls =>
    match ls with
    | ⟨.colon, _⟩ :: ls => do
      let (value, ls) ← objectValue n ls
      return (some value, ls)
    | ls => .ok (none, ls)

/-- The value of an entry: terms joined by `|`, since a comma ends the entry. -/
def objectValue : Nat → Lexemes → Parsed (Query × Lexemes)
  | 0, _ => .error .exhausted
  | n + 1, ls => do
    let (left, ls) ← term n ls
    match ls with
    | ⟨.op .pipe, _⟩ :: ls => do
      let (right, ls) ← objectValue n ls
      return (Query.binary (Query.ofTerm left) .pipe right, ls)
    | ls => return (Query.ofTerm left, ls)

def pattern : Nat → Lexemes → Parsed (Pattern × Lexemes)
  | 0, _ => .error .exhausted
  | n + 1, ls =>
    match ls with
    | ⟨.variable name, _⟩ :: ls => .ok (Pattern.ofVariable name, ls)
    | ⟨.leftBracket, _⟩ :: ls => do
      let (items, ls) ← patternItems n ls
      let ls ← expect .rightBracket ls
      return (Pattern.ofArray items, ls)
    | ⟨.leftBrace, _⟩ :: ls => do
      let (entries, ls) ← patternEntries n ls
      let ls ← expect .rightBrace ls
      return (Pattern.ofObject entries, ls)
    | ls => .error (unexpected ls .pattern)

/-- One or more patterns, with commas between them. -/
def patternItems : Nat → Lexemes → Parsed (List Pattern × Lexemes)
  | 0, _ => .error .exhausted
  | n + 1, ls => do
    let (p, ls) ← pattern n ls
    match ls with
    | ⟨.op .comma, _⟩ :: ls => do
      let (ps, ls) ← patternItems n ls
      return (p :: ps, ls)
    | ls => return ([p], ls)

def patternEntries : Nat → Lexemes → Parsed (List (Node .patternEntry) × Lexemes)
  | 0, _ => .error .exhausted
  | n + 1, ls => do
    let (e, ls) ← patternEntry n ls
    match ls with
    | ⟨.op .comma, _⟩ :: ls => do
      let (es, ls) ← patternEntries n ls
      return (e :: es, ls)
    | ls => return ([e], ls)

/-- A key of an object pattern with the pattern of its value, which only a variable may do without. -/
def patternEntry : Nat → Lexemes → Parsed (Node .patternEntry × Lexemes)
  | 0, _ => .error .exhausted
  | n + 1, ls =>
    match ls with
    | ⟨.variable name, _⟩ :: ⟨.colon, _⟩ :: ls => do
      let (p, ls) ← pattern n ls
      return (.patternEntry name .absent .absent (.present p), ls)
    | ⟨.variable name, _⟩ :: ls => .ok (.patternEntry name .absent .absent .absent, ls)
    | ⟨.str parts, _⟩ :: ls => do
      let text ← string n parts
      let ls ← expect .colon ls
      let (p, ls) ← pattern n ls
      return (.patternEntry "" (.present text) .absent (.present p), ls)
    | ⟨.leftParen, _⟩ :: ls => do
      let (key, ls) ← pipe n ls
      let ls ← expect .rightParen ls
      let ls ← expect .colon ls
      let (p, ls) ← pattern n ls
      return (.patternEntry "" .absent (.present key) (.present p), ls)
    | ls =>
      match wordKey? (peek ls) with
      | some key => do
        let ls ← expect .colon ls.tail
        let (p, ls) ← pattern n ls
        return (.patternEntry key .absent .absent (.present p), ls)
      | none => .error (unexpected ls .patternKey)

/-- The further conditions of a conditional with their branches. -/
def branches : Nat → Lexemes → Parsed (List (Node .branch) × Lexemes)
  | 0, _ => .error .exhausted
  | n + 1, ls =>
    match ls with
    | ⟨.keyword .elif, _⟩ :: ls => do
      let (cond, ls) ← pipe n ls
      let ls ← expect (.keyword .then) ls
      let (thenBranch, ls) ← pipe n ls
      let (bs, ls) ← branches n ls
      return (.branch cond thenBranch :: bs, ls)
    | ls => .ok ([], ls)

def elseBranch : Nat → Lexemes → Parsed (Option Query × Lexemes)
  | 0, _ => .error .exhausted
  | n + 1, ls =>
    match ls with
    | ⟨.keyword .else, _⟩ :: ls => do
      let (q, ls) ← pipe n ls
      return (some q, ls)
    | ls => .ok (none, ls)

/-- The third part of a running reduction, if there is one. -/
def extraction : Nat → Lexemes → Parsed (Option Query × Lexemes)
  | 0, _ => .error .exhausted
  | n + 1, ls =>
    match ls with
    | ⟨.semicolon, _⟩ :: ls => do
      let (q, ls) ← pipe n ls
      return (some q, ls)
    | ls => .ok (none, ls)

end

/-- Definitions up to the end of the source. -/
def definitions : Nat → Lexemes → Parsed (List Definition)
  | 0, _ => .error .exhausted
  | n + 1, ls =>
    match peek ls with
    | .eof => .ok []
    | .keyword .define => do
      let (d, ls) ← definition n ls
      let ds ← definitions n ls
      return d :: ds
    | .keyword .import => .error (.fault ⟨.moduleDirective, offset ls⟩)
    | .keyword .include => .error (.fault ⟨.moduleDirective, offset ls⟩)
    | _ => .error (unexpected ls .definition)

/-- A number of steps that is enough for every source of a length: between two tokens the productions nest at most ten
deep, and a nested source is shorter than what it is nested in. -/
def enoughSteps (source : String) : Nat :=
  16 * (source.length + 2)

end Grammar

def Halt.diagnostic (source : String) : Halt → Diagnostic
  | .fault e => e.diagnostic.locate source
  | .exhausted => (Diagnostic.unlocated "too many steps" 0).locate source

/-- The query that a source is. -/
def Query.parse (source : String) : Except Diagnostic Query :=
  match Grammar.whole (Grammar.enoughSteps source) source 0 with
  | .ok q => .ok q
  | .error h => .error (h.diagnostic source)

/-- The definitions that a source holds. -/
def Definition.parseAll (source : String) : Except Diagnostic (List Definition) :=
  match Grammar.scanned (Token.scan source 0) with
  | .error h => .error (h.diagnostic source)
  | .ok ls =>
    match Grammar.definitions (Grammar.enoughSteps source) ls with
    | .ok ds => .ok ds
    | .error h => .error (h.diagnostic source)

end DefTable
