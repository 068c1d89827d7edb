import DefTable.Proofs.WellFormedTrees

/-!
# Wordings

A wording is a sequence of tokens in which a string is made of its parts and an interpolation of its own tokens, so that
a source is one with all that is nested in it (`Spells`). The wording of a tree is read off it in the order of the
source (`Node.unparse`). Two sources for one tree may differ in four ways, which `Respelled` allows: the comma behind
the last entry of an object, the sign `?//` behind a term, dots in front of a bracket, and plain characters in a string
that are interpolated as a string of their own.
-/

namespace DefTable

/-! ## Sequences of tokens -/

/-- What a wording is of: tokens, or the parts of a string. -/
inductive Level where
  | tokens
  | parts

/-- A sequence of tokens, or of the parts of a string. -/
inductive Wording : Level → Type where
  | nil : Wording .tokens
  | token (t : Token) (rest : Wording .tokens) : Wording .tokens
  | quote (parts : Wording .parts) (rest : Wording .tokens) : Wording .tokens
  | done : Wording .parts
  /-- Characters as they stand after decoding. -/
  | text (s : String) (rest : Wording .parts) : Wording .parts
  /-- The tokens of an interpolation. -/
  | splice (inner : Wording .tokens) (rest : Wording .parts) : Wording .parts

namespace Wording

variable {l : Level}

/-- One wording after another. -/
def append {l : Level} : Wording l → Wording l → Wording l
  | .nil, w => w
  | .token t rest, w => .token t (rest.append w)
  | .quote parts rest, w => .quote parts (rest.append w)
  | .done, w => w
  | .text s rest, w => .text s (rest.append w)
  | .splice inner rest, w => .splice inner (rest.append w)

instance : Append (Wording l) := ⟨append⟩

@[simp] theorem nil_append (w : Wording .tokens) : .nil ++ w = w := rfl

@[simp] theorem token_append (t : Token) (v w : Wording .tokens) : .token t v ++ w = .token t (v ++ w) := rfl

@[simp] theorem quote_append (ps : Wording .parts) (v w : Wording .tokens) : .quote ps v ++ w = .quote ps (v ++ w) :=
  rfl

/-- Induction along the tokens, without a look into the strings. -/
theorem tokens_ind {P : Wording .tokens → Prop} (nil : P .nil) (token : ∀ t rest, P rest → P (.token t rest))
    (quote : ∀ ps rest, P rest → P (.quote ps rest)) (w : Wording .tokens) : P w := by
  have h : ∀ {l : Level} (w : Wording l), match l, w with
    | .tokens, w => P w
    | .parts, _ => True := by
    intro l w
    induction w with
    | nil => exact nil
    | token t rest ih => exact token t rest ih
    | quote ps rest _ ih => exact quote ps rest ih
    | _ => trivial
  exact h w

@[simp] theorem append_nil (v : Wording .tokens) : v ++ .nil = v := by
  induction v using tokens_ind with
  | nil => rfl
  | token t rest ih => exact congrArg (Wording.token t) ih
  | quote ps rest ih => exact congrArg (Wording.quote ps) ih

@[simp] theorem append_assoc (u v w : Wording l) : u ++ v ++ w = u ++ (v ++ w) := by
  induction u with
  | nil => rfl
  | token t rest ih => exact congrArg (token t) (ih v w)
  | quote parts rest _ ih => exact congrArg (quote parts) (ih v w)
  | done => rfl
  | text s rest ih => exact congrArg (text s) (ih v w)
  | splice inner rest _ ih => exact congrArg (splice inner) (ih v w)

/-- A wording, but none where a condition holds. -/
def whenNot (c : Bool) (w : Wording .tokens) : Wording .tokens :=
  if c then .nil else w

@[simp] theorem whenNot_true (w : Wording .tokens) : whenNot true w = .nil := rfl

@[simp] theorem whenNot_false (w : Wording .tokens) : whenNot false w = w := rfl

end Wording

/-! ## Sources -/

/-- What a wording is found in: the lexemes of a source, or the parts of a string token. -/
@[reducible] def Level.Carrier : Level → Type
  | .tokens => Lexemes
  | .parts => List StringPart

/-- A source, as lexemes, has exactly a wording. An interpolation has the tokens that its own source is cut into. -/
inductive Spells : {l : Level} → l.Carrier → Wording l → Prop where
  | finish {ls : Lexemes} (h : Grammar.peek ls = .eof) : @Spells .tokens ls .nil
  | token {t : Token} {o : Nat} {ls : Lexemes} {w : Wording .tokens} (ht : t.isPlain = true)
      (h : @Spells .tokens ls w) : @Spells .tokens (⟨t, o⟩ :: ls) (.token t w)
  | quote {parts : List StringPart} {o : Nat} {ls : Lexemes} {ps : Wording .parts} {w : Wording .tokens}
      (hps : @Spells .parts parts ps) (h : @Spells .tokens ls w) :
      @Spells .tokens (⟨.str parts, o⟩ :: ls) (.quote ps w)
  | done : @Spells .parts [] .done
  | text {s : String} {parts : List StringPart} {ps : Wording .parts} (h : @Spells .parts parts ps) :
      @Spells .parts (.literal s :: parts) (.text s ps)
  | splice {source : String} {offset : Nat} {parts : List StringPart} {ls : Lexemes} {inner : Wording .tokens}
      {ps : Wording .parts} (hscan : Token.scan source offset = .ok ls) (hinner : @Spells .tokens ls inner)
      (h : @Spells .parts parts ps) : @Spells .parts (.interpolation source offset :: parts) (.splice inner ps)

/-- Whether a wording starts with a bracket, or with dots and then a bracket. -/
def BracketAhead {l : Level} : Wording l → Prop
  | .token .leftBracket _ => True
  | .token .dot w => BracketAhead w
  | _ => False

/-- The wording of a source on the left and that of its tree on the right. -/
inductive Respelled : {l : Level} → Wording l → Wording l → Prop where
  | nil : Respelled .nil .nil
  | token {t : Token} {w u : Wording .tokens} (h : Respelled w u) : Respelled (.token t w) (.token t u)
  | quote {ps qs : Wording .parts} {w u : Wording .tokens} (hps : Respelled ps qs) (h : Respelled w u) :
      Respelled (.quote ps w) (.quote qs u)
  | done : Respelled .done .done
  | text {s : String} {ps qs : Wording .parts} (h : Respelled ps qs) : Respelled (.text s ps) (.text s qs)
  | splice {w u : Wording .tokens} {ps qs : Wording .parts} (hw : Respelled w u) (h : Respelled ps qs) :
      Respelled (.splice w ps) (.splice u qs)
  /-- The comma behind the last entry of an object. -/
  | comma {w u : Wording .tokens} (h : Respelled (.token .rightBrace w) u) :
      Respelled (.token (.op .comma) (.token .rightBrace w)) u
  /-- The sign `?//` behind a term. -/
  | alternative {w u : Wording .tokens} (h : Respelled (.token (.op .alt) w) u) :
      Respelled (.token .alternative w) (.token .question u)
  /-- A dot in front of a bracket of the source. -/
  | dotSource {w u : Wording .tokens} (hw : BracketAhead w) (h : Respelled w u) : Respelled (.token .dot w) u
  /-- A dot in front of a bracket of the tree. -/
  | dotTree {w u : Wording .tokens} (hu : BracketAhead u) (h : Respelled w u) : Respelled w (.token .dot u)
  /-- Plain characters beside an interpolation. -/
  | literal {s : String} {ps qs : Wording .parts} (h : Respelled ps qs) :
      Respelled (.text s ps) (.splice (.quote (.text s .done) .nil) qs)

/-! ## Trees -/

/-- The token that an operator is. -/
def Operator.token : Operator → Token
  | .and => .keyword .and
  | .or => .keyword .or
  | o => .op o

/-- The token that a name is: a variable with its sigil, or a word. -/
def Token.ofName (name : String) : Token :=
  if Node.isVariableKey name then .variable name else ofWord name

namespace Node

open Wording

/-- The parameters of a definition, with semicolons between them. -/
@[simp] def paramsWording : List String → Wording .tokens
  | [] => .nil
  | [name] => .token (Token.ofName name) .nil
  | name :: names => .token (Token.ofName name) (.token .semicolon (paramsWording names))

/-- The key of an entry: a name, a string, or a query in parentheses. -/
@[simp] def keyWording (key : String) (text query : Wording .tokens) (noQuery : Bool) : Wording .tokens :=
  .whenNot (decide (key = "")) (.token (Token.ofName key) .nil) ++ text ++
    .whenNot noQuery (.token .leftParen (query ++ .token .rightParen .nil))

mutual

/-- The tokens of a tree in the order of the source. There are parentheses only where a term holds a query, and
brackets behind a term come with a dot. -/
@[simp] def unparse {s : Shape} : Node s → Wording .tokens
  | .definition name params b =>
    .token (.keyword .define) (.token (Token.ofName name)
      (.whenNot params.isEmpty (.token .leftParen (paramsWording params ++ .token .rightParen .nil)) ++
        .token .colon (b.unparse ++ .token .semicolon .nil)))
  | .query ds t l op r _ =>
    ds.unparse ++ t.unparse ++ l.unparse ++ (match op with | none => .nil | some o => .token o.token .nil) ++ r.unparse
  | .term kind i c o a num u fmt x cond att red fore lab brk q ss =>
    (match kind with
      | .identity => .token .dot .nil
      | .recurse => .token .dotDot .nil
      | .null => .token (.ident "null") .nil
      | .true => .token (.ident "true") .nil
      | .false => .token (.ident "false") .nil
      | .index => i.unparse
      | .func => c.unparse
      | .object => o.unparse
      | .array => a.unparse
      | .number => .token (.number num) .nil
      | .unary => u.unparse
      | .format => .token (.format fmt) x.unparse
      | .string => x.unparse
      | .conditional => cond.unparse
      | .attempt => att.unparse
      | .reduce => red.unparse
      | .foreach => fore.unparse
      | .label => lab.unparse
      | .break => .token (.keyword .break) (.token (.variable brk) .nil)
      | .query => .token .leftParen (q.unparse ++ .token .rightParen .nil)) ++ ss.unparse
  | .index name x start stop isSlice =>
    if name ≠ "" then .token (.field name) .nil
    else if x.isEmpty then
      .token .dot (.token .leftBracket
        (start.unparse ++ .whenNot (!isSlice) (.token .colon .nil) ++ stop.unparse ++ .token .rightBracket .nil))
    else .token .dot x.unparse
  | .call name args =>
    .token (Token.ofName name)
      (.whenNot args.isEmpty (.token .leftParen (args.joined .semicolon ++ .token .rightParen .nil)))
  | .text plain parts => .quote (if parts.isEmpty then .text plain .done else parts.splices) .nil
  | .object es => .token .leftBrace (es.joined (.op .comma) ++ .token .rightBrace .nil)
  | .entry key x q v =>
    keyWording key x.unparse q.unparse q.isEmpty ++ .whenNot v.isEmpty (.token .colon v.unparse)
  | .array q => .token .leftBracket (q.unparse ++ .token .rightBracket .nil)
  | .unary op t => .token op.token t.unparse
  | .suffix i iter opt b =>
    i.unparse ++ .whenNot (!iter) (.token .dot (.token .leftBracket (.token .rightBracket .nil))) ++
      .whenNot (!opt) (.token .question .nil) ++ b.unparse
  | .binding ps b => .token (.keyword .as) (ps.joined .alternative ++ .token (.op .pipe) b.unparse)
  | .pattern name a o =>
    .whenNot (decide (name = "")) (.token (.variable name) .nil) ++
      .whenNot a.isEmpty (.token .leftBracket (a.joined (.op .comma) ++ .token .rightBracket .nil)) ++
      .whenNot o.isEmpty (.token .leftBrace (o.joined (.op .comma) ++ .token .rightBrace .nil))
  | .patternEntry key x q v =>
    keyWording key x.unparse q.unparse q.isEmpty ++ .whenNot v.isEmpty (.token .colon v.unparse)
  | .conditional c t es e =>
    .token (.keyword .if) (c.unparse ++ .token (.keyword .then) (t.unparse ++ es.unparse ++
      .whenNot e.isEmpty (.token (.keyword .else) e.unparse) ++ .token (.keyword .end) .nil))
  | .branch c t => .token (.keyword .elif) (c.unparse ++ .token (.keyword .then) t.unparse)
  | .attempt b h =>
    .token (.keyword .try) (b.unparse ++ .whenNot h.isEmpty (.token (.keyword .catch) h.unparse))
  | .reduce t p start update =>
    .token (.keyword .reduce) (t.unparse ++ .token (.keyword .as) (p.unparse ++
      .token .leftParen (start.unparse ++ .token .semicolon (update.unparse ++ .token .rightParen .nil))))
  | .foreach t p start update e =>
    .token (.keyword .foreach) (t.unparse ++ .token (.keyword .as) (p.unparse ++
      .token .leftParen (start.unparse ++ .token .semicolon (update.unparse ++
        .whenNot e.isEmpty (.token .semicolon e.unparse) ++ .token .rightParen .nil))))
  | .label name b => .token (.keyword .label) (.token (.variable name) (.token (.op .pipe) b.unparse))
  | .nil => .nil
  | .cons n ns => n.unparse ++ ns.unparse
  | .absent => .nil
  | .present n => n.unparse

/-- The members of a list with a token between them. -/
@[simp] def joined {s : Shape} (separator : Token) : Node s → Wording .tokens
  | .cons n ns => n.unparse ++ .whenNot ns.isEmpty (.token separator (ns.joined separator))
  | _ => .nil

/-- The members of a list as interpolations of a string. -/
@[simp] def splices {s : Shape} : Node s → Wording .parts
  | .cons n ns => .splice n.unparse ns.splices
  | _ => .done

end

/-- What stands in brackets, and the closing bracket. -/
def inBrackets : Node (.optional .index) → Wording .tokens
  | .absent => .token .rightBracket .nil
  | .present (.index _ _ start stop isSlice) =>
    start.unparse ++ .whenNot (!isSlice) (.token .colon .nil) ++ stop.unparse ++ .token .rightBracket .nil

/-! ### Trees as they are built -/

section
variable {s : Shape}

@[simp] theorem isEmpty_nil : (nil : Node (.list s)).isEmpty = true := rfl

@[simp] theorem isEmpty_cons (n : Node s) (ns : Node (.list s)) : (cons n ns).isEmpty = false := rfl

@[simp] theorem isEmpty_absent : (absent : Node (.optional s)).isEmpty = true := rfl

@[simp] theorem isEmpty_present (n : Node s) : (present n).isEmpty = false := rfl

theorem unparse_append : ∀ as bs : Node (.list s), (as.append bs).unparse = as.unparse ++ bs.unparse
  | .nil, _ => rfl
  | .cons n as, bs => by rw [append, unparse, unparse, unparse_append as bs, Wording.append_assoc]

@[simp] theorem unparse_withDefs (d : Definition) (q : Query) :
    (Query.withDefs (.cons d .nil) q).unparse = d.unparse ++ q.unparse := by
  cases q with
  | query ds t l op r func => simp [Query.withDefs, append]

@[simp] theorem unparse_withSuffixes (ss : List Suffix) (t : Term) :
    (Term.withSuffixes ss t).unparse = t.unparse ++ (ofList ss).unparse := by
  cases t with
  | term => simp only [Term.withSuffixes, unparse, unparse_append, Wording.append_assoc]

@[simp] theorem unparse_ofTerm (t : Term) : (Query.ofTerm t).unparse = t.unparse := by
  simp [Query.ofTerm]

@[simp] theorem unparse_binary (l : Query) (op : Operator) (r : Query) :
    (Query.binary l op r).unparse = l.unparse ++ .token op.token r.unparse := by
  simp [Query.binary]

@[simp] theorem unparse_ofIndex (i : Index) : (Term.ofIndex i).unparse = i.unparse := by
  simp [Term.ofIndex]

@[simp] theorem unparse_ofCall (name : String) (args : List Query) :
    (Term.ofCall name args).unparse = (Node.call name (.ofList args)).unparse := by
  simp [Term.ofCall]

@[simp] theorem unparse_ofObject (es : List (Node .entry)) :
    (Term.ofObject es).unparse = (Node.object (.ofList es)).unparse := by
  simp [Term.ofObject]

@[simp] theorem unparse_ofArray (q : Option Query) :
    (Term.ofArray q).unparse = (Node.array (.ofOption q)).unparse := by
  simp [Term.ofArray]

@[simp] theorem unparse_ofNumber (digits : String) :
    (Term.ofNumber digits).unparse = .token (.number digits) .nil := by
  simp [Term.ofNumber]

@[simp] theorem unparse_ofUnary (op : Operator) (t : Term) :
    (Term.ofUnary op t).unparse = .token op.token t.unparse := by
  simp [Term.ofUnary]

@[simp] theorem unparse_ofFormat (name : String) (x : Option (Node .text)) :
    (Term.ofFormat name x).unparse = .token (.format name) (ofOption x).unparse := by
  simp [Term.ofFormat]

@[simp] theorem unparse_ofText (x : Node .text) : (Term.ofText x).unparse = x.unparse := by
  simp [Term.ofText]

@[simp] theorem unparse_ofConditional (c : Node .conditional) : (Term.ofConditional c).unparse = c.unparse := by
  simp [Term.ofConditional]

@[simp] theorem unparse_ofAttempt (a : Node .attempt) : (Term.ofAttempt a).unparse = a.unparse := by
  simp [Term.ofAttempt]

@[simp] theorem unparse_ofReduce (r : Node .reduce) : (Term.ofReduce r).unparse = r.unparse := by
  simp [Term.ofReduce]

@[simp] theorem unparse_ofForeach (f : Node .foreach) : (Term.ofForeach f).unparse = f.unparse := by
  simp [Term.ofForeach]

@[simp] theorem unparse_ofLabel (name : String) (q : Query) :
    (Term.ofLabel name q).unparse = (Node.label name q).unparse := by
  simp [Term.ofLabel]

@[simp] theorem unparse_ofBreak (name : String) :
    (Term.ofBreak name).unparse = .token (.keyword .break) (.token (.variable name) .nil) := by
  simp [Term.ofBreak]

@[simp] theorem unparse_ofQuery (q : Query) :
    (Term.ofQuery q).unparse = .token .leftParen (q.unparse ++ .token .rightParen .nil) := by
  simp [Term.ofQuery]

@[simp] theorem unparse_identity : (Term.ofKind .identity).unparse = .token .dot .nil := by
  simp [Term.ofKind]

@[simp] theorem unparse_ofBinding (ps : List Pattern) (q : Query) :
    (Suffix.ofBinding ps q).unparse = (Node.binding (.ofList ps) q).unparse := by
  simp [Suffix.ofBinding]

@[simp] theorem unparse_suffixOfIndex (i : Index) : (Suffix.ofIndex i).unparse = i.unparse := by
  simp [Suffix.ofIndex]

@[simp] theorem unparse_iterate :
    Suffix.iterate.unparse = .token .dot (.token .leftBracket (.token .rightBracket .nil)) := by
  simp [Suffix.iterate]

@[simp] theorem unparse_optional : Suffix.optional.unparse = .token .question .nil := by
  simp [Suffix.optional]

@[simp] theorem unparse_indexOfText (x : Node .text) : (Index.ofText x).unparse = .token .dot x.unparse := by
  simp [Index.ofText]

theorem unparse_indexOfName {name : String} (h : name ≠ "") :
    (Index.ofName name).unparse = .token (.field name) .nil := by
  simp [Index.ofName, h]

theorem unparse_ofVariable {name : String} (h : name ≠ "") :
    (Pattern.ofVariable name).unparse = .token (.variable name) .nil := by
  simp [Pattern.ofVariable, h]

theorem unparse_patternOfArray {ps : Node (.list .pattern)} (h : ps.isEmpty = false) :
    (Pattern.ofArray ps.toList).unparse =
      .token .leftBracket (ps.joined (.op .comma) ++ .token .rightBracket .nil) := by
  simp [Pattern.ofArray, h]

theorem unparse_patternOfObject {es : Node (.list .patternEntry)} (h : es.isEmpty = false) :
    (Pattern.ofObject es.toList).unparse =
      .token .leftBrace (es.joined (.op .comma) ++ .token .rightBrace .nil) := by
  simp [Pattern.ofObject, h]

@[simp] theorem unparse_plainText (text : String) :
    (Grammar.plainText text).unparse = .quote (.text text .done) .nil := by
  simp [Grammar.plainText]

end

end Node
end DefTable
