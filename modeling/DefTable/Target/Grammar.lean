import DefTable.Rules
import DefTable.Target.Lexeme

/-!
# Grammar of the generated file

Which texts are names, paths, types and expressions of the language that the generated file is written in. Only
acceptance counts, so every production maps the lexemes that it starts at to those that it leaves.

The contents of a macro are lexemes in brackets and nothing more. Of the expressions, those that a literal or a constant
can be written with are known: operators, ranges, calls, members, indices, records, lists, tuples, macros, blocks of
expressions and jumps, each with comments that document it; conditions, loops over conditions, closures, declarations
and other attributes are not.

These are the rules that the program runs with (`rules`), no account of the language as a whole: what is said about
rendering is said of every `Rules`.
-/

namespace DefTable.Target

/-- What a production leaves of the lexemes. -/
abbrev Rest := Option (List Lexeme)

/-! ## Words and signs -/

/-- The words that are no names. -/
def reserved : List String :=
  ["_", "abstract", "as", "async", "await", "become", "box", "break", "const", "continue", "crate", "do", "dyn", "else",
   "enum", "extern", "false", "final", "fn", "for", "if", "impl", "in", "let", "loop", "macro", "match", "mod", "move",
   "mut", "override", "priv", "pub", "ref", "return", "Self", "self", "static", "struct", "super", "trait", "true",
   "try", "type", "typeof", "unsafe", "unsized", "use", "virtual", "where", "while", "yield"]

def isName (w : String) : Bool :=
  !reserved.contains w

/-- The reserved words that stand in a path, without arguments. -/
def pathWords : List String :=
  ["super", "self", "crate", "try"]

/-- What is left behind signs that are written together. -/
def afterSigns : List Char → List Lexeme → Rest
  | [], ls => some ls
  | [c], .sign c' _ :: ls => if c = c' then some ls else none
  | c :: cs, .sign c' true :: ls => if c = c' then afterSigns cs ls else none
  | _, _ => none

/-- What is left behind an operator that is written with signs. -/
def after? (text : String) (ls : List Lexeme) : Rest :=
  afterSigns text.toList ls

def starts (text : String) (ls : List Lexeme) : Bool :=
  (after? text ls).isSome

/-- What is left behind a bracket that opens. -/
def opened? (b : Bracket) : List Lexeme → Rest
  | .opening b' :: ls => if b = b' then some ls else none
  | _ => none

/-- What is left behind a bracket that closes. -/
def closed? (b : Bracket) : List Lexeme → Rest
  | .closing b' :: ls => if b = b' then some ls else none
  | _ => none

def closes : List Lexeme → Bool
  | .closing _ :: _ => true
  | _ => false

/-- What is left behind a word, whether it is there or not. -/
def pastWord (w : String) : List Lexeme → List Lexeme
  | .word w' :: ls => if w = w' then ls else .word w' :: ls
  | ls => ls

/-- What is left behind a lifetime, whether it is there or not. -/
def pastLifetime : List Lexeme → List Lexeme
  | .lifetime :: ls => ls
  | ls => ls

/-- What is left behind the bracket that closes the innermost of a number of open ones. -/
def skipGroup : Nat → List Lexeme → Rest
  | depth, .opening _ :: ls => skipGroup (depth + 1) ls
  | 0, .closing _ :: ls => some ls
  | depth + 1, .closing _ :: ls => skipGroup depth ls
  | depth, _ :: ls => skipGroup depth ls
  | _, [] => none

/-- What is left behind a group in brackets. -/
def group? : List Lexeme → Rest
  | .opening _ :: ls => skipGroup 0 ls
  | _ => none

/-- What is left behind the lifetimes of a binder, from behind its first sign on. -/
def binderRest : List Lexeme → Rest
  | .sign '>' _ :: ls => some ls
  | .lifetime :: .sign '>' _ :: ls => some ls
  | .lifetime :: .sign ',' _ :: ls => binderRest ls
  | _ => none

/-- What is left behind a binder of lifetimes, if it is there. -/
def pastBinder : List Lexeme → Rest
  | .word "for" :: .sign '<' _ :: ls => binderRest ls
  | ls => some ls

/-! ## Plain paths -/

/-- Whether a word is a segment of a path. -/
def isSegment (w : String) : Bool :=
  isName w || w = "Self" || pathWords.contains w

/-- What is left behind the segments of a path without arguments, as many as there are. -/
def plainSegments : List Lexeme → Rest
  | .word w :: .sign ':' true :: .sign ':' j :: ls =>
    if isSegment w then (plainSegments ls).or (some (.sign ':' true :: .sign ':' j :: ls)) else none
  | .word w :: ls => if isSegment w then some ls else none
  | _ => none

def plainPath? (ls : List Lexeme) : Rest :=
  plainSegments ((after? "::" ls).getD ls)

/-- What is left behind a macro with its contents. -/
def macro? (ls : List Lexeme) : Rest :=
  match plainPath? ls with
  | some (.sign '!' _ :: rest) => group? rest
  | _ => none

/-! ## Literals and operators -/

/-- What is left behind a literal. -/
def literal? : List Lexeme → Rest
  | .number :: ls => some ls
  | .quotation :: ls => some ls
  | .word "true" :: ls => some ls
  | .word "false" :: ls => some ls
  | _ => none

/-- What is left behind a literal, which may be a negative number. -/
def signedLiteral? : List Lexeme → Rest
  | .sign '-' _ :: .number :: ls => some ls
  | ls => literal? ls

/-- How an operator stands to comparisons: two of them must not follow each other, unless an operator that binds less
tightly stands between them. -/
inductive Tightness where
  | looser | comparison | tighter
deriving DecidableEq

/-- The operators between expressions, those in front that others begin with. -/
def operators : List (String × Tightness) :=
  [("<<=", .looser), (">>=", .looser), ("+=", .looser), ("-=", .looser), ("*=", .looser), ("/=", .looser),
   ("%=", .looser), ("^=", .looser), ("&=", .looser), ("|=", .looser), ("&&", .looser), ("||", .looser),
   ("<<", .tighter), (">>", .tighter), ("==", .comparison), ("<=", .comparison), ("!=", .comparison),
   (">=", .comparison), ("+", .tighter), ("-", .tighter), ("*", .tighter), ("/", .tighter), ("%", .tighter),
   ("^", .tighter), ("&", .tighter), ("|", .tighter), ("<", .comparison), (">", .comparison)]

/-- An operator between expressions and what is left behind it. -/
def operator? (ls : List Lexeme) : Option (Tightness × List Lexeme) :=
  operators.findSome? fun op => (after? op.1 ls).map fun rest => (op.2, rest)

/-- Whether an expression that may be left out is left out. -/
def omitted : List Lexeme → Bool
  | [] => true
  | .closing _ :: _ => true
  | .sign ',' _ :: _ => true
  | .sign ';' _ :: _ => true
  | _ => false

/-- Whether a further bound starts. -/
def startsBound : List Lexeme → Bool
  | .word _ :: _ => true
  | .lifetime :: _ => true
  | .opening .round :: _ => true
  | .sign '?' _ :: _ => true
  | ls => starts "::" ls

/-- What is left behind the name of an argument and its colon, if it has a name. -/
def pastArgumentName : List Lexeme → List Lexeme
  | .word w :: .sign ':' j :: ls =>
    if (isName w || w = "_" || w = "self") && !starts "::" (.sign ':' j :: ls) then ls
    else .word w :: .sign ':' j :: ls
  | ls => ls

/-! ## Productions

Each consumes a step of its bound. -/

mutual

/-- A path. In an expression, the arguments of a segment follow a double colon. -/
def path? (inExpression : Bool) : Nat → List Lexeme → Rest
  | 0, _ => none
  | n + 1, ls => segments? inExpression n ((after? "::" ls).getD ls)

def segments? (inExpression : Bool) : Nat → List Lexeme → Rest
  | 0, _ => none
  | n + 1, ls => (segment? inExpression n ls).bind (moreSegments? inExpression n)

def segment? (inExpression : Bool) : Nat → List Lexeme → Rest
  | 0, _ => none
  | n + 1, .word w :: ls =>
    if pathWords.contains w then some ls
    else if isName w || w = "Self" then
      match (after? "::" ls).bind (after? "<") with
      | some rest => arguments? n rest
      | none =>
        if !inExpression && starts "<" ls && !starts "<=" ls then (after? "<" ls).bind (arguments? n) else some ls
    else none
  | _ + 1, _ => none

def moreSegments? (inExpression : Bool) : Nat → List Lexeme → Rest
  | 0, _ => none
  | n + 1, ls =>
    match after? "::" ls with
    | some rest => if (opened? .round rest).isSome then some ls else segments? inExpression n rest
    | none => some ls

def arguments? : Nat → List Lexeme → Rest
  | 0, _ => none
  | n + 1, ls =>
    match after? ">" ls with
    | some rest => some rest
    | none =>
      (argument? n ls).bind fun rest =>
        match after? ">" rest with
        | some rest => some rest
        | none => (after? "," rest).bind (arguments? n)

/-- An argument of a segment: a lifetime, a constant, a type, or a name that is set equal or bounded. -/
def argument? : Nat → List Lexeme → Rest
  | 0, _ => none
  | n + 1, ls =>
    match ls with
    | .lifetime :: rest => if starts "+" rest then type? true n ls else some rest
    | _ =>
      match constant? n ls with
      | some rest => some rest
      | none =>
        match macro? ls with
        | some rest => some rest
        | none =>
          match segment? false n ls with
          | some rest => namedArgument? n rest
          | none => type? true n ls

/-- An argument that starts with a name, from behind the name and its own arguments on: what the name is set equal to,
its bounds, or the rest of a type. -/
def namedArgument? : Nat → List Lexeme → Rest
  | 0, _ => none
  | n + 1, ls =>
    match after? "=" ls with
    | some rest => (constant? n rest).or (type? true n rest)
    | none =>
      if starts ":" ls && !starts "::" ls then
        (after? ":" ls).bind fun rest =>
          if starts "," rest || starts ">" rest then some rest else bounds? true true n rest
      else ((moreSegments? false n ls).bind (signature? n)).bind (moreBounds? true true n)

def constant? : Nat → List Lexeme → Rest
  | 0, _ => none
  | n + 1, ls => (signedLiteral? ls).or ((opened? .curly ls).bind (block? n))

/-- A path in the scope of a type: the type, a trait, and the segments behind them. -/
def qualified? (inExpression : Bool) : Nat → List Lexeme → Rest
  | 0, _ => none
  | n + 1, ls =>
    match after? "<" ls with
    | some rest =>
      (type? true n rest).bind fun rest =>
        (match rest with
          | .word "as" :: rest => path? false n rest
          | rest => some rest).bind fun rest =>
            ((after? ">" rest).bind (after? "::")).bind (segments? inExpression n)
    | none => path? inExpression n ls

/-- A type, with bounds behind it where they may stand. -/
def type? (bounded : Bool) : Nat → List Lexeme → Rest
  | 0, _ => none
  | n + 1, ls =>
    match ls with
    | .opening .round :: rest => tupleType? bounded n rest
    | .opening .square :: rest =>
      (type? true n rest).bind fun rest =>
        match after? ";" rest with
        | some rest => (expression? n rest).bind (closed? .square)
        | none => closed? .square rest
    | .sign '*' _ :: .word w :: rest => if w = "const" || w = "mut" then type? false n rest else none
    | .sign '&' _ :: rest => type? false n (pastWord "mut" (pastLifetime rest))
    | .sign '!' _ :: rest => some rest
    | .lifetime :: _ => bounds? true false n ls
    | .word "for" :: _ =>
      (pastBinder ls).bind fun rest => (functionType? n rest).or ((traitPath? n rest).bind (moreBounds? bounded true n))
    | .word "dyn" :: rest => bounds? bounded false n rest
    | .word "impl" :: rest => bounds? bounded false n rest
    | .word "_" :: rest => some rest
    | _ => (functionType? n ls).or ((macro? ls).or (pathType? bounded n ls))

/-- A type that is a path, with bounds behind it. -/
def pathType? (bounded : Bool) : Nat → List Lexeme → Rest
  | 0, _ => none
  | n + 1, ls =>
    if starts "<" ls then (qualified? false n ls).bind (signature? n)
    else (traitPath? n ls).bind fun rest => if bounded then moreBounds? true true n rest else some rest

/-- A path with the signature of a function behind it, if there is one. -/
def traitPath? : Nat → List Lexeme → Rest
  | 0, _ => none
  | n + 1, ls => (path? false n ls).bind (signature? n)

/-- The types of arguments in round brackets and of the result, if they are there. -/
def signature? : Nat → List Lexeme → Rest
  | 0, _ => none
  | n + 1, ls =>
    match opened? .round ((after? "::" ls).getD ls) with
    | some rest => (types? n rest).bind (result? n)
    | none => some ls

def result? : Nat → List Lexeme → Rest
  | 0, _ => none
  | n + 1, ls =>
    match after? "->" ls with
    | some rest => type? false n rest
    | none => some ls

def types? : Nat → List Lexeme → Rest
  | 0, _ => none
  | n + 1, ls =>
    match closed? .round ls with
    | some rest => some rest
    | none =>
      (type? true n ls).bind fun rest =>
        match closed? .round rest with
        | some rest => some rest
        | none => (after? "," rest).bind (types? n)

/-- A tuple of types, or a type or a bound in round brackets, from behind the first one on. -/
def tupleType? (bounded : Bool) : Nat → List Lexeme → Rest
  | 0, _ => none
  | n + 1, ls =>
    match ls with
    | .closing .round :: rest => some rest
    | .sign '?' _ :: _ => ((bound? n ls).bind (closed? .round)).bind (moreBounds? true true n)
    | _ =>
      (type? true n ls).bind fun rest =>
        match after? "," rest with
        | some rest => types? n rest
        | none =>
          (closed? .round rest).bind fun rest =>
            if bounded && starts "+" rest && ((bound? n ls).bind (closed? .round)).isSome then
              moreBounds? true true n rest
            else some rest

/-- The type of a function that is no trait. -/
def functionType? : Nat → List Lexeme → Rest
  | 0, _ => none
  | n + 1, ls =>
    (match pastWord "unsafe" ls with
      | .word "extern" :: .quotation :: .word "fn" :: .opening .round :: rest => some rest
      | .word "extern" :: .word "fn" :: .opening .round :: rest => some rest
      | .word "fn" :: .opening .round :: rest => some rest
      | _ => none).bind fun rest => (functionArguments? n rest).bind (result? n)

/-- The arguments of a function type up to the bracket behind them. -/
def functionArguments? : Nat → List Lexeme → Rest
  | 0, _ => none
  | n + 1, ls =>
    match closed? .round ls with
    | some rest => some rest
    | none =>
      match after? "..." ls with
      | some rest => closed? .round ((after? "," rest).getD rest)
      | none =>
        (type? true n (pastArgumentName ls)).bind fun rest =>
          match closed? .round rest with
          | some rest => some rest
          | none => (after? "," rest).bind (functionArguments? n)

/-- Bounds with plus signs. One of them must be a trait, unless one was there before. -/
def bounds? (bounded hasTrait : Bool) : Nat → List Lexeme → Rest
  | 0, _ => none
  | n + 1, .lifetime :: ls => moreBounds? bounded hasTrait n ls
  | n + 1, ls => (bound? n ls).bind (moreBounds? bounded true n)

def moreBounds? (bounded hasTrait : Bool) : Nat → List Lexeme → Rest
  | 0, _ => none
  | n + 1, ls =>
    match after? "+" ls with
    | some rest =>
      if bounded && startsBound rest then bounds? bounded hasTrait n rest
      else if !hasTrait then none
      else if bounded then some rest
      else some ls
    | none => if hasTrait then some ls else none

def bound? : Nat → List Lexeme → Rest
  | 0, _ => none
  | n + 1, .opening .round :: ls => (trait? n ls).bind (closed? .round)
  | n + 1, ls => trait? n ls

def trait? : Nat → List Lexeme → Rest
  | 0, _ => none
  | n + 1, ls =>
    (pastBinder ls).bind fun rest =>
      match after? "?" rest with
      | some rest => (pastBinder rest).bind (traitPath? n)
      | none => traitPath? n rest

def expression? : Nat → List Lexeme → Rest
  | 0, _ => none
  | n + 1, ls => (operand? n ls).bind (operation? false n)

/-- What follows the left side of operators; `compared` says whether a comparison stands there. -/
def operation? (compared : Bool) : Nat → List Lexeme → Rest
  | 0, _ => none
  | n + 1, ls =>
    match operator? ls with
    | some (.looser, rest) => (operand? n rest).bind (operation? false n)
    | some (.comparison, rest) => if compared then none else (operand? n rest).bind (operation? true n)
    | some (.tighter, rest) => (operand? n rest).bind (operation? compared n)
    | none =>
      match ls with
      | .sign '=' _ :: rest => if starts "=>" ls then some ls else expression? n rest
      | .word "as" :: rest => (type? false n rest).bind (operation? compared n)
      | _ =>
        match after? ".." ls with
        | some rest => rangeEnd? n rest
        | none => some ls

/-- The end of a range, from behind its points on. -/
def rangeEnd? : Nat → List Lexeme → Rest
  | 0, _ => none
  | n + 1, ls =>
    match after? "=" ls with
    | some rest => expression? n rest
    | none => if omitted ls then some ls else expression? n ls

/-- An expression without an operator between two others. -/
def operand? : Nat → List Lexeme → Rest
  | 0, _ => none
  | n + 1, ls =>
    match ls with
    | .document true :: rest => operand? n rest
    | .sign '-' _ :: rest => operand? n rest
    | .sign '!' _ :: rest => operand? n rest
    | .sign '*' _ :: rest => operand? n rest
    | .sign '&' _ :: rest => operand? n (pastWord "mut" rest)
    | _ =>
      match after? ".." ls with
      | some rest => rangeEnd? n rest
      | none => (atom? n ls).bind (trailers? n)

/-- Calls, indices, members and questions behind an expression. -/
def trailers? : Nat → List Lexeme → Rest
  | 0, _ => none
  | n + 1, ls =>
    match ls with
    | .opening .round :: rest => (expressions? .round n rest).bind (trailers? n)
    | .opening .square :: rest => ((expression? n rest).bind (closed? .square)).bind (trailers? n)
    | .sign '?' _ :: rest => trailers? n rest
    | .sign '.' j :: rest => if starts ".." (.sign '.' j :: rest) then some ls else (member? n rest).bind (trailers? n)
    | _ => some ls

def member? : Nat → List Lexeme → Rest
  | 0, _ => none
  | n + 1, ls =>
    match ls with
    | .number :: rest => some rest
    | .word w :: rest =>
      if isName w || w = "await" then
        match (after? "::" rest).bind (after? "<") with
        | some rest => (arguments? n rest).filter fun rest => (opened? .round rest).isSome
        | none => some rest
      else none
    | _ => none

/-- Expressions with commas up to a bracket. -/
def expressions? (b : Bracket) : Nat → List Lexeme → Rest
  | 0, _ => none
  | n + 1, ls =>
    match closed? b ls with
    | some rest => some rest
    | none =>
      (expression? n ls).bind fun rest =>
        match closed? b rest with
        | some rest => some rest
        | none => (after? "," rest).bind (expressions? b n)

/-- An expression that no operator is part of. -/
def atom? : Nat → List Lexeme → Rest
  | 0, _ => none
  | n + 1, ls =>
    match ls with
    | .opening .round :: rest => expressions? .round n rest
    | .opening .square :: rest =>
      (expressions? .square n rest).or
        ((expression? n rest).bind fun rest =>
          ((after? ";" rest).bind (expression? n)).bind (closed? .square))
    | .opening .curly :: rest => block? n rest
    | .word "_" :: rest => some rest
    | .word "break" :: rest =>
      if omitted (pastLifetime rest) then some (pastLifetime rest) else expression? n (pastLifetime rest)
    | .word "continue" :: rest => some (pastLifetime rest)
    | .word "return" :: rest => if omitted rest then some rest else expression? n rest
    | .word "yield" :: rest => if omitted rest then some rest else expression? n rest
    | .word "become" :: rest => expression? n rest
    | .word "loop" :: rest => (opened? .curly rest).bind (block? n)
    | .word "unsafe" :: rest => (opened? .curly rest).bind (block? n)
    | .word "const" :: rest => (opened? .curly rest).bind (block? n)
    | .word "async" :: rest => (opened? .curly (pastWord "move" rest)).bind (block? n)
    | .word "try" :: .opening .curly :: rest => block? n rest
    | .word "try" :: rest => if starts "!" rest || starts "::" rest then pathExpression? n ls else none
    | _ => (literal? ls).or (pathExpression? n ls)

def pathExpression? : Nat → List Lexeme → Rest
  | 0, _ => none
  | n + 1, ls =>
    (macro? ls).or
      ((qualified? true n ls).bind fun rest =>
        match opened? .curly rest with
        | some rest => fields? n rest
        | none => some rest)

/-- The fields of a record up to the bracket behind them. A field without a value has that of the variable of its
name; two points stand before what the other fields are taken from. -/
def fields? : Nat → List Lexeme → Rest
  | 0, _ => none
  | n + 1, ls =>
    match closed? .curly ls with
    | some rest => some rest
    | none =>
      match after? ".." ls with
      | some rest =>
        match closed? .curly rest with
        | some rest => some rest
        | none => (expression? n rest).bind (closed? .curly)
      | none =>
        (field? n ls).bind fun rest =>
          match closed? .curly rest with
          | some rest => some rest
          | none => (after? "," rest).bind (fields? n)

def field? : Nat → List Lexeme → Rest
  | 0, _ => none
  | n + 1, .number :: ls => (after? ":" ls).bind (expression? n)
  | n + 1, .word w :: ls =>
    if isName w then
      match after? ":" ls with
      | some rest => expression? n rest
      | none => some ls
    else none
  | _ + 1, _ => none

/-- The expressions of a block up to the bracket behind them. -/
def block? : Nat → List Lexeme → Rest
  | 0, _ => none
  | n + 1, ls =>
    match closed? .curly ls with
    | some rest => some rest
    | none =>
      match after? ";" ls with
      | some rest => block? n rest
      | none =>
        (expression? n ls).bind fun rest => if closes rest || starts ";" rest then block? n rest else none

end

/-! ## Texts -/

/-- A bound on the steps that productions take on a number of lexemes. -/
def enoughSteps (ls : List Lexeme) : Nat :=
  32 * (ls.length + 1)

/-- Whether a text is what a production takes as a whole. -/
def isWhole (production : Nat → List Lexeme → Rest) (s : String) : Bool :=
  (Lexeme.scan s).any fun ls => production (enoughSteps ls) ls == some []

def isIdentifier (s : String) : Bool :=
  match Lexeme.scan s with
  | some [.word w] => isName w
  | _ => false

def isPath (s : String) : Bool :=
  isWhole (path? false) s

def isType (s : String) : Bool :=
  isWhole (type? true) s

def isExpression (s : String) : Bool :=
  isWhole expression? s

/-- The rules that the program has for the generated file. -/
def rules : Rules where
  isIdentifier := isIdentifier
  isPath := isPath
  typeFault? s := if isType s then none else some "expected a type"
  expressionFault? s := if isExpression s then none else some "expected an expression"

end DefTable.Target
