import DefTable.Proofs.ProductionEquations

/-!
# Productions without their calls

What a production does between its calls of others is a tree (`Grammar.Procedure`): it looks at the next tokens, takes
one that it has named, and calls other productions without knowing what they do. Nothing takes the end of a source, by
construction. With the other productions put in, such a tree is a production again (`Procedure.onList`).
-/

namespace DefTable
namespace Grammar

/-! ## Productions -/

/-- The productions that read lexemes, with what they are called with. -/
inductive Routine where
  | definitions | definition | parameters
  | pipe
  | binary (least : Nat)
  | binaryRest (least : Nat) (left : Query)
  | operand | alternatives
  | term | primary | arguments | suffixes | bracket
  | objectEntries | objectEntry | optionalValue | objectValue
  | pattern | patternItems | patternEntries | patternEntry
  | branches | elseBranch | extraction

/-- What a production yields. -/
@[reducible] def Routine.Result : Routine → Type
  | .definitions => List Definition
  | .definition => Definition
  | .parameters => List String
  | .pipe | .binary _ | .binaryRest _ _ | .operand | .objectValue => Query
  | .alternatives | .patternItems => List Pattern
  | .term | .primary => Term
  | .arguments => List Query
  | .suffixes => List Suffix
  | .bracket => Option Index
  | .objectEntries => List (Node .entry)
  | .objectEntry => Node .entry
  | .optionalValue | .elseBranch | .extraction => Option Query
  | .pattern => Pattern
  | .patternEntries => List (Node .patternEntry)
  | .patternEntry => Node .patternEntry
  | .branches => List (Node .branch)

/-- Definitions up to the end of the source, and this end. -/
def definitionsWithEnd : Nat → Lexemes → Parsed (List Definition × Lexemes)
  | 0, _ => .error .exhausted
  | n + 1, ls =>
    match peek ls with
    | .eof => .ok ([], ls)
    | .keyword .define => do
      let (d, ls) ← definition n ls
      let (ds, ls) ← definitionsWithEnd n ls
      return (d :: ds, ls)
    | .keyword .import => .error (.fault ⟨.moduleDirective, offset ls⟩)
    | .keyword .include => .error (.fault ⟨.moduleDirective, offset ls⟩)
    | _ => .error (unexpected ls .definition)

theorem definitions_eq : ∀ (n : Nat) (ls : Lexemes), definitions n ls = (definitionsWithEnd n ls).map Prod.fst
  | 0, _ => rfl
  | n + 1, ls => by
    rw [definitions, definitionsWithEnd]
    generalize peek ls = t
    cases t with
    | keyword word =>
      cases word with
      | define =>
        cases definition n ls with
        | error e => rfl
        | ok r =>
          show (definitions n r.2 >>= _) = Except.map _ (definitionsWithEnd n r.2 >>= _)
          rw [definitions_eq n r.2]
          cases definitionsWithEnd n r.2 <;> rfl
      | _ => rfl
    | _ => rfl

/-- The productions with a number of steps. -/
def run (n : Nat) : (c : Routine) → Lexemes → Parsed (c.Result × Lexemes)
  | .definitions, ls => definitionsWithEnd n ls
  | .definition, ls => definition n ls
  | .parameters, ls => parameters ls
  | .pipe, ls => pipe n ls
  | .binary least, ls => binary n least ls
  | .binaryRest least left, ls => binaryRest n least left ls
  | .operand, ls => operand n ls
  | .alternatives, ls => alternatives n ls
  | .term, ls => term n ls
  | .primary, ls => primary n ls
  | .arguments, ls => arguments n ls
  | .suffixes, ls => suffixes n ls
  | .bracket, ls => bracket n ls
  | .objectEntries, ls => objectEntries n ls
  | .objectEntry, ls => objectEntry n ls
  | .optionalValue, ls => optionalValue n ls
  | .objectValue, ls => objectValue n ls
  | .pattern, ls => pattern n ls
  | .patternItems, ls => patternItems n ls
  | .patternEntries, ls => patternEntries n ls
  | .patternEntry, ls => patternEntry n ls
  | .branches, ls => branches n ls
  | .elseBranch, ls => elseBranch n ls
  | .extraction, ls => extraction n ls

/-! ## Procedures -/

/-- What a production does. -/
inductive Procedure (α : Type) where
  | give (a : α)
  /-- A fault at the next token. -/
  | refuse (cause : Token → SyntaxError.Cause)
  | look (k : Token → Procedure α)
  /-- Looks at the token behind the next one. -/
  | lookBehind (k : Token → Procedure α)
  /-- Takes a token, if it comes next. -/
  | skip (t : Token) (ht : t ≠ .eof) (k other : Procedure α)
  /-- Takes a string, if one comes next, with what its parts make. -/
  | quoted (k : Node .text → Procedure α) (other : Procedure α)
  /-- Leaves the operator `//` of a sign `?//`, if one comes next. -/
  | part (k other : Procedure α)
  | call (c : Routine) (k : c.Result → Procedure α)

namespace Procedure

variable {α β : Type}

def bind : Procedure α → (α → Procedure β) → Procedure β
  | give a, f => f a
  | refuse cause, _ => refuse cause
  | look k, f => look fun t => (k t).bind f
  | lookBehind k, f => lookBehind fun t => (k t).bind f
  | skip t ht k other, f => skip t ht (k.bind f) (other.bind f)
  | quoted k other, f => quoted (fun text => (k text).bind f) (other.bind f)
  | part k other, f => part (k.bind f) (other.bind f)
  | call c k, f => call c fun r => (k r).bind f

instance : Monad Procedure where
  pure := give
  bind := bind

/-! ### Steps -/

/-- The next token. -/
def next : Procedure Token :=
  look give

def second : Procedure Token :=
  lookBehind give

/-- Something else would have to come next. -/
def fail (wanted : Expectation) : Procedure α :=
  refuse (.unexpected · wanted)

/-- A token that has to come next. -/
def take (t : Token) (ht : t ≠ .eof := by nofun) : Procedure Unit :=
  skip t ht (give ()) (fail (.token t))

/-- Whether a token comes next, which is taken then. -/
def eat (t : Token) (ht : t ≠ .eof := by nofun) : Procedure Bool :=
  skip t ht (give true) (give false)

/-- A string that has to come next. -/
def text : Procedure (Node .text) :=
  quoted give (fail .string)

/-- What a production yields. -/
def enter (c : Routine) : Procedure c.Result :=
  call c give

/-! ### Productions again -/

/-- What a procedure does to lexemes, with productions for its calls and for strings. -/
def onList (call : (c : Routine) → Lexemes → Parsed (c.Result × Lexemes))
    (text : List StringPart → Parsed (Node .text)) : Procedure α → Lexemes → Parsed (α × Lexemes)
  | .give a, ls => .ok (a, ls)
  | .refuse cause, ls => .error (.fault ⟨cause (peek ls), offset ls⟩)
  | .look k, ls => (k (peek ls)).onList call text ls
  | .lookBehind k, ls => (k (peek ls.tail)).onList call text ls
  | .skip t _ k other, ls => if peek ls = t then k.onList call text ls.tail else other.onList call text ls
  | .quoted k other, ls =>
    match peek ls with
    | .str parts => do
      let x ← text parts
      (k x).onList call text ls.tail
    | _ => other.onList call text ls
  | .part k other, ls =>
    if peek ls = .alternative then k.onList call text (⟨.op .alt, offset ls⟩ :: ls.tail) else other.onList call text ls
  | .call c k, ls => do
    let (r, ls) ← call c ls
    (k r).onList call text ls

variable {call : (c : Routine) → Lexemes → Parsed (c.Result × Lexemes)}
  {text : List StringPart → Parsed (Node .text)} {ls : Lexemes}

theorem onList_pure (a : α) : (pure a : Procedure α).onList call text ls = .ok (a, ls) := rfl

theorem onList_bind (p : Procedure α) (f : α → Procedure β) :
    (p >>= f).onList call text ls = p.onList call text ls >>= fun r => (f r.1).onList call text r.2 := by
  show (p.bind f).onList call text ls = _
  induction p generalizing ls with
  | give a => rfl
  | refuse cause => rfl
  | look k ih => exact ih (peek ls)
  | lookBehind k ih => exact ih (peek ls.tail)
  | skip t ht k other ihk iho =>
    rw [bind, onList, onList]
    split
    · exact ihk
    · exact iho
  | quoted k other ihk iho =>
    rw [bind, onList, onList]
    split
    · next parts hparts =>
      cases text parts with
      | error e => rfl
      | ok x => exact ihk x
    · exact iho
  | part k other ihk iho =>
    rw [bind, onList, onList]
    split
    · exact ihk
    · exact iho
  | call c k ih =>
    rw [bind, onList, onList]
    cases call c ls with
    | error e => rfl
    | ok r => exact ih r.1

theorem onList_next (f : Token → Procedure α) : (next >>= f).onList call text ls = (f (peek ls)).onList call text ls := rfl

theorem onList_second (f : Token → Procedure α) :
    (second >>= f).onList call text ls = (f (peek ls.tail)).onList call text ls := rfl

theorem onList_enter (c : Routine) (f : c.Result → Procedure α) :
    (enter c >>= f).onList call text ls = call c ls >>= fun r => (f r.1).onList call text r.2 := rfl

theorem onList_enter_last (c : Routine) : (enter c).onList call text ls = call c ls := by
  show (call c ls >>= fun r => .ok (r.1, r.2)) = call c ls
  cases call c ls <;> rfl

theorem onList_take {t : Token} {ht : t ≠ .eof} (f : Unit → Procedure α) :
    (take t ht >>= f).onList call text ls = expect t ls >>= fun ls => (f ()).onList call text ls := by
  show (if peek ls = t then _ else _) = _
  cases ls with
  | nil => rw [if_neg (show ¬ peek [] = t from ht.symm)]; rfl
  | cons l ls =>
    rw [expect]
    by_cases h : l.token = t
    · rw [if_pos h, if_pos (show peek (l :: ls) = t from h)]
      rfl
    · rw [if_neg h, if_neg (show ¬ peek (l :: ls) = t from h)]
      rfl

theorem onList_eat {t : Token} {ht : t ≠ .eof} (f : Bool → Procedure α) :
    (eat t ht >>= f).onList call text ls =
      if peek ls = t then (f true).onList call text ls.tail else (f false).onList call text ls := rfl

/-- A token that is known to come next. -/
theorem onList_taken {t : Token} {ht : t ≠ .eof} {o : Nat} (f : Unit → Procedure α) :
    (take t ht >>= f).onList call text (⟨t, o⟩ :: ls) = (f ()).onList call text ls := by
  rw [onList_take, expect, if_pos rfl]
  rfl

theorem onList_text {parts : List StringPart} {o : Nat} (f : Node .text → Procedure α) :
    (Procedure.text >>= f).onList call text (⟨.str parts, o⟩ :: ls) =
      text parts >>= fun x => (f x).onList call text ls := rfl

end Procedure
end Grammar
end DefTable
