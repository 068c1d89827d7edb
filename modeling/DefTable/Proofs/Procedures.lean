import DefTable.Proofs.CallTrees

/-!
# What every production does

The procedure of every production (`Routine.procedure`). With one step more than the productions it calls, a
production does what its procedure does (`run_succ`).
-/

namespace DefTable
namespace Grammar

open Procedure

/-! ## Procedures -/

def parameterProcedure : Procedure String := do
  match ← next with
  | .ident name => do take (.ident name); return name
  | .variable name => do take (.variable name); return name
  | _ => fail .parameterName

def nameProcedure : Procedure String := do
  match ← next with
  | .ident name => do take (.ident name); return name
  | .keyword k => do take (.keyword k); return k.text
  | _ => fail .functionName

def parametersProcedure : Procedure (List String) := do
  if ← eat .leftParen then do
    let names ← enter .parameters
    take .rightParen
    return names
  else return []

def variableProcedure : Procedure String := do
  match ← next with
  | .variable name => do take (.variable name); return name
  | _ => fail .variable

theorem ne_eof_of_operator? {t : Token} {op : Operator} (h : operator? [⟨t, 0⟩] = some op) : t ≠ .eof := by
  rintro rfl
  cases h

/-- An operator of at least a precedence, if one comes next. -/
def operatorProcedure (least : Nat) : Procedure (Option Operator) := do
  let t ← next
  match h : operator? [⟨t, 0⟩] with
  | none => return none
  | some op =>
    if op.precedence < least then return none
    else do
      take t (ne_eof_of_operator? h)
      return some op

/-- What an operator takes on its right. -/
def rightProcedure (op : Operator) : Procedure Query :=
  if op = .pipe then enter .pipe
  else if op.associativity = .right then enter (.binary op.precedence)
  else enter (.binary (op.precedence + 1))

/-- A member of a list, and the further ones behind a separator. -/
def listProcedure {α : Type} (separator : Token) (h : separator ≠ .eof) (first : Procedure α)
    (further : Procedure (List α)) : Procedure (List α) := do
  let x ← first
  if ← eat separator h then do
    let xs ← further
    return x :: xs
  else return [x]

def optionalProcedure {α : Type} (lead : Token) (h : lead ≠ .eof) (item : Procedure α) : Procedure (Option α) := do
  if ← eat lead h then do
    let x ← item
    return some x
  else return none

/-- What a dot starts. -/
def dotProcedure : Procedure Term := do
  take .dot
  match ← next with
  | .str _ => do
    let text ← text
    return Term.ofIndex (Index.ofText text)
  | .leftBracket => do
    take .leftBracket
    match ← enter .bracket with
    | some i => return Term.ofIndex i
    | none => return Term.withSuffixes [Suffix.iterate] (Term.ofKind .identity)
  | _ => return Term.ofKind .identity

def formatProcedure (name : String) : Procedure Term := do
  take (.format name)
  match ← next with
  | .str _ => do
    let text ← text
    return Term.ofFormat name (some text)
  | _ => return Term.ofFormat name none

def callProcedure (name : String) : Procedure Term := do
  take (.ident name)
  if ← eat .leftParen then do
    let args ← enter .arguments
    take .rightParen
    return Term.ofCall name args
  else return bareName name

def arrayProcedure : Procedure Term := do
  take .leftBracket
  if ← eat .rightBracket then return Term.ofArray none
  else do
    let q ← enter .pipe
    take .rightBracket
    return Term.ofArray (some q)

def conditionalProcedure : Procedure Term := do
  take (.keyword .if)
  let cond ← enter .pipe
  take (.keyword .then)
  let thenBranch ← enter .pipe
  let elifs ← enter .branches
  let elseBranch ← enter .elseBranch
  take (.keyword .end)
  return Term.ofConditional (.conditional cond thenBranch (.ofList elifs) (.ofOption elseBranch))

def attemptProcedure : Procedure Term := do
  take (.keyword .try)
  let body ← enter .term
  if ← eat (.keyword .catch) then do
    let handler ← enter .term
    return Term.ofAttempt (.attempt (Query.ofTerm body) (.present (Query.ofTerm handler)))
  else return Term.ofAttempt (.attempt (Query.ofTerm body) .absent)

def reduceProcedure : Procedure Term := do
  take (.keyword .reduce)
  let source ← enter .term
  take (.keyword .as)
  let p ← enter .pattern
  take .leftParen
  let start ← enter .pipe
  take .semicolon
  let update ← enter .pipe
  take .rightParen
  return Term.ofReduce (.reduce source p start update)

def foreachProcedure : Procedure Term := do
  take (.keyword .foreach)
  let source ← enter .term
  take (.keyword .as)
  let p ← enter .pattern
  take .leftParen
  let start ← enter .pipe
  take .semicolon
  let update ← enter .pipe
  let extract ← enter .extraction
  take .rightParen
  return Term.ofForeach (.foreach source p start update (.ofOption extract))

def primaryProcedure : Procedure Term := do
  match ← next with
  | .dot => dotProcedure
  | .dotDot => do take .dotDot; return Term.ofKind .recurse
  | .field name => do take (.field name); return Term.ofIndex (Index.ofName name)
  | .number digits => do take (.number digits); return Term.ofNumber digits
  | .str _ => do
    let text ← text
    return Term.ofText text
  | .format name => formatProcedure name
  | .variable name => do take (.variable name); return Term.ofCall name []
  | .ident name => callProcedure name
  | .leftParen => do
    take .leftParen
    let q ← enter .pipe
    take .rightParen
    return Term.ofQuery q
  | .leftBracket => arrayProcedure
  | .leftBrace => do
    take .leftBrace
    let entries ← enter .objectEntries
    return Term.ofObject entries
  | .op .sub => do
    take (.op .sub)
    let t ← enter .term
    return Term.ofUnary .sub t
  | .op .add => do
    take (.op .add)
    let t ← enter .term
    return Term.ofUnary .add t
  | .keyword .if => conditionalProcedure
  | .keyword .try => attemptProcedure
  | .keyword .reduce => reduceProcedure
  | .keyword .foreach => foreachProcedure
  | .keyword .label => do
    take (.keyword .label)
    let name ← variableProcedure
    take (.op .pipe)
    let body ← enter .pipe
    return Term.ofLabel name body
  | .keyword .break => do
    take (.keyword .break)
    let name ← variableProcedure
    return Term.ofBreak name
  | _ => fail .term

/-- A suffix, and those behind it. -/
def suffixProcedure (suffix : Procedure Suffix) : Procedure (List Suffix) := do
  let s ← suffix
  let ss ← enter .suffixes
  return s :: ss

def bracketSuffixProcedure : Procedure Suffix := do
  match ← enter .bracket with
  | some i => return Suffix.ofIndex i
  | none => return Suffix.iterate

def suffixesProcedure : Procedure (List Suffix) := do
  match ← next with
  | .field name => suffixProcedure do take (.field name); return Suffix.ofIndex (Index.ofName name)
  | .dot => do
    match ← second with
    | .str _ => suffixProcedure do take .dot; let text ← text; return Suffix.ofIndex (Index.ofText text)
    | .leftBracket => suffixProcedure do take .dot; take .leftBracket; bracketSuffixProcedure
    | _ => return []
  | .leftBracket => suffixProcedure do take .leftBracket; bracketSuffixProcedure
  | .question => suffixProcedure do take .question; return Suffix.optional
  | _ => .part (suffixProcedure (return Suffix.optional)) (return [])

def bracketProcedure : Procedure (Option Index) := do
  if ← eat .rightBracket then return none
  else if ← eat .colon then do
    let stop ← enter .pipe
    take .rightBracket
    return some (.index "" .absent .absent (.present stop) true)
  else do
    let start ← enter .pipe
    if ← eat .colon then do
      if ← eat .rightBracket then return some (.index "" .absent (.present start) .absent true)
      else do
        let stop ← enter .pipe
        take .rightBracket
        return some (.index "" .absent (.present start) (.present stop) true)
    else do
      take .rightBracket
      return some (.index "" .absent (.present start) .absent false)

def entriesProcedure : Procedure (List (Node .entry)) := do
  if ← eat .rightBrace then return []
  else do
    let e ← enter .objectEntry
    if ← eat (.op .comma) then do
      let es ← enter .objectEntries
      return e :: es
    else do
      take .rightBrace
      return [e]

/-- The value of an entry whose key is a word. -/
def wordEntryProcedure (key : String) : Procedure (Node .entry) := do
  let value ← enter .optionalValue
  return .entry key .absent .absent (.ofOption value)

def entryProcedure : Procedure (Node .entry) := do
  match ← next with
  | .variable name => do take (.variable name); return .entry name .absent .absent .absent
  | .str _ => do
    let text ← text
    let value ← enter .optionalValue
    return .entry "" (.present text) .absent (.ofOption value)
  | .leftParen => do
    take .leftParen
    let key ← enter .pipe
    take .rightParen
    take .colon
    let value ← enter .objectValue
    return .entry "" .absent (.present key) (.present value)
  | .ident name => do take (.ident name); wordEntryProcedure name
  | .keyword k => do take (.keyword k); wordEntryProcedure k.text
  | _ => fail .objectKey

def patternProcedure : Procedure Pattern := do
  match ← next with
  | .variable name => do take (.variable name); return Pattern.ofVariable name
  | .leftBracket => do
    take .leftBracket
    let items ← enter .patternItems
    take .rightBracket
    return Pattern.ofArray items
  | .leftBrace => do
    take .leftBrace
    let entries ← enter .patternEntries
    take .rightBrace
    return Pattern.ofObject entries
  | _ => fail .pattern

/-- The pattern of an entry whose key is a word. -/
def wordPatternProcedure (key : String) : Procedure (Node .patternEntry) := do
  take .colon
  let p ← enter .pattern
  return .patternEntry key .absent .absent (.present p)

def patternEntryProcedure : Procedure (Node .patternEntry) := do
  match ← next with
  | .variable name => do
    take (.variable name)
    let p ← optionalProcedure .colon (by nofun) (enter .pattern)
    return .patternEntry name .absent .absent (.ofOption p)
  | .str _ => do
    let text ← text
    take .colon
    let p ← enter .pattern
    return .patternEntry "" (.present text) .absent (.present p)
  | .leftParen => do
    take .leftParen
    let key ← enter .pipe
    take .rightParen
    take .colon
    let p ← enter .pattern
    return .patternEntry "" .absent (.present key) (.present p)
  | .ident name => do take (.ident name); wordPatternProcedure name
  | .keyword k => do take (.keyword k); wordPatternProcedure k.text
  | _ => fail .patternKey

/-- **What a production does**, but for what it calls. -/
def Routine.procedure : (c : Routine) → Procedure c.Result
  | .definitions => do
    match ← next with
    | .eof => return []
    | .keyword .define => do
      let d ← enter .definition
      let ds ← enter .definitions
      return d :: ds
    | .keyword .import | .keyword .include => .refuse fun _ => .moduleDirective
    | _ => fail .definition
  | .definition => do
    take (.keyword .define)
    let name ← nameProcedure
    let params ← parametersProcedure
    take .colon
    let body ← enter .pipe
    take .semicolon
    return .definition name params body
  | .parameters => listProcedure .semicolon (by nofun) parameterProcedure (enter .parameters)
  | .pipe => do
    if (← next) = .keyword .define then do
      let d ← enter .definition
      let q ← enter .pipe
      return Query.withDefs (.cons d .nil) q
    else enter (.binary 1)
  | .binary least => do
    let left ← enter .operand
    enter (.binaryRest least left)
  | .binaryRest least left => do
    match ← operatorProcedure least with
    | none => return left
    | some op => do
      let right ← rightProcedure op
      let t ← next
      if op.associativity = .none ∧ (operator? [⟨t, 0⟩]).map Operator.precedence = some op.precedence then
        fail .noChain
      else enter (.binaryRest least (Query.binary left op right))
  | .operand => do
    let t ← enter .term
    if ← eat (.keyword .as) then do
      let patterns ← enter .alternatives
      take (.op .pipe)
      let body ← enter .pipe
      return Query.ofTerm (Term.withSuffixes [Suffix.ofBinding patterns body] t)
    else return Query.ofTerm t
  | .alternatives => listProcedure .alternative (by nofun) (enter .pattern) (enter .alternatives)
  | .term => do
    let t ← enter .primary
    let ss ← enter .suffixes
    return Term.withSuffixes ss t
  | .primary => primaryProcedure
  | .arguments => listProcedure .semicolon (by nofun) (enter .pipe) (enter .arguments)
  | .suffixes => suffixesProcedure
  | .bracket => bracketProcedure
  | .objectEntries => entriesProcedure
  | .objectEntry => entryProcedure
  | .optionalValue => optionalProcedure .colon (by nofun) (enter .objectValue)
  | .objectValue => do
    let left ← enter .term
    if ← eat (.op .pipe) then do
      let right ← enter .objectValue
      return Query.binary (Query.ofTerm left) .pipe right
    else return Query.ofTerm left
  | .pattern => patternProcedure
  | .patternItems => listProcedure (.op .comma) (by nofun) (enter .pattern) (enter .patternItems)
  | .patternEntries => listProcedure (.op .comma) (by nofun) (enter .patternEntry) (enter .patternEntries)
  | .patternEntry => patternEntryProcedure
  | .branches => do
    if ← eat (.keyword .elif) then do
      let cond ← enter .pipe
      take (.keyword .then)
      let thenBranch ← enter .pipe
      let bs ← enter .branches
      return .branch cond thenBranch :: bs
    else return []
  | .elseBranch => optionalProcedure (.keyword .else) (by nofun) (enter .pipe)
  | .extraction => optionalProcedure .semicolon (by nofun) (enter .pipe)

/-! ## Productions -/

section
variable (n : Nat) (ls : Lexemes)

theorem enter_onList (c : Routine) : (enter c).onList (run n) (string n) = run n c :=
  funext fun _ => onList_enter_last c

theorem nameProcedure_onList {α : Type} (f : String → Procedure α) :
    (nameProcedure >>= f).onList (run n) (string n) ls =
      definitionName ls >>= fun r => (f r.1).onList (run n) (string n) r.2 := by
  rw [onList_bind]
  obtain - | ⟨⟨t, o⟩, ls⟩ := ls
  · rfl
  · cases t with
    | ident name => simp only [nameProcedure, onList_next, peek, onList_taken, onList_pure, definitionName, wordKey?]
    | keyword k => simp only [nameProcedure, onList_next, peek, onList_taken, onList_pure, definitionName, wordKey?]
    | _ => rfl

theorem listProcedure_onList {α : Type} {separator : Token} {h : separator ≠ .eof} {first : Procedure α}
    {further : Procedure (List α)} :
    (listProcedure separator h first further).onList (run n) (string n) ls =
      listed separator (first.onList (run n) (string n) ls) (further.onList (run n) (string n)) := by
  rw [listProcedure, onList_bind, listed]
  refine bind_congr (Prod.forall.2 fun x ls₁ => ?_)
  dsimp only
  rw [onList_eat]
  split
  · rw [if_pos rfl, onList_bind]
    rfl
  · rw [if_neg Bool.false_ne_true]
    rfl

theorem optionalProcedure_onList {α : Type} {lead : Token} {h : lead ≠ .eof} {item : Procedure α} :
    (optionalProcedure lead h item).onList (run n) (string n) ls =
      optionally lead (item.onList (run n) (string n)) ls := by
  rw [optionalProcedure, onList_eat, optionally]
  split
  · rw [if_pos rfl, onList_bind]
    rfl
  · rw [if_neg Bool.false_ne_true]
    rfl

theorem parametersProcedure_onList {α : Type} (f : List String → Procedure α) :
    (parametersProcedure >>= f).onList (run n) (string n) ls =
      parameterList ls >>= fun r => (f r.1).onList (run n) (string n) r.2 := by
  rw [onList_bind, parametersProcedure, onList_eat]
  split
  · next hparen =>
    obtain ⟨o, hls⟩ := eq_cons_of_peek (by simp) hparen
    rw [if_pos rfl, onList_enter, hls, parameterList, List.tail_cons]
    simp only [onList_take, onList_pure, run, bind_assoc, pure_bind]
    rfl
  · next hparen =>
    have hnone : parameterList ls = .ok ([], ls) := by
      unfold parameterList
      split
      · exact absurd rfl hparen
      · rfl
    rw [if_neg Bool.false_ne_true, hnone]
    rfl

theorem variableProcedure_onList {α : Type} (f : String → Procedure α) :
    (variableProcedure >>= f).onList (run n) (string n) ls =
      variableName ls >>= fun r => (f r.1).onList (run n) (string n) r.2 := by
  rw [onList_bind]
  obtain - | ⟨⟨t, o⟩, ls⟩ := ls
  · rfl
  · cases t with
    | «variable» name => simp only [variableProcedure, onList_next, peek, onList_taken, onList_pure, variableName]
    | _ => rfl

theorem operatorProcedure_onList {α : Type} (least : Nat) (f : Option Operator → Procedure α) :
    (operatorProcedure least >>= f).onList (run n) (string n) ls =
      match operator? ls with
      | none => (f none).onList (run n) (string n) ls
      | some op =>
        if op.precedence < least then (f none).onList (run n) (string n) ls
        else (f (some op)).onList (run n) (string n) ls.tail := by
  rw [onList_bind, operatorProcedure, onList_next]
  split
  · next hnone =>
    rw [show operator? ls = none from hnone]
    rfl
  · next op hop =>
    rw [show operator? ls = some op from hop]
    dsimp only
    split
    · rfl
    · obtain ⟨o, hls⟩ := eq_cons_of_peek (ne_eof_of_operator? hop) rfl
      have hexpect : expect (peek ls) ls = .ok ls.tail := by
        rw [hls]
        exact if_pos rfl
      rw [onList_take, hexpect]
      rfl

theorem rightProcedure_onList {α : Type} (op : Operator) (f : Query → Procedure α) :
    (rightProcedure op >>= f).onList (run n) (string n) ls =
      rightOperand n op ls >>= fun r => (f r.1).onList (run n) (string n) r.2 := by
  rw [onList_bind, rightProcedure, rightOperand]
  split
  · rw [onList_enter_last, run]
  · split
    · rw [onList_enter_last, run]
    · rw [onList_enter_last, run]

theorem primary_dot_succ (o : Nat) :
    primary (n + 1) (⟨.dot, o⟩ :: ls) = primaryProcedure.onList (run n) (string n) (⟨.dot, o⟩ :: ls) := by
  rw [primaryProcedure, onList_next, peek]
  dsimp only
  rw [dotProcedure, onList_taken, onList_next]
  obtain - | ⟨⟨u, o₁⟩, ls⟩ := ls
  · rfl
  cases u with
  | str parts =>
    rw [primary]
    rfl
  | leftBracket =>
    rw [primary, peek]
    dsimp only
    rw [onList_taken, onList_enter]
    refine bind_congr (Prod.forall.2 fun access ls₁ => ?_)
    cases access <;> rfl
  | _ => rfl

theorem primary_keyword_succ (word : Keyword) (o : Nat) :
    primary (n + 1) (⟨.keyword word, o⟩ :: ls) =
      primaryProcedure.onList (run n) (string n) (⟨.keyword word, o⟩ :: ls) := by
  rw [primaryProcedure, onList_next]
  cases word with
  | «if» =>
    rw [primary, peek]
    dsimp only
    rw [conditionalProcedure, onList_taken]
    simp only [onList_take, onList_enter .pipe, onList_enter .branches, onList_enter .elseBranch, onList_pure, run]
    rfl
  | «try» =>
    rw [primary, peek]
    dsimp only
    rw [attemptProcedure, onList_taken, onList_enter]
    refine bind_congr (Prod.forall.2 fun body ls₁ => ?_)
    dsimp only
    rw [onList_eat]
    split
    · rfl
    · next hnext => rw [if_neg (peek_ne (by simp) hnext)]; rfl
  | reduce =>
    rw [primary, peek]
    dsimp only
    rw [reduceProcedure, onList_taken]
    simp only [onList_take, onList_enter .term, onList_enter .pattern, onList_enter .pipe, onList_pure, run]
    rfl
  | «foreach» =>
    rw [primary, peek]
    dsimp only
    rw [foreachProcedure, onList_taken]
    simp only [onList_take, onList_enter .term, onList_enter .pattern, onList_enter .pipe, onList_enter .extraction,
      onList_pure, run]
    rfl
  | label =>
    rw [primary, peek]
    dsimp only
    rw [onList_taken, variableProcedure_onList]
    simp only [onList_take, onList_enter .pipe, onList_pure, run]
    rfl
  | «break» =>
    rw [primary, peek]
    dsimp only
    rw [onList_taken, variableProcedure_onList]
    rfl
  | _ => rfl

theorem primary_succ : primary (n + 1) ls = primaryProcedure.onList (run n) (string n) ls := by
  obtain - | ⟨⟨t, o⟩, ls⟩ := ls
  · rfl
  cases t with
  | dot => exact primary_dot_succ n ls o
  | format name =>
    rw [primaryProcedure, onList_next, peek]
    dsimp only
    rw [formatProcedure, onList_taken, onList_next]
    obtain - | ⟨⟨u, o₁⟩, ls⟩ := ls
    · rfl
    cases u <;> rfl
  | ident name =>
    rw [primaryProcedure, onList_next, peek]
    dsimp only
    rw [callProcedure, onList_taken, onList_eat]
    obtain - | ⟨⟨u, o₁⟩, ls⟩ := ls
    · rfl
    cases u with
    | leftParen =>
      rw [primary, peek, if_pos rfl, if_pos rfl, onList_enter]
      refine bind_congr (Prod.forall.2 fun args ls₁ => ?_)
      rw [onList_take]
      rfl
    | _ => rfl
  | field | number | «variable» =>
    rw [primaryProcedure, onList_next, peek]
    dsimp only
    rw [onList_taken]
    rfl
  | leftParen =>
    rw [primary, primaryProcedure, onList_next, peek]
    dsimp only
    rw [onList_taken, onList_enter]
    simp only [onList_take, onList_pure, run]
    rfl
  | leftBracket =>
    rw [primaryProcedure, onList_next, peek]
    dsimp only
    rw [arrayProcedure, onList_taken, onList_eat]
    by_cases hnext : peek ls = .rightBracket
    · obtain ⟨o₁, hls⟩ := eq_cons_of_peek (by simp) hnext
      rw [if_pos hnext, hls]
      rfl
    · rw [if_neg hnext, primary_array n o hnext, if_neg Bool.false_ne_true, onList_enter]
      simp only [onList_take, onList_pure, run]
      rfl
  | op operator => cases operator <;> rfl
  | keyword word => exact primary_keyword_succ n ls word o
  | _ => rfl

theorem suffixes_succ : suffixes (n + 1) ls = suffixesProcedure.onList (run n) (string n) ls := by
  obtain - | ⟨⟨t, o⟩, ls⟩ := ls
  · rfl
  rw [suffixesProcedure, onList_next]
  cases t with
  | field name =>
    rw [suffixes, peek]
    dsimp only
    rw [suffixProcedure, onList_bind, onList_taken]
    rfl
  | dot =>
    rw [peek]
    dsimp only
    rw [onList_second]
    obtain - | ⟨⟨u, o₁⟩, ls⟩ := ls
    · rfl
    cases u with
    | str parts =>
      rw [suffixes, List.tail_cons, peek]
      dsimp only
      rw [suffixProcedure, onList_bind, onList_taken, onList_text]
      cases string n parts <;> rfl
    | leftBracket =>
      rw [suffixes, List.tail_cons, peek]
      dsimp only
      rw [suffixProcedure, onList_bind]
      show _ = (take .dot >>= fun _ => take .leftBracket >>= fun _ => bracketSuffixProcedure).onList _ _ _ >>= _
      rw [onList_taken, onList_taken, bracketSuffixProcedure, onList_enter, run]
      cases bracket n ls with
      | error e => rfl
      | ok r =>
        obtain ⟨access, ls₁⟩ := r
        cases access <;> rfl
    | _ => rfl
  | leftBracket =>
    rw [suffixes, peek]
    dsimp only
    rw [suffixProcedure, onList_bind, onList_taken, bracketSuffixProcedure, onList_enter, run]
    cases bracket n ls with
    | error e => rfl
    | ok r =>
      obtain ⟨access, ls₁⟩ := r
      cases access <;> rfl
  | _ => rfl

theorem bracket_succ : bracket (n + 1) ls = bracketProcedure.onList (run n) (string n) ls := by
  rw [bracketProcedure, onList_eat]
  by_cases hclose : peek ls = .rightBracket
  · obtain ⟨o, hls⟩ := eq_cons_of_peek (by simp) hclose
    rw [if_pos hclose, hls]
    rfl
  rw [if_neg hclose, if_neg Bool.false_ne_true, onList_eat]
  by_cases hcolon : peek ls = .colon
  · obtain ⟨o, hls⟩ := eq_cons_of_peek (by simp) hcolon
    rw [if_pos hcolon, hls, if_pos rfl, List.tail_cons]
    simp only [onList_take, onList_enter .pipe, onList_pure, run]
    rfl
  rw [if_neg hcolon, if_neg Bool.false_ne_true, onList_enter, run, bracket]
  · refine bind_congr (Prod.forall.2 fun start ls₁ => ?_)
    dsimp only
    rw [onList_eat]
    split
    · rfl
    · next ls₂ hopen =>
      rw [if_pos (show peek (⟨.colon, _⟩ :: ls₂) = .colon from rfl), if_pos rfl, List.tail_cons, onList_eat,
        if_neg (peek_ne (by simp) fun o ls₃ heq => hopen o ls₃ (by rw [heq])), if_neg Bool.false_ne_true]
      simp only [onList_take, onList_enter .pipe, onList_pure, run]
      rfl
    · next hrest =>
      rw [if_neg (peek_ne (by simp) hrest), if_neg Bool.false_ne_true, onList_take]
      rfl
  · rintro o ls₁ rfl
    exact hclose rfl
  · rintro o ls₁ rfl
    exact hcolon rfl

theorem objectEntries_succ : objectEntries (n + 1) ls = entriesProcedure.onList (run n) (string n) ls := by
  rw [entriesProcedure, onList_eat]
  by_cases hclose : peek ls = .rightBrace
  · obtain ⟨o, hls⟩ := eq_cons_of_peek (by simp) hclose
    rw [if_pos hclose, hls]
    rfl
  rw [if_neg hclose, if_neg Bool.false_ne_true, onList_enter, run, objectEntries]
  · refine bind_congr (Prod.forall.2 fun e ls₁ => ?_)
    dsimp only
    rw [onList_eat]
    split
    · rfl
    · next hcomma =>
      rw [if_neg (peek_ne (by simp) hcomma), if_neg Bool.false_ne_true, onList_take]
      rfl
  · rintro o ls₁ rfl
    exact hclose rfl

theorem objectEntry_succ : objectEntry (n + 1) ls = entryProcedure.onList (run n) (string n) ls := by
  obtain - | ⟨⟨t, o⟩, ls⟩ := ls
  · rfl
  rw [entryProcedure, onList_next]
  cases t with
  | «variable» name =>
    rw [peek]
    dsimp only
    rw [onList_taken]
    rfl
  | ident name | keyword k =>
    rw [objectEntry_word n o rfl, peek]
    dsimp only
    rw [onList_taken]
    rfl
  | leftParen =>
    rw [objectEntry, peek]
    dsimp only
    rw [onList_taken]
    simp only [onList_take, onList_enter .pipe, onList_enter .objectValue, onList_pure, run]
    rfl
  | _ => rfl

theorem pattern_succ : pattern (n + 1) ls = patternProcedure.onList (run n) (string n) ls := by
  obtain - | ⟨⟨t, o⟩, ls⟩ := ls
  · rfl
  rw [patternProcedure, onList_next]
  cases t with
  | «variable» name =>
    rw [peek]
    dsimp only
    rw [onList_taken]
    rfl
  | leftBracket =>
    rw [pattern, peek]
    dsimp only
    rw [onList_taken]
    simp only [onList_take, onList_enter .patternItems, onList_pure, run]
    rfl
  | leftBrace =>
    rw [pattern, peek]
    dsimp only
    rw [onList_taken]
    simp only [onList_take, onList_enter .patternEntries, onList_pure, run]
    rfl
  | _ => rfl

theorem patternEntry_succ : patternEntry (n + 1) ls = patternEntryProcedure.onList (run n) (string n) ls := by
  obtain - | ⟨⟨t, o⟩, ls⟩ := ls
  · rfl
  rw [patternEntryProcedure, onList_next]
  cases t with
  | «variable» name =>
    rw [patternEntry_variable, peek]
    dsimp only
    rw [onList_taken, onList_bind, optionalProcedure_onList]
    rw [enter_onList]
    rfl
  | str parts =>
    rw [patternEntry, peek]
    dsimp only
    rw [onList_text]
    simp only [onList_take, onList_enter .pattern, onList_pure, run]
    rfl
  | ident name | keyword k =>
    rw [patternEntry_word n o rfl, peek]
    dsimp only
    rw [onList_taken, wordPatternProcedure]
    simp only [onList_take, onList_enter .pattern, onList_pure, run]
    rfl
  | leftParen =>
    rw [patternEntry, peek]
    dsimp only
    rw [onList_taken]
    simp only [onList_take, onList_enter .pipe, onList_enter .pattern, onList_pure, run]
    rfl
  | _ => rfl

theorem run_definitions : run (n + 1) .definitions ls = Routine.definitions.procedure.onList (run n) (string n) ls := by
  rw [Routine.procedure, onList_next, run, definitionsWithEnd]
  generalize hpeek : peek ls = t
  cases t with
  | keyword word =>
    cases word with
    | define =>
      dsimp only
      rw [onList_enter, run]
      rfl
    | _ => rfl
  | _ => rfl

theorem run_parameters : run (n + 1) .parameters ls = Routine.parameters.procedure.onList (run n) (string n) ls := by
  rw [Routine.procedure, listProcedure_onList, enter_onList, run]
  obtain - | ⟨⟨t, o⟩, ls⟩ := ls
  · rfl
  rw [parameters_cons]
  cases t with
  | ident name | «variable» name =>
    rw [parameterProcedure, onList_next, peek]
    dsimp only
    rw [onList_taken]
    rfl
  | _ => rfl

theorem run_binaryRest (least : Nat) (left : Query) :
    run (n + 1) (.binaryRest least left) ls =
      (Routine.binaryRest least left).procedure.onList (run n) (string n) ls := by
  rw [Routine.procedure, operatorProcedure_onList, run, binaryRest_succ]
  cases operator? ls with
  | none => rfl
  | some op =>
    dsimp only
    split
    · rfl
    · rw [rightProcedure_onList]
      refine bind_congr (Prod.forall.2 fun right ls₁ => ?_)
      dsimp only
      rw [onList_next, show operator? [⟨peek ls₁, 0⟩] = operator? ls₁ from rfl]
      by_cases hchain : op.associativity = .none ∧ (operator? ls₁).map Operator.precedence = some op.precedence
      · rw [if_pos hchain, if_pos hchain]
        rfl
      · rw [if_neg hchain, if_neg hchain, onList_enter_last, run]

theorem run_operand : run (n + 1) .operand ls = Routine.operand.procedure.onList (run n) (string n) ls := by
  rw [Routine.procedure, onList_enter, run, run, operand]
  refine bind_congr (Prod.forall.2 fun t ls₁ => ?_)
  dsimp only
  rw [onList_eat]
  split
  · rw [if_pos (show peek (⟨.keyword .as, _⟩ :: _) = .keyword .as from rfl), if_pos rfl, List.tail_cons]
    simp only [onList_take, onList_enter .alternatives, onList_enter .pipe, onList_pure, run]
    rfl
  · next hnext =>
    rw [if_neg (peek_ne (by simp) hnext), if_neg Bool.false_ne_true]
    rfl

theorem run_objectValue : run (n + 1) .objectValue ls = Routine.objectValue.procedure.onList (run n) (string n) ls := by
  rw [Routine.procedure, onList_enter, run, run, objectValue]
  refine bind_congr (Prod.forall.2 fun left ls₁ => ?_)
  dsimp only
  rw [onList_eat]
  split
  · rfl
  · next hnext =>
    rw [if_neg (peek_ne (by simp) hnext), if_neg Bool.false_ne_true]
    rfl

theorem run_branches : run (n + 1) .branches ls = Routine.branches.procedure.onList (run n) (string n) ls := by
  rw [Routine.procedure, onList_eat, run]
  by_cases hnext : peek ls = .keyword .elif
  · obtain ⟨o, hls⟩ := eq_cons_of_peek (by simp) hnext
    rw [if_pos hnext, hls, branches, if_pos rfl, List.tail_cons]
    simp only [onList_take, onList_enter .pipe, onList_enter .branches, onList_pure, run]
    rfl
  · rw [if_neg hnext, branches, if_neg Bool.false_ne_true]
    · rfl
    · rintro o ls₁ rfl
      exact hnext rfl

/-- **A production does what its procedure does**, with one step less for what it calls. -/
theorem run_succ (c : Routine) : run (n + 1) c ls = c.procedure.onList (run n) (string n) ls := by
  cases c with
  | primary => exact primary_succ n ls
  | suffixes => exact suffixes_succ n ls
  | bracket => exact bracket_succ n ls
  | objectEntries => exact objectEntries_succ n ls
  | objectEntry => exact objectEntry_succ n ls
  | pattern => exact pattern_succ n ls
  | patternEntry => exact patternEntry_succ n ls
  | definitions => exact run_definitions n ls
  | definition =>
    rw [Routine.procedure, run, definition, onList_take]
    simp only [nameProcedure_onList, parametersProcedure_onList, onList_take, onList_enter .pipe, onList_pure, run]
    rfl
  | parameters => exact run_parameters n ls
  | pipe =>
    rw [Routine.procedure, onList_next, run, pipe]
    split
    · rw [onList_enter, run]
      rfl
    · rw [onList_enter_last, run]
  | binary least =>
    rw [Routine.procedure, onList_enter, run, run, binary]
    refine bind_congr (Prod.forall.2 fun left ls₁ => ?_)
    rw [onList_enter_last, run]
  | binaryRest least left => exact run_binaryRest n ls least left
  | operand => exact run_operand n ls
  | alternatives =>
    rw [Routine.procedure, listProcedure_onList, enter_onList, enter_onList]
    exact alternatives_succ n ls
  | term =>
    rw [Routine.procedure, onList_enter, run, run, term]
    rfl
  | arguments =>
    rw [Routine.procedure, listProcedure_onList, enter_onList, enter_onList]
    exact arguments_succ n ls
  | optionalValue =>
    rw [Routine.procedure, optionalProcedure_onList, enter_onList]
    exact optionalValue_succ n ls
  | objectValue => exact run_objectValue n ls
  | patternItems =>
    rw [Routine.procedure, listProcedure_onList, enter_onList, enter_onList]
    exact patternItems_succ n ls
  | patternEntries =>
    rw [Routine.procedure, listProcedure_onList, enter_onList, enter_onList]
    exact patternEntries_succ n ls
  | branches => exact run_branches n ls
  | elseBranch =>
    rw [Routine.procedure, optionalProcedure_onList, enter_onList]
    exact elseBranch_succ n ls
  | extraction =>
    rw [Routine.procedure, optionalProcedure_onList, enter_onList]
    exact extraction_succ n ls

end

end Grammar
end DefTable
