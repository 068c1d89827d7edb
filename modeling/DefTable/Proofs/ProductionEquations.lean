import DefTable.Grammar

/-!
# What productions have in common

Several productions are the same but for a token and what stands around it: lists of items with a separator between
them (`Grammar.listed`) and items that a token introduces, if they are there (`Grammar.optionally`). What an operator
takes on its right is a production of its own (`Grammar.rightOperand`).
-/

namespace DefTable
namespace Grammar

/-! ## The next token -/

theorem peek_ne {t : Token} {ls : Lexemes} (ht : t ≠ .eof) (h : ∀ o ls₁, ls = ⟨t, o⟩ :: ls₁ → False) : peek ls ≠ t := by
  cases ls with
  | nil => exact ht.symm
  | cons l ls =>
    rintro rfl
    exact h l.offset ls rfl

theorem eq_cons_of_peek {t : Token} {ls : Lexemes} (ht : t ≠ .eof) (h : peek ls = t) : ∃ o, ls = ⟨t, o⟩ :: ls.tail := by
  cases ls with
  | nil => exact absurd h.symm ht
  | cons l ls =>
    subst h
    exact ⟨l.offset, rfl⟩

theorem parameters_cons (t : Token) (o : Nat) (ls : Lexemes) :
    parameters (⟨t, o⟩ :: ls) =
      match parameter? t with
      | none => .error (unexpected (⟨t, o⟩ :: ls) .parameterName)
      | some name =>
        if peek ls = .semicolon then (do
          let (names, ls) ← parameters ls.tail
          return (name :: names, ls))
        else .ok ([name], ls) := by
  rw [parameters]
  cases parameter? t with
  | none => rfl
  | some name =>
    dsimp only
    split
    · exact (if_pos rfl).symm
    · next hnext =>
      have hne : peek ls ≠ .semicolon := peek_ne (by simp) hnext
      exact (if_neg hne).symm

/-! ## Operators -/

/-- What an operator takes on its right. -/
def rightOperand (n : Nat) (op : Operator) (ls : Lexemes) : Parsed (Query × Lexemes) :=
  if op = .pipe then pipe n ls
  else if op.associativity = .right then binary n op.precedence ls
  else binary n (op.precedence + 1) ls

theorem binaryRest_succ (n p : Nat) (q : Query) (ls : Lexemes) :
    binaryRest (n + 1) p q ls =
      match operator? ls with
      | none => .ok (q, ls)
      | some op =>
        if op.precedence < p then .ok (q, ls)
        else (do
          let (right, ls) ← rightOperand n op ls.tail
          if op.associativity = .none ∧ (operator? ls).map Operator.precedence = some op.precedence then
            .error (unexpected ls .noChain)
          else binaryRest n p (Query.binary q op right) ls) := by
  rw [binaryRest]
  cases operator? ls with
  | none => rfl
  | some op =>
    dsimp only
    unfold rightOperand
    split
    · rfl
    · split
      · rfl
      · split <;> rfl

/-! ## Lists -/

/-- What a list with separators is, from the ways to read its first member and the further ones. -/
def listed {α : Type} (separator : Token) (first : Parsed (α × Lexemes))
    (further : Lexemes → Parsed (List α × Lexemes)) : Parsed (List α × Lexemes) := do
  let (x, ls) ← first
  if peek ls = separator then do
    let (xs, ls) ← further ls.tail
    return (x :: xs, ls)
  else return ([x], ls)

section
variable (n : Nat) (ls : Lexemes)

theorem arguments_succ : arguments (n + 1) ls = listed .semicolon (pipe n ls) (arguments n) := by
  rw [arguments, listed]
  refine bind_congr (Prod.forall.2 fun q ls₁ => ?_)
  dsimp only
  split
  · exact (if_pos rfl).symm
  · next hnext =>
    have hne : peek ls₁ ≠ .semicolon := peek_ne (by simp) hnext
    exact (if_neg hne).symm

theorem alternatives_succ : alternatives (n + 1) ls = listed .alternative (pattern n ls) (alternatives n) := by
  rw [alternatives, listed]
  refine bind_congr (Prod.forall.2 fun p ls₁ => ?_)
  dsimp only
  split
  · exact (if_pos rfl).symm
  · next hnext =>
    have hne : peek ls₁ ≠ .alternative := peek_ne (by simp) hnext
    exact (if_neg hne).symm

theorem patternItems_succ : patternItems (n + 1) ls = listed (.op .comma) (pattern n ls) (patternItems n) := by
  rw [patternItems, listed]
  refine bind_congr (Prod.forall.2 fun p ls₁ => ?_)
  dsimp only
  split
  · exact (if_pos rfl).symm
  · next hnext =>
    have hne : peek ls₁ ≠ .op .comma := peek_ne (by simp) hnext
    exact (if_neg hne).symm

theorem patternEntries_succ :
    patternEntries (n + 1) ls = listed (.op .comma) (patternEntry n ls) (patternEntries n) := by
  rw [patternEntries, listed]
  refine bind_congr (Prod.forall.2 fun e ls₁ => ?_)
  dsimp only
  split
  · exact (if_pos rfl).symm
  · next hnext =>
    have hne : peek ls₁ ≠ .op .comma := peek_ne (by simp) hnext
    exact (if_neg hne).symm

end

/-! ## What may be missing -/

/-- An item behind a token, if that token comes next. -/
def optionally {α : Type} (lead : Token) (item : Lexemes → Parsed (α × Lexemes)) (ls : Lexemes) :
    Parsed (Option α × Lexemes) :=
  if peek ls = lead then do
    let (x, ls) ← item ls.tail
    return (some x, ls)
  else .ok (none, ls)

section
variable (n : Nat) (ls : Lexemes)

theorem optionalValue_succ : optionalValue (n + 1) ls = optionally .colon (objectValue n) ls := by
  unfold optionalValue optionally
  split
  · exact (if_pos rfl).symm
  · next hnext =>
    have hne : peek ls ≠ .colon := peek_ne (by simp) hnext
    exact (if_neg hne).symm

theorem elseBranch_succ : elseBranch (n + 1) ls = optionally (.keyword .else) (pipe n) ls := by
  unfold elseBranch optionally
  split
  · exact (if_pos rfl).symm
  · next hnext =>
    have hne : peek ls ≠ .keyword .else := peek_ne (by simp) hnext
    exact (if_neg hne).symm

theorem extraction_succ : extraction (n + 1) ls = optionally .semicolon (pipe n) ls := by
  unfold extraction optionally
  split
  · exact (if_pos rfl).symm
  · next hnext =>
    have hne : peek ls ≠ .semicolon := peek_ne (by simp) hnext
    exact (if_neg hne).symm

end

/-! ## Names, brackets and strings -/

theorem primary_name (n : Nat) (name : String) (o : Nat) {ls : Lexemes} (hnext : peek ls ≠ .leftParen) :
    primary (n + 1) (⟨.ident name, o⟩ :: ls) = .ok (bareName name, ls) := by
  rw [primary]
  rintro o₁ ls₁ rfl
  exact hnext rfl

theorem primary_array (n o : Nat) {ls : Lexemes} (hnext : peek ls ≠ .rightBracket) :
    primary (n + 1) (⟨.leftBracket, o⟩ :: ls) = (do
      let (q, ls) ← pipe n ls
      let ls ← expect .rightBracket ls
      return (Term.ofArray (some q), ls)) := by
  rw [primary]
  rintro o₁ ls₁ rfl
  exact hnext rfl

theorem patternEntry_variable (n : Nat) (name : String) (o : Nat) (ls : Lexemes) :
    patternEntry (n + 1) (⟨.variable name, o⟩ :: ls) = (do
      let (p, ls) ← optionally .colon (pattern n) ls
      return (.patternEntry name .absent .absent (.ofOption p), ls)) := by
  unfold optionally
  by_cases hpeek : peek ls = .colon
  · have heof : Token.colon ≠ .eof := by simp
    obtain ⟨o₁, hls⟩ := eq_cons_of_peek heof hpeek
    generalize ls.tail = rest at hls
    subst hls
    rw [if_pos hpeek, patternEntry]
    cases pattern n rest <;> rfl
  · rw [if_neg hpeek, patternEntry]
    · rfl
    · rintro o₁ ls₁ rfl
      exact hpeek rfl

theorem string_queries (n : Nat) {parts : List StringPart} (h : ∀ s, parts ≠ [.literal s]) :
    string (n + 1) parts = (do
      let qs ← fragments n parts
      return .text "" (.ofList qs)) := by
  rw [string]
  exact h

/-! ## Words in front -/

theorem objectEntry_word (n o : Nat) {t : Token} {key : String} (h : wordKey? t = some key) (ls : Lexemes) :
    objectEntry (n + 1) (⟨t, o⟩ :: ls) = (do
      let (value, ls) ← optionalValue n ls
      return (.entry key .absent .absent (.ofOption value), ls)) := by
  cases t <;> cases h <;> rfl

theorem patternEntry_word (n o : Nat) {t : Token} {key : String} (h : wordKey? t = some key) (ls : Lexemes) :
    patternEntry (n + 1) (⟨t, o⟩ :: ls) = (do
      let ls ← expect .colon ls
      let (p, ls) ← pattern n ls
      return (.patternEntry key .absent .absent (.present p), ls)) := by
  cases t <;> cases h <;> rfl

theorem definitions_define (n : Nat) {ls : Lexemes} (h : peek ls = .keyword .define) :
    definitions (n + 1) ls = (do
      let (d, ls) ← definition n ls
      let ds ← definitions n ls
      return d :: ds) := by
  rw [definitions, h]

end Grammar
end DefTable
