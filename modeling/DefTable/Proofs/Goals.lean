import Mathlib.Logic.Relation
import DefTable.Proofs.Derivations

/-!
# What is still to be read

A run of the parser, told without its calls: what is still to be read lies on a stack (`Grammar.Goal`), and the next
token says what becomes of the uppermost goal (`Goal.move`). One token is enough for that, but for a dot behind a term,
which starts a suffix only in front of a string or a bracket. A goal is refused at the token where the parser reports
its fault.

What a run does with the goals on top does not depend on those below (`Reaches.above`), and a run that empties the stack
is done with the upper goals before it starts with the lower ones (`Reaches.part`).
-/

namespace DefTable

/-- The signs and words that have to come next somewhere. -/
def Token.isMark : Token → Bool
  | .leftParen | .rightParen | .rightBracket | .rightBrace | .colon | .semicolon | .op .pipe => true
  | .keyword .as | .keyword .then | .keyword .end => true
  | _ => false

namespace Grammar

/-! ## Goals -/

/-- Items that may be repeated, with a token between them. -/
inductive Repetition where
  | parameters | arguments | alternatives | values | patterns | patternEntries
deriving DecidableEq

def Repetition.separator : Repetition → Token
  | .parameters | .arguments => .semicolon
  | .alternatives => .alternative
  | .values => .op .pipe
  | .patterns | .patternEntries => .op .comma

/-- What may be there behind a token of its own, or not at all. -/
inductive Supplement where
  | handler | otherwise | extraction | value | pattern
deriving DecidableEq

def Supplement.lead : Supplement → Token
  | .handler => .keyword .catch
  | .otherwise => .keyword .else
  | .extraction => .semicolon
  | .value | .pattern => .colon

/-- What is still to be read. -/
inductive Goal where
  | token (t : Token) (ht : t.isMark = true)
  | variable
  /-- A definition behind its reserved word. -/
  | name
  | parameterList
  | parameter
  | pipe
  | operand
  /-- What follows a left operand. -/
  | rest (least : Nat)
  /-- No operator that would chain with this one. -/
  | unchained (op : Operator)
  /-- What follows a term: the binding of its results, if it is one. -/
  | binding
  | term
  | primary
  | suffixes
  /-- What may follow a dot, a format and a name to make one term with it. -/
  | dotted | quotation | call
  /-- What follows a bracket that starts a term, and one that starts a suffix. -/
  | array | bracket
  /-- What follows the first query of a bracket. -/
  | range
  | entries
  | entriesRest
  | value
  | pattern
  | patternEntry
  | branches
  | more (r : Repetition)
  | after (s : Supplement)
deriving DecidableEq

def Repetition.item : Repetition → Goal
  | .parameters => .parameter
  | .arguments => .pipe
  | .alternatives | .patterns => .pattern
  | .values => .term
  | .patternEntries => .patternEntry

def Supplement.item : Supplement → Goal
  | .handler => .term
  | .otherwise | .extraction => .pipe
  | .value => .value
  | .pattern => .pattern

namespace Goal

abbrev sign (t : Token) (ht : t.isMark = true := by rfl) : Goal := .token t ht

abbrev word (k : Keyword) (hk : (Token.keyword k).isMark = true := by rfl) : Goal := .token (.keyword k) hk

/-- What an operator takes on its right. -/
def operands (op : Operator) : List Goal :=
  if op = .pipe then [.pipe] else [.operand, .rest (rightLeast op)]

end Goal

/-! ## Moves -/

/-- What becomes of a goal: it is refused, or other goals take its place, with or without the next token. -/
inductive Move where
  | refuse
  | pass (gs : List Goal)
  | take (gs : List Goal)
  | takeTwo (gs : List Goal)
  /-- The sign `?//` is a question mark for the goal, and the operator `//` is left of it. -/
  | part

namespace Goal

/-- What a term begins with, and what it needs then. -/
def openTerm : Token → Move
  | .dot => .take [.dotted]
  | .dotDot | .field _ | .number _ | .str _ | .variable _ => .take []
  | .format _ => .take [.quotation]
  | .ident _ => .take [.call]
  | .leftParen => .take [.pipe, .sign .rightParen]
  | .leftBracket => .take [.array]
  | .leftBrace => .take [.entries]
  | .op .sub | .op .add => .take [.term]
  | .keyword .if => .take [.pipe, .word .then, .pipe, .branches, .after .otherwise, .word .end]
  | .keyword .try => .take [.term, .after .handler]
  | .keyword .reduce =>
    .take [.term, .word .as, .pattern, .sign .leftParen, .pipe, .sign .semicolon, .pipe, .sign .rightParen]
  | .keyword .foreach =>
    .take [.term, .word .as, .pattern, .sign .leftParen, .pipe, .sign .semicolon, .pipe, .after .extraction,
      .sign .rightParen]
  | .keyword .label => .take [.variable, .sign (.op .pipe), .pipe]
  | .keyword .break => .take [.variable]
  | _ => .refuse

/-- The key of an entry, and what the entry needs then. -/
def openEntry : Token → Move
  | .rightBrace => .take []
  | .variable _ => .take [.entriesRest]
  | .str _ => .take [.after .value, .entriesRest]
  | .leftParen => .take [.pipe, .sign .rightParen, .sign .colon, .value, .entriesRest]
  | .ident _ | .keyword _ => .take [.after .value, .entriesRest]
  | _ => .refuse

/-- The key of an entry of a pattern, and what the entry needs then. -/
def openPatternEntry : Token → Move
  | .variable _ => .take [.after .pattern]
  | .str _ => .take [.sign .colon, .pattern]
  | .leftParen => .take [.pipe, .sign .rightParen, .sign .colon, .pattern]
  | .ident _ | .keyword _ => .take [.sign .colon, .pattern]
  | _ => .refuse

/-- How operands go on. -/
def goOn (least : Nat) (t : Token) : Move :=
  match operator? [⟨t, 0⟩] with
  | none => .pass []
  | some op => if op.precedence < least then .pass [] else .take (operands op ++ [.unchained op, .rest least])

theorem goOn_none {t : Token} (h : operator? [⟨t, 0⟩] = none) (least : Nat) : goOn least t = .pass [] := by
  rw [goOn, h]

theorem goOn_some {t : Token} {op : Operator} (h : operator? [⟨t, 0⟩] = some op) (least : Nat) :
    goOn least t = if op.precedence < least then .pass [] else .take (operands op ++ [.unchained op, .rest least]) := by
  rw [goOn, h]

/-- A suffix, if the next two tokens start one. -/
def openSuffix : Token → Token → Move
  | .field _, _ | .question, _ => .take [.suffixes]
  | .dot, .str _ => .takeTwo [.suffixes]
  | .dot, .leftBracket => .takeTwo [.bracket, .suffixes]
  | .leftBracket, _ => .take [.bracket, .suffixes]
  | .alternative, _ => .part
  | _, _ => .pass []

/-- What becomes of a goal when the given two tokens come next. -/
def move : Goal → Token → Token → Move
  | .token t _, u, _ => if u = t then .take [] else .refuse
  | .variable, .variable _, _ => .take []
  | .variable, _, _ => .refuse
  | .name, t, _ =>
    if (wordKey? t).isSome then .take [.parameterList, .sign .colon, .pipe, .sign .semicolon] else .refuse
  | .parameterList, t, _ =>
    if t = .leftParen then .take [.parameter, .more .parameters, .sign .rightParen] else .pass []
  | .parameter, t, _ => if (parameter? t).isSome then .take [] else .refuse
  | .pipe, t, _ => if t = .keyword .define then .take [.name, .pipe] else .pass [.operand, .rest 1]
  | .operand, _, _ => .pass [.term, .binding]
  | .rest least, t, _ => goOn least t
  | .unchained op, t, _ =>
    if op.associativity = .none ∧ (operator? [⟨t, 0⟩]).map Operator.precedence = some op.precedence then .refuse
    else .pass []
  | .binding, t, _ =>
    if t = .keyword .as then .take [.pattern, .more .alternatives, .sign (.op .pipe), .pipe] else .pass []
  | .term, _, _ => .pass [.primary, .suffixes]
  | .primary, t, _ => openTerm t
  | .suffixes, t, second => openSuffix t second
  | .dotted, .str _, _ | .quotation, .str _, _ => .take []
  | .dotted, .leftBracket, _ => .take [.bracket]
  | .dotted, _, _ | .quotation, _, _ => .pass []
  | .call, t, _ => if t = .leftParen then .take [.pipe, .more .arguments, .sign .rightParen] else .pass []
  | .array, t, _ => if t = .rightBracket then .take [] else .pass [.pipe, .sign .rightBracket]
  | .bracket, t, _ =>
    if t = .rightBracket then .take []
    else if t = .colon then .take [.pipe, .sign .rightBracket]
    else .pass [.pipe, .range]
  | .range, t, _ => if t = .colon then .take [.array] else .pass [.sign .rightBracket]
  | .entries, t, _ => openEntry t
  | .entriesRest, t, _ => if t = .op .comma then .take [.entries] else .pass [.sign .rightBrace]
  | .value, _, _ => .pass [.term, .more .values]
  | .pattern, .variable _, _ => .take []
  | .pattern, .leftBracket, _ => .take [.pattern, .more .patterns, .sign .rightBracket]
  | .pattern, .leftBrace, _ => .take [.patternEntry, .more .patternEntries, .sign .rightBrace]
  | .pattern, _, _ => .refuse
  | .patternEntry, t, _ => openPatternEntry t
  | .branches, t, _ => if t = .keyword .elif then .take [.pipe, .word .then, .pipe, .branches] else .pass []
  | .more r, t, _ => if t = r.separator then .take [r.item, .more r] else .pass []
  | .after s, t, _ => if t = s.lead then .take [s.item] else .pass []

end Goal

/-- A goal with the lexemes in front of it: what takes its place, and the lexemes that are left. -/
def Goal.step (g : Goal) (ls : Lexemes) : Option (List Goal × Lexemes) :=
  match g.move (peek ls) (peek ls.tail), ls with
  | .pass gs, ls => some (gs, ls)
  | .take gs, _ :: ls => some (gs, ls)
  | .takeTwo gs, _ :: _ :: ls => some (gs, ls)
  | .part, l :: ls => some ([g], ⟨.op .alt, l.offset⟩ :: ls)
  | _, _ => none

/-- One move of the uppermost goal. -/
def next : List Goal × Lexemes → Option (List Goal × Lexemes)
  | ([], _) => none
  | (g :: below, ls) => (g.step ls).map fun r => (r.1 ++ below, r.2)

/-- What moves lead to. -/
def Reaches : List Goal × Lexemes → List Goal × Lexemes → Prop :=
  Relation.ReflTransGen fun c c' => next c = some c'

/-! ## Moves -/

/-- Whether a move takes a token. -/
def Move.takes : Move → Bool
  | .take _ | .takeTwo _ => true
  | _ => false

/-- Whether a move takes at most one token, and leaves it whole. -/
def Move.isSingle : Move → Bool
  | .takeTwo _ | .part => false
  | _ => true

theorem Move.isSingle_ite {c : Prop} [Decidable c] {m m' : Move} (h : m.isSingle = true) (h' : m'.isSingle = true) :
    (if c then m else m').isSingle = true := by
  split
  · exact h
  · exact h'

namespace Goal

theorem isSingle_move {g : Goal} (hg : g ≠ .suffixes) (t u : Token) : (g.move t u).isSingle = true := by
  cases g with
  | suffixes => exact absurd rfl hg
  | primary =>
    cases t with
    | op operator => cases operator <;> rfl
    | keyword word => cases word <;> rfl
    | _ => rfl
  | entries | patternEntry | «variable» | pattern | dotted | quotation => cases t <;> rfl
  | rest least =>
    show (goOn least t).isSingle = true
    unfold goOn
    split
    · rfl
    · exact Move.isSingle_ite rfl rfl
  | bracket => exact Move.isSingle_ite rfl (Move.isSingle_ite rfl rfl)
  | operand | term | value => rfl
  | _ => exact Move.isSingle_ite rfl rfl

theorem eq_suffixes_of_part {g : Goal} {t u : Token} (h : g.move t u = .part) : g = .suffixes ∧ t = .alternative := by
  by_cases hg : g = .suffixes
  · subst hg
    cases t with
    | alternative => exact ⟨rfl, rfl⟩
    | dot => cases u <;> cases h
    | _ => cases h
  · have hsingle := isSingle_move hg t u
    rw [h] at hsingle
    cases hsingle

theorem eq_dot_of_takeTwo {g : Goal} {gs : List Goal} {t u : Token} (h : g.move t u = .takeTwo gs) :
    t = .dot ∧ ((∃ parts, u = .str parts) ∨ u = .leftBracket) := by
  by_cases hg : g = .suffixes
  · subst hg
    cases t with
    | dot =>
      cases u with
      | str parts => exact ⟨rfl, .inl ⟨parts, rfl⟩⟩
      | leftBracket => exact ⟨rfl, .inr rfl⟩
      | _ => cases h
    | _ => cases h
  · have hsingle := isSingle_move hg t u
    rw [h] at hsingle
    cases hsingle

/-- The end of the source is never taken. -/
theorem takes_eof (g : Goal) (u : Token) : (g.move .eof u).takes = false := by
  cases g with
  | token t ht =>
    have hne : .eof ≠ t := by
      rintro rfl
      cases ht
    rw [show (Goal.token t ht).move .eof u = .refuse from if_neg hne]
    rfl
  | unchained op =>
    rw [show (Goal.unchained op).move .eof u = .pass [] from if_neg fun h => nomatch h.2]
    rfl
  | more r => cases r <;> rfl
  | after s => cases s <;> rfl
  | _ => rfl

end Goal

/-! ## Single moves -/

namespace Goal

variable {g : Goal} {gs : List Goal} {l l' : Lexeme} {ls ls' : Lexemes}

theorem step_pass (h : g.move (peek ls) (peek ls.tail) = .pass gs) : g.step ls = some (gs, ls) := by
  unfold step
  rw [h]

theorem step_take (h : g.move l.token (peek ls) = .take gs) : g.step (l :: ls) = some (gs, ls) := by
  unfold step
  rw [peek, List.tail_cons, h]

theorem step_takeTwo (h : g.move l.token l'.token = .takeTwo gs) : g.step (l :: l' :: ls) = some (gs, ls) := by
  unfold step
  rw [peek, List.tail_cons, peek, h]

theorem step_part (h : g.move l.token (peek ls) = .part) : g.step (l :: ls) = some ([g], ⟨.op .alt, l.offset⟩ :: ls) := by
  unfold step
  rw [peek, List.tail_cons, h]

theorem step_refuse (h : g.move (peek ls) (peek ls.tail) = .refuse) : g.step ls = none := by
  unfold step
  rw [h]

/-- The ways a goal can go. -/
theorem step_cases (h : g.step ls = some (gs, ls')) :
    (g.move (peek ls) (peek ls.tail) = .pass gs ∧ ls' = ls) ∨
      (∃ l, ls = l :: ls' ∧ g.move l.token (peek ls') = .take gs) ∨
      (∃ l l', ls = l :: l' :: ls' ∧ g.move l.token l'.token = .takeTwo gs) ∨
      ∃ l ls₁, ls = l :: ls₁ ∧ g.move l.token (peek ls₁) = .part ∧ gs = [g] ∧ ls' = ⟨.op .alt, l.offset⟩ :: ls₁ := by
  unfold step at h
  split at h
  · next hmove =>
    cases h
    exact .inl ⟨hmove, rfl⟩
  · next hmove =>
    cases h
    exact .inr (.inl ⟨_, rfl, hmove⟩)
  · next hmove =>
    cases h
    exact .inr (.inr (.inl ⟨_, _, rfl, hmove⟩))
  · next hmove =>
    cases h
    exact .inr (.inr (.inr ⟨_, _, rfl, hmove, rfl, rfl⟩))
  · cases h

end Goal

theorem next_cons {g : Goal} {gs below : List Goal} {ls ls' : Lexemes} (h : g.step ls = some (gs, ls')) :
    next (g :: below, ls) = some (gs ++ below, ls') := by
  rw [next, h]
  rfl

theorem next_cons_eq_some {g : Goal} {below : List Goal} {ls : Lexemes} {c : List Goal × Lexemes}
    (h : next (g :: below, ls) = some c) : ∃ gs ls', g.step ls = some (gs, ls') ∧ c = (gs ++ below, ls') := by
  obtain ⟨⟨gs, ls'⟩, hstep, rfl⟩ := Option.map_eq_some_iff.1 h
  exact ⟨gs, ls', hstep, rfl⟩

/-! ## Runs -/

namespace Reaches

variable {gs gs' below : List Goal} {ls ls' ls₁ ls₂ : Lexemes} {c d e : List Goal × Lexemes}

theorem refl : Reaches c c :=
  Relation.ReflTransGen.refl

theorem trans (h : Reaches c d) (h' : Reaches d e) : Reaches c e :=
  Relation.ReflTransGen.trans h h'

theorem step {g : Goal} (h : g.step ls = some (gs, ls')) (hrest : Reaches (gs ++ below, ls') c) :
    Reaches (g :: below, ls) c :=
  .head (next_cons h) hrest

/-- **Goals below change nothing.** -/
theorem above (h : Reaches (gs, ls) (gs', ls')) (below : List Goal) : Reaches (gs ++ below, ls) (gs' ++ below, ls') := by
  refine Relation.ReflTransGen.lift (fun c : List Goal × Lexemes => (c.1 ++ below, c.2)) ?_ _ _ h
  rintro ⟨gs, ls⟩ c hnext
  cases gs with
  | nil => cases hnext
  | cons g gs =>
    obtain ⟨gs', ls', hstep, rfl⟩ := next_cons_eq_some hnext
    show next (g :: (gs ++ below), ls) = _
    rw [next_cons hstep, ← List.append_assoc]

/-- Goals one after the other. -/
theorem append (h : Reaches (gs, ls) ([], ls₁)) (h' : Reaches (below, ls₁) c) : Reaches (gs ++ below, ls) c :=
  (h.above below).trans h'

/-- **What empties the stack is done with the upper goals first.** -/
theorem split (gs : List Goal) (h : Reaches (gs ++ below, ls) ([], ls')) :
    ∃ ls₁, Reaches (gs, ls) ([], ls₁) ∧ Reaches (below, ls₁) ([], ls') := by
  generalize hc : (gs ++ below, ls) = c at h
  induction h using Relation.ReflTransGen.head_induction_on generalizing gs ls with
  | refl =>
    obtain ⟨hnil, rfl⟩ := Prod.mk.inj hc
    obtain ⟨rfl, rfl⟩ := List.append_eq_nil_iff.1 hnil
    exact ⟨_, .refl, .refl⟩
  | head hnext hrest ih =>
    subst hc
    cases gs with
    | nil => exact ⟨ls, .refl, .head hnext hrest⟩
    | cons g gs =>
      obtain ⟨gs', ls₁, hstep, rfl⟩ := next_cons_eq_some hnext
      obtain ⟨ls₂, h, h'⟩ := ih (gs' ++ gs) (Prod.ext (List.append_assoc gs' gs below) rfl)
      exact ⟨ls₂, .step hstep h, h'⟩

theorem nil_inv (h : Reaches ([], ls) c) : c = ([], ls) := by
  cases h using Relation.ReflTransGen.head_induction_on with
  | refl => rfl
  | head hnext => cases hnext

/-- Of two runs from the same goals one goes on with the other. -/
theorem total (h : Reaches c d) (h' : Reaches c e) : Reaches d e ∨ Reaches e d :=
  Relation.ReflTransGen.total_of_right_unique (fun _ _ _ h h' => Option.some.inj (h.symm.trans h')) h h'

/-- A run that empties the stack goes on from everything on its way. -/
theorem goOn (h : Reaches c ([], ls)) (h' : Reaches c d) : Reaches d ([], ls) := by
  rcases h.total h' with hd | hd
  · rw [hd.nil_inv]
    exact .refl
  · exact hd

theorem unique (h : Reaches c ([], ls₁)) (h' : Reaches c ([], ls₂)) : ls₁ = ls₂ :=
  congrArg Prod.snd (h'.goOn h).nil_inv |>.symm

end Reaches

/-! ## What a run leaves -/

/-- The same place in a source: the sign `?//` may have been parted there. -/
def SamePlace (ls ls' : Lexemes) : Prop :=
  ls' = ls ∨ ∃ o rest, ls = ⟨.alternative, o⟩ :: rest ∧ ls' = ⟨.op .alt, o⟩ :: rest

theorem SamePlace.offset {ls ls' : Lexemes} (h : SamePlace ls ls') : offset ls' = offset ls := by
  obtain rfl | ⟨o, rest, rfl, rfl⟩ := h <;> rfl

theorem SamePlace.eq {ls ls' : Lexemes} (h : SamePlace ls ls') (hne : peek ls' ≠ .op .alt) : ls' = ls := by
  obtain rfl | ⟨o, rest, rfl, rfl⟩ := h
  · rfl
  · exact absurd rfl hne

theorem SamePlace.go_on {ls ls₁ front rest ls' : Lexemes} (h : SamePlace ls ls₁) (hls : ls₁ = front ++ rest)
    (h' : SamePlace rest ls') : ∃ front' rest', ls = front' ++ rest' ∧ SamePlace rest' ls' := by
  obtain rfl | ⟨o, tail, rfl, rfl⟩ := h
  · exact ⟨front, rest, hls, h'⟩
  · cases front with
    | nil =>
      subst hls
      obtain rfl | ⟨o', rest', heq, -⟩ := h'
      · exact ⟨[], _, rfl, .inr ⟨o, tail, rfl, rfl⟩⟩
      · cases heq
    | cons l front =>
      obtain ⟨-, rfl⟩ := List.cons.inj hls
      exact ⟨⟨.alternative, o⟩ :: front, rest, rfl, h'⟩

theorem Goal.step_leaves {g : Goal} {gs : List Goal} {ls ls' : Lexemes} (h : g.step ls = some (gs, ls')) :
    ∃ front rest, ls = front ++ rest ∧ SamePlace rest ls' := by
  obtain ⟨-, rfl⟩ | ⟨l, rfl, -⟩ | ⟨l, l', rfl, -⟩ | ⟨⟨t, o⟩, ls₁, rfl, hmove, -, rfl⟩ := step_cases h
  · exact ⟨[], _, rfl, .inl rfl⟩
  · exact ⟨[l], _, rfl, .inl rfl⟩
  · exact ⟨[l, l'], _, rfl, .inl rfl⟩
  · obtain rfl : t = .alternative := (eq_suffixes_of_part hmove).2
    exact ⟨[], _, rfl, .inr ⟨o, ls₁, rfl, rfl⟩⟩

/-- **A run takes lexemes from the front.** -/
theorem Reaches.leaves {gs gs' : List Goal} {ls ls' : Lexemes} (h : Reaches (gs, ls) (gs', ls')) :
    ∃ front rest, ls = front ++ rest ∧ SamePlace rest ls' := by
  generalize hc : (gs, ls) = c at h
  induction h using Relation.ReflTransGen.head_induction_on generalizing gs ls with
  | refl =>
    cases hc
    exact ⟨[], _, rfl, .inl rfl⟩
  | head hnext hrest ih =>
    subst hc
    cases gs with
    | nil => cases hnext
    | cons g gs =>
      obtain ⟨gs₁, ls₁, hstep, rfl⟩ := next_cons_eq_some hnext
      obtain ⟨front, rest, rfl, hplace⟩ := Goal.step_leaves hstep
      obtain ⟨front₁, rest₁, hls₁, hplace₁⟩ := ih rfl
      obtain ⟨front', rest', rfl, hplace'⟩ := hplace.go_on hls₁ hplace₁
      exact ⟨front ++ front', rest', (List.append_assoc front front' rest').symm, hplace'⟩

end Grammar
end DefTable
