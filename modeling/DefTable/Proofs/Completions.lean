import DefTable.Proofs.Goals

/-!
# Completing goals

Every goal has a few tokens that complete it (`Goal.sample`), in front of the tokens that may follow it
(`Goal.Admits`). On a stack whose goals admit what is wanted below them (`Linked`), the samples of all goals complete the
stack (`Linked.completed`). Moves keep stacks linked (`Linked.step`), but for one: a label takes what follows it up to the
end of the pipeline, so it is never followed by the `as` that a reduction wants behind its source.
-/

namespace DefTable
namespace Grammar

namespace Goal

/-! ## Samples -/

/-- Tokens that complete a goal. -/
def sample : Goal → List Token
  | .token t _ => [t]
  | .variable | .pattern | .patternEntry => [.variable "$x"]
  | .name => [.ident "f", .colon, .dot, .semicolon]
  | .parameter => [.ident "f"]
  | .pipe | .operand | .term | .primary | .value => [.dot]
  | .array | .bracket | .range => [.rightBracket]
  | .entries | .entriesRest => [.rightBrace]
  | .after .handler => [.keyword .catch, .dot]
  | _ => []

/-- Whether a token may follow a query. -/
def closesQuery : Token → Bool
  | .rightParen | .rightBracket | .rightBrace | .colon | .semicolon | .eof => true
  | .keyword .then | .keyword .elif | .keyword .else | .keyword .end | .keyword .catch => true
  | _ => false

/-- Whether a token may follow a term. -/
def closesTerm (t : Token) : Bool :=
  t == .keyword .as || closesQuery t

/-- The tokens that may follow a goal. -/
def Admits : Goal → Token → Prop
  | .pipe, t | .operand, t | .binding, t | .rest _, t | .unchained _, t => closesQuery t = true
  | .term, t | .primary, t | .suffixes, t | .dotted, t | .quotation, t | .call, t | .after .handler, t =>
    closesTerm t = true
  | .parameterList, t => t = .colon
  | .value, t | .more .values, t | .after .value, t => t = .rightBrace
  | .patternEntry, t | .more .patternEntries, t | .after .pattern, t => t = .rightBrace
  | .more .patterns, t => t = .rightBracket
  | .more .alternatives, t => t = .op .pipe
  | .more .parameters, t | .more .arguments, t | .after .extraction, t => t = .rightParen
  | .branches, t | .after .otherwise, t => t = .keyword .end
  | _, _ => True

/-- Whether a goal may stand below others. -/
def steady : Goal → Bool
  | .dotted | .quotation | .call => false
  | _ => true

theorem closesTerm_of_closesQuery {t : Token} (h : closesQuery t = true) : closesTerm t = true := by
  rw [closesTerm, h, Bool.or_true]

theorem operator?_of_closesQuery {t : Token} (h : closesQuery t = true) : operator? [⟨t, 0⟩] = none := by
  cases t with
  | keyword k => cases k <;> first | rfl | cases h
  | op => cases h
  | _ => rfl

/-- What ends a term goes on no term. -/
theorem move_of_closesTerm {t : Token} (h : closesTerm t = true) (u : Token) :
    suffixes.move t u = .pass [] ∧ dotted.move t u = .pass [] ∧ quotation.move t u = .pass [] ∧
      call.move t u = .pass [] := by
  cases t with
  | field | dot | str | leftBracket | question | alternative | leftParen => cases h
  | _ => exact ⟨rfl, rfl, rfl, rfl⟩

/-- A goal that needs no token gives way to those that may follow it. -/
theorem move_of_admits {g : Goal} (hg : g.sample = []) {t : Token} (ht : g.Admits t) (u : Token) :
    g.move t u = .pass [] := by
  cases g with
  | binding =>
    refine if_neg ?_
    rintro rfl
    cases ht
  | rest least =>
    exact goOn_none (operator?_of_closesQuery ht) least
  | unchained op =>
    refine if_neg fun h => ?_
    rw [operator?_of_closesQuery ht] at h
    cases h.2
  | suffixes => exact (move_of_closesTerm ht u).1
  | dotted => exact (move_of_closesTerm ht u).2.1
  | quotation => exact (move_of_closesTerm ht u).2.2.1
  | call => exact (move_of_closesTerm ht u).2.2.2
  | parameterList | branches =>
    obtain rfl := ht
    rfl
  | more r => cases r <;> obtain rfl := ht <;> rfl
  | after s =>
    cases s with
    | handler => cases hg
    | _ => obtain rfl := ht; rfl
  | _ => cases hg

end Goal

/-! ## Completing one goal -/

namespace Reaches

variable {g : Goal} {gs below : List Goal} {l : Lexeme} {ls : Lexemes} {c : List Goal × Lexemes}

theorem pass (h : g.move (peek ls) (peek ls.tail) = .pass gs) (hrest : Reaches (gs ++ below, ls) c) :
    Reaches (g :: below, ls) c :=
  .step (Goal.step_pass h) hrest

theorem take (h : g.move l.token (peek ls) = .take gs) (hrest : Reaches (gs ++ below, ls) c) :
    Reaches (g :: below, l :: ls) c :=
  .step (Goal.step_take h) hrest

end Reaches

theorem reaches_of_admits {g : Goal} {below : List Goal} {ls : Lexemes} (hg : g.sample = [])
    (hls : g.Admits (peek ls)) : Reaches (g :: below, ls) (below, ls) :=
  .pass (Goal.move_of_admits hg hls _) .refl

theorem term_completed {below : List Goal} {o : Nat} {ls : Lexemes} (h : Goal.closesTerm (peek ls) = true) :
    Reaches (.term :: below, ⟨.dot, o⟩ :: ls) (below, ls) := by
  refine .pass rfl (.take rfl ((reaches_of_admits (g := .dotted) rfl h).trans ?_))
  exact reaches_of_admits (g := .suffixes) rfl h

theorem pipe_completed {below : List Goal} {o : Nat} {ls : Lexemes} (h : Goal.closesQuery (peek ls) = true) :
    Reaches (.pipe :: below, ⟨.dot, o⟩ :: ls) (below, ls) := by
  refine .pass rfl (.pass rfl ((term_completed (Goal.closesTerm_of_closesQuery h)).trans ?_))
  exact (reaches_of_admits (g := .binding) rfl h).trans (reaches_of_admits (g := .rest 1) rfl h)

theorem exists_lexeme {ls : Lexemes} {t : Token} {ts : List Token} (h : ls.map Lexeme.token = t :: ts) :
    ∃ o ls₁, ls = ⟨t, o⟩ :: ls₁ ∧ ls₁.map Lexeme.token = ts := by
  obtain ⟨⟨_, o⟩, ls₁, rfl, rfl, rfl⟩ := List.map_eq_cons_iff.1 h
  exact ⟨o, ls₁, rfl, rfl⟩

theorem exists_single {ls : Lexemes} {t : Token} (h : ls.map Lexeme.token = [t]) : ∃ o, ls = [⟨t, o⟩] := by
  obtain ⟨o, ls₁, rfl, hnil⟩ := exists_lexeme h
  exact ⟨o, by rw [List.map_eq_nil_iff.1 hnil]⟩

/-- **The sample of a goal completes it** in front of what may follow it. -/
theorem Goal.completed {g : Goal} {ls rest : Lexemes} (hsample : ls.map Lexeme.token = g.sample)
    (hrest : g.Admits (peek rest)) : Reaches ([g], ls ++ rest) ([], rest) := by
  by_cases hg : g.sample = []
  · rw [hg] at hsample
    rw [List.map_eq_nil_iff.1 hsample]
    exact reaches_of_admits hg hrest
  cases g with
  | token t ht =>
    obtain ⟨o, rfl⟩ := exists_single hsample
    have hmove : (Goal.token t ht).move t (peek rest) = .take [] := if_pos rfl
    exact .take hmove .refl
  | «variable» | pattern | parameter | array | bracket | entries =>
    obtain ⟨o, rfl⟩ := exists_single hsample
    exact .take rfl .refl
  | range | entriesRest =>
    obtain ⟨o, rfl⟩ := exists_single hsample
    exact .pass rfl (.take rfl .refl)
  | patternEntry =>
    obtain ⟨o, rfl⟩ := exists_single hsample
    exact .take rfl (reaches_of_admits (g := .after .pattern) rfl hrest)
  | name =>
    obtain ⟨o, _, rfl, hcolon⟩ := exists_lexeme hsample
    obtain ⟨o₁, _, rfl, hdot⟩ := exists_lexeme hcolon
    obtain ⟨o₂, _, rfl, hsemicolon⟩ := exists_lexeme hdot
    obtain ⟨o₃, rfl⟩ := exists_single hsemicolon
    have hcolon : Goal.parameterList.Admits .colon := rfl
    exact .take rfl (.pass (move_of_admits rfl hcolon _) (.take rfl ((pipe_completed rfl).trans (.take rfl .refl))))
  | pipe =>
    obtain ⟨o, rfl⟩ := exists_single hsample
    exact pipe_completed hrest
  | operand =>
    obtain ⟨o, rfl⟩ := exists_single hsample
    exact .pass rfl ((term_completed (closesTerm_of_closesQuery hrest)).trans (reaches_of_admits (g := .binding) rfl hrest))
  | term =>
    obtain ⟨o, rfl⟩ := exists_single hsample
    exact term_completed hrest
  | primary =>
    obtain ⟨o, rfl⟩ := exists_single hsample
    exact .take rfl (reaches_of_admits (g := .dotted) rfl hrest)
  | value =>
    obtain ⟨o, rfl⟩ := exists_single hsample
    have hclose : closesTerm (peek rest) = true := by
      rw [show peek rest = .rightBrace from hrest]
      rfl
    exact .pass rfl ((term_completed hclose).trans (reaches_of_admits (g := .more .values) rfl hrest))
  | after s =>
    cases s with
    | handler =>
      obtain ⟨o, _, rfl, hdot⟩ := exists_lexeme hsample
      obtain ⟨o₁, rfl⟩ := exists_single hdot
      exact .take rfl (term_completed hrest)
    | _ => exact absurd rfl hg
  | _ => exact absurd rfl hg

/-! ## Stacks -/

/-- The first token that is wanted, when all goals are done in front of `t`. -/
def wanted : List Goal → Token → Token
  | [], t => t
  | g :: gs, t => g.sample.headD (wanted gs t)

/-- Goals that can be completed one after the other in front of `t`. -/
def Linked : List Goal → Token → Prop
  | [], _ => True
  | g :: gs, t => g.Admits (wanted gs t) ∧ gs.all Goal.steady = true ∧ Linked gs t

/-- Tokens that complete all goals. -/
def samples (gs : List Goal) : List Token :=
  gs.flatMap Goal.sample

theorem peek_samples {gs : List Goal} {ls : Lexemes} (hls : ls.map Lexeme.token = samples gs) (rest : Lexemes) :
    peek (ls ++ rest) = wanted gs (peek rest) := by
  induction gs generalizing ls with
  | nil =>
    rw [List.map_eq_nil_iff.1 hls]
    rfl
  | cons g gs ih =>
    unfold samples at hls
    rw [List.flatMap_cons] at hls
    cases hg : g.sample with
    | nil =>
      rw [hg] at hls
      rw [wanted, hg]
      exact ih hls
    | cons t ts =>
      rw [hg] at hls
      obtain ⟨o, ls, rfl, -⟩ := exists_lexeme hls
      rw [wanted, hg]
      rfl

/-- **Linked goals are completed by their samples.** -/
theorem Linked.completed {gs : List Goal} {ls rest : Lexemes} (h : Linked gs (peek rest))
    (hls : ls.map Lexeme.token = samples gs) : Reaches (gs, ls ++ rest) ([], rest) := by
  induction gs generalizing ls with
  | nil =>
    rw [List.map_eq_nil_iff.1 hls]
    exact .refl
  | cons g gs ih =>
    obtain ⟨hadmits, -, hgs⟩ := h
    obtain ⟨ls₁, ls₂, rfl, hg, hgs'⟩ := List.map_eq_append_iff.1 hls
    rw [← peek_samples hgs' rest] at hadmits
    rw [List.append_assoc]
    exact (Goal.completed hg hadmits).append (ih hgs hgs')

theorem Goal.eq_of_mem_sample {g : Goal} {t : Token} (h : t ∈ g.sample) :
    t.isMark = true ∨ t ∈ [.dot, .keyword .catch, .ident "f", .variable "$x"] := by
  cases g with
  | token u hu => exact .inl (List.mem_singleton.1 h ▸ hu)
  | after s => cases s <;> revert t <;> decide
  | rest | unchained | more => cases h
  | _ => revert t; decide

theorem Goal.wellSpelled_sample {g : Goal} {t : Token} (h : t ∈ g.sample) :
    t.WellSpelled ∧ t.isPlain = true ∧ t ≠ .leftBracket := by
  obtain hmark | hmem := eq_of_mem_sample h
  · cases t with
    | ident | field | «variable» | format | number | str | eof | leftBracket => cases hmark
    | op o => cases o <;> first | exact ⟨⟨by decide, by decide⟩, rfl, nofun⟩ | cases hmark
    | _ => exact ⟨trivial, rfl, nofun⟩
  · have hword : Token.IsWord "f".toList := ⟨rfl, 'f', rfl, rfl⟩
    have hname : Token.IsName ['x'] := ⟨nofun, rfl⟩
    simp only [List.mem_cons, List.not_mem_nil, or_false] at hmem
    obtain rfl | rfl | rfl | rfl := hmem
    · exact ⟨trivial, rfl, nofun⟩
    · exact ⟨trivial, rfl, nofun⟩
    · exact ⟨⟨hword, rfl⟩, rfl, nofun⟩
    · exact ⟨⟨['x'], rfl, hname⟩, rfl, nofun⟩

theorem wellSpelled_samples {gs : List Goal} {t : Token} (h : t ∈ samples gs) :
    t.WellSpelled ∧ t.isPlain = true ∧ t ≠ .leftBracket := by
  obtain ⟨g, -, ht⟩ := List.mem_flatMap.1 h
  exact Goal.wellSpelled_sample ht

theorem wanted_append (gs below : List Goal) (t : Token) : wanted (gs ++ below) t = wanted gs (wanted below t) := by
  induction gs with
  | nil => rfl
  | cons g gs ih => rw [List.cons_append, wanted, wanted, ih]

theorem linked_append {gs below : List Goal} {t : Token} (hsteady : below.all Goal.steady = true) :
    Linked (gs ++ below) t ↔ Linked gs (wanted below t) ∧ Linked below t := by
  induction gs with
  | nil => simp [Linked]
  | cons g gs ih =>
    rw [List.cons_append, Linked, Linked, ih, wanted_append, List.all_append, hsteady, Bool.and_true]
    constructor
    · rintro ⟨hadmits, hgs, hlinked, hbelow⟩
      exact ⟨⟨hadmits, hgs, hlinked⟩, hbelow⟩
    · rintro ⟨⟨hadmits, hgs, hlinked⟩, hbelow⟩
      exact ⟨hadmits, hgs, hlinked, hbelow⟩

/-! ## Moves -/

def Move.goals : Move → List Goal
  | .pass gs | .take gs | .takeTwo gs => gs
  | .refuse | .part => []

theorem linked_ite {c : Prop} [Decidable c] {m m' : Move} {t : Token} (h : Linked m.goals t) (h' : Linked m'.goals t) :
    Linked (if c then m else m').goals t := by
  split
  · exact h
  · exact h'

theorem linked_openTerm {t u : Token} (h : Goal.closesTerm t = true) (hlabel : u = .keyword .label → t ≠ .keyword .as) :
    Linked (Goal.openTerm u).goals t := by
  cases u with
  | dot | format | ident => exact ⟨h, rfl, trivial⟩
  | leftParen => exact ⟨rfl, rfl, trivial, rfl, trivial⟩
  | leftBracket | leftBrace => exact ⟨trivial, rfl, trivial⟩
  | op operator =>
    cases operator with
    | sub | add => exact ⟨h, rfl, trivial⟩
    | _ => trivial
  | keyword word =>
    cases word with
    | «if» => exact ⟨rfl, rfl, trivial, rfl, rfl, rfl, rfl, rfl, rfl, rfl, trivial, rfl, trivial⟩
    | «try» => exact ⟨rfl, rfl, h, rfl, trivial⟩
    | reduce =>
      exact ⟨rfl, rfl, trivial, rfl, trivial, rfl, trivial, rfl, rfl, rfl, trivial, rfl, rfl, rfl, trivial, rfl, trivial⟩
    | «foreach» =>
      exact ⟨rfl, rfl, trivial, rfl, trivial, rfl, trivial, rfl, rfl, rfl, trivial, rfl, rfl, rfl, rfl, rfl, trivial, rfl,
        trivial⟩
    | label =>
      have hpipe : Goal.closesQuery t = true := by
        rw [Goal.closesTerm, Bool.or_eq_true, beq_iff_eq] at h
        exact h.resolve_left (hlabel rfl)
      exact ⟨trivial, rfl, trivial, rfl, hpipe, rfl, trivial⟩
    | «break» => exact ⟨trivial, rfl, trivial⟩
    | _ => trivial
  | _ => trivial

theorem linked_openEntry (t u : Token) : Linked (Goal.openEntry u).goals t := by
  cases u with
  | «variable» => exact ⟨trivial, rfl, trivial⟩
  | str | ident | keyword => exact ⟨rfl, rfl, trivial, rfl, trivial⟩
  | leftParen => exact ⟨rfl, rfl, trivial, rfl, trivial, rfl, rfl, rfl, trivial, rfl, trivial⟩
  | _ => trivial

theorem linked_openPatternEntry {t : Token} (h : t = .rightBrace) (u : Token) :
    Linked (Goal.openPatternEntry u).goals t := by
  cases u with
  | «variable» => exact ⟨h, rfl, trivial⟩
  | str | ident | keyword => exact ⟨trivial, rfl, trivial, rfl, trivial⟩
  | leftParen => exact ⟨rfl, rfl, trivial, rfl, trivial, rfl, trivial, rfl, trivial⟩
  | _ => trivial

theorem linked_goOn {t : Token} (h : Goal.closesQuery t = true) (least : Nat) (u : Token) :
    Linked (Goal.goOn least u).goals t := by
  unfold Goal.goOn
  split
  · trivial
  · split
    · trivial
    · unfold Goal.operands
      split
      · exact ⟨h, rfl, h, rfl, h, rfl, trivial⟩
      · exact ⟨h, rfl, h, rfl, h, rfl, h, rfl, trivial⟩

theorem linked_openSuffix {t : Token} (h : Goal.closesTerm t = true) (u v : Token) :
    Linked (Goal.openSuffix u v).goals t := by
  unfold Goal.openSuffix
  split
  · exact ⟨h, rfl, trivial⟩
  · exact ⟨h, rfl, trivial⟩
  · exact ⟨h, rfl, trivial⟩
  · exact ⟨trivial, rfl, h, rfl, trivial⟩
  · exact ⟨trivial, rfl, h, rfl, trivial⟩
  · trivial
  · trivial

/-- **What takes the place of a goal can be completed in front of what may follow it**, but for a label. -/
theorem linked_move {g : Goal} {t : Token} (h : g.Admits t) (u v : Token)
    (hlabel : g = .primary → u = .keyword .label → t ≠ .keyword .as) : Linked (g.move u v).goals t := by
  cases g with
  | primary => exact linked_openTerm h (hlabel rfl)
  | suffixes => exact linked_openSuffix h u v
  | entries => exact linked_openEntry t u
  | patternEntry => exact linked_openPatternEntry h u
  | rest least => exact linked_goOn h least u
  | more r =>
    refine linked_ite ?_ trivial
    cases r with
    | parameters | alternatives | patterns => exact ⟨trivial, rfl, h, rfl, trivial⟩
    | arguments | values | patternEntries =>
      obtain rfl := h
      exact ⟨rfl, rfl, rfl, rfl, trivial⟩
  | after s =>
    refine linked_ite ?_ trivial
    cases s with
    | handler => exact ⟨h, rfl, trivial⟩
    | value => exact ⟨h, rfl, trivial⟩
    | pattern => exact ⟨trivial, rfl, trivial⟩
    | otherwise | extraction =>
      obtain rfl := h
      exact ⟨rfl, rfl, trivial⟩
  | token | parameter | unchained => exact linked_ite trivial trivial
  | name => exact linked_ite ⟨rfl, rfl, trivial, rfl, rfl, rfl, trivial, rfl, trivial⟩ trivial
  | parameterList => exact linked_ite ⟨trivial, rfl, rfl, rfl, trivial, rfl, trivial⟩ trivial
  | pipe => exact linked_ite ⟨trivial, rfl, h, rfl, trivial⟩ ⟨h, rfl, h, rfl, trivial⟩
  | operand => exact ⟨Goal.closesTerm_of_closesQuery h, rfl, h, rfl, trivial⟩
  | binding => exact linked_ite ⟨trivial, rfl, rfl, rfl, trivial, rfl, h, rfl, trivial⟩ trivial
  | term => exact ⟨h, rfl, h, rfl, trivial⟩
  | call => exact linked_ite ⟨rfl, rfl, rfl, rfl, trivial, rfl, trivial⟩ trivial
  | array => exact linked_ite trivial ⟨rfl, rfl, trivial, rfl, trivial⟩
  | bracket => exact linked_ite trivial (linked_ite ⟨rfl, rfl, trivial, rfl, trivial⟩ ⟨rfl, rfl, trivial, rfl, trivial⟩)
  | range => exact linked_ite ⟨trivial, rfl, trivial⟩ ⟨trivial, rfl, trivial⟩
  | entriesRest => exact linked_ite ⟨trivial, rfl, trivial⟩ ⟨trivial, rfl, trivial⟩
  | value =>
    obtain rfl := h
    exact ⟨rfl, rfl, rfl, rfl, trivial⟩
  | branches =>
    obtain rfl := h
    exact linked_ite ⟨rfl, rfl, trivial, rfl, rfl, rfl, rfl, rfl, trivial⟩ trivial
  | pattern =>
    cases u with
    | leftBracket => exact ⟨trivial, rfl, rfl, rfl, trivial, rfl, trivial⟩
    | leftBrace => exact ⟨rfl, rfl, rfl, rfl, trivial, rfl, trivial⟩
    | _ => trivial
  | dotted =>
    cases u with
    | leftBracket => exact ⟨trivial, rfl, trivial⟩
    | _ => trivial
  | «variable» | quotation => cases u <;> trivial

/-- **Moves keep goals linked**, but for a label in front of a wanted `as`. -/
theorem Linked.step {g : Goal} {gs below : List Goal} {ls ls' : Lexemes} {t : Token} (h : Linked (g :: below) t)
    (hstep : g.step ls = some (gs, ls'))
    (hlabel : g = .primary → peek ls = .keyword .label → wanted below t ≠ .keyword .as) : Linked (gs ++ below) t := by
  obtain ⟨hadmits, hsteady, hbelow⟩ := h
  rw [linked_append hsteady]
  refine ⟨?_, hbelow⟩
  obtain ⟨hmove, -⟩ | ⟨l, rfl, hmove⟩ | ⟨l, l', rfl, hmove⟩ | ⟨l, ls₁, rfl, hmove, rfl, -⟩ := Goal.step_cases hstep
  · have hlinked := linked_move hadmits (peek ls) (peek ls.tail) hlabel
    rwa [hmove] at hlinked
  · have hlinked := linked_move hadmits l.token (peek ls') hlabel
    rwa [hmove] at hlinked
  · have hlinked := linked_move hadmits l.token l'.token hlabel
    rwa [hmove] at hlinked
  · exact ⟨hadmits, rfl, trivial⟩

end Grammar
end DefTable
