import DefTable.Proofs.Goals

/-!
# Goals and productions

What a production reads, its goals read, and where it reports a fault, one of its goals is refused (`Grammar.Follows`).
There is one lemma for every production, which follows the calls it makes, for lexemes whose strings hold no
interpolations (`Uninterpolated`): what an interpolation holds are no lexemes of the same source.
-/

namespace DefTable

/-- A token that is no string with an interpolation in it. -/
def Token.Uninterpolated : Token → Prop
  | .str parts => ∀ source start, StringPart.interpolation source start ∉ parts
  | _ => True

namespace Grammar

open Goal

/-- Lexemes whose strings hold no interpolations. -/
def Uninterpolated (ls : Lexemes) : Prop :=
  ∀ l ∈ ls, l.token.Uninterpolated

theorem uninterpolated_cons {l : Lexeme} {ls : Lexemes} :
    Uninterpolated (l :: ls) ↔ l.token.Uninterpolated ∧ Uninterpolated ls :=
  List.forall_mem_cons

theorem Uninterpolated.tail {l : Lexeme} {ls : Lexemes} (h : Uninterpolated (l :: ls)) : Uninterpolated ls :=
  (uninterpolated_cons.1 h).2

theorem Uninterpolated.right {front rest : Lexemes} (h : Uninterpolated (front ++ rest)) : Uninterpolated rest :=
  fun l hl => h l (List.mem_append_right front hl)

theorem SamePlace.uninterpolated {ls ls' : Lexemes} (h : SamePlace ls ls') (hls : Uninterpolated ls) :
    Uninterpolated ls' := by
  obtain rfl | ⟨o, rest, rfl, rfl⟩ := h
  · exact hls
  · exact uninterpolated_cons.2 ⟨trivial, hls.tail⟩

theorem Reaches.uninterpolated {gs gs' : List Goal} {ls ls' : Lexemes} (h : Reaches (gs, ls) (gs', ls'))
    (hls : Uninterpolated ls) : Uninterpolated ls' := by
  obtain ⟨front, rest, rfl, hplace⟩ := h.leaves
  exact hplace.uninterpolated hls.right

theorem fragments_plain : ∀ (n : Nat) {parts : List StringPart}, (Token.str parts).Uninterpolated →
    (∃ qs, fragments n parts = .ok qs) ∨ fragments n parts = .error .exhausted
  | 0, _, _ => .inr rfl
  | _ + 1, [], _ => .inl ⟨[], rfl⟩
  | n + 1, .literal s :: parts, h => by
    have hparts : (Token.str parts).Uninterpolated := fun source start hmem => h source start (List.mem_cons_of_mem _ hmem)
    rw [fragments]
    obtain ⟨qs, hqs⟩ | hqs := fragments_plain n hparts
    · rw [hqs]
      exact .inl ⟨_, rfl⟩
    · rw [hqs]
      exact .inr rfl
  | _ + 1, .interpolation source start :: _, h => absurd List.mem_cons_self (h source start)

theorem string_plain (n : Nat) {parts : List StringPart} (h : (Token.str parts).Uninterpolated) :
    (∃ x, string n parts = .ok x) ∨ string n parts = .error .exhausted := by
  cases n with
  | zero => exact .inr rfl
  | succ n =>
    unfold string
    split
    · exact .inl ⟨_, rfl⟩
    · obtain ⟨qs, hqs⟩ | hqs := fragments_plain n h
      · rw [hqs]
        exact .inl ⟨_, rfl⟩
      · rw [hqs]
        exact .inr rfl

/-! ## Results -/

/-- **What a production yields, its goals yield**: they leave the same lexemes, or one of them is refused where the
fault is reported. A fault in an interpolation has no such place. -/
def Follows {α : Type} (gs : List Goal) (ls : Lexemes) : Parsed (α × Lexemes) → Prop
  | .ok r => Reaches (gs, ls) ([], r.2)
  | .error (.fault e) => Uninterpolated ls →
    ∃ g below ls', Reaches (gs, ls) (g :: below, ls') ∧ g.step ls' = none ∧ e.offset = offset ls'
  | .error .exhausted => True

namespace Follows

variable {α β : Type} {g : Goal} {gs below : List Goal} {ls ls' : Lexemes} {r : Parsed (α × Lexemes)}

theorem done {a : α} : Follows [] ls (.ok (a, ls)) :=
  Reaches.refl

theorem reached (h : Reaches (gs, ls) (below, ls')) (hr : Follows below ls' r) : Follows gs ls r := by
  match r, hr with
  | .ok _, hr => exact h.trans hr
  | .error (.fault _), hr =>
    intro hls
    obtain ⟨g, below, ls₁, hreach, hstep, ho⟩ := hr (h.uninterpolated hls)
    exact ⟨g, below, ls₁, h.trans hreach, hstep, ho⟩
  | .error .exhausted, _ => trivial

theorem step (h : g.step ls = some (gs, ls')) (hr : Follows (gs ++ below) ls' r) : Follows (g :: below) ls r :=
  reached (.step h .refl) hr

theorem pass (h : g.move (peek ls) (peek ls.tail) = .pass gs) (hr : Follows (gs ++ below) ls r) :
    Follows (g :: below) ls r :=
  step (step_pass h) hr

theorem take {l : Lexeme} (h : g.move l.token (peek ls) = .take gs) (hr : Follows (gs ++ below) ls r) :
    Follows (g :: below) (l :: ls) r :=
  step (step_take h) hr

theorem refused (h : g.move (peek ls) (peek ls.tail) = .refuse) (wanted : Expectation) :
    Follows (g :: below) ls (.error (unexpected ls wanted) : Parsed (α × Lexemes)) :=
  fun _ => ⟨g, below, ls, .refl, step_refuse h, rfl⟩

/-- One production after the other. -/
theorem bind {all : List Goal} {x : Parsed (α × Lexemes)} {f : α × Lexemes → Parsed (β × Lexemes)}
    (hx : Follows gs ls x) (hall : all = gs ++ below) (hf : ∀ a ls₁, Follows below ls₁ (f (a, ls₁))) :
    Follows all ls (x >>= f) := by
  subst hall
  match x, hx with
  | .ok (a, ls₁), hx => exact reached (hx.above below) (hf a ls₁)
  | .error (.fault _), hx =>
    intro hls
    obtain ⟨g, gs', ls₁, hreach, hstep, ho⟩ := hx hls
    exact ⟨g, gs' ++ below, ls₁, hreach.above below, hstep, ho⟩
  | .error .exhausted, _ => trivial

/-- A token that has to come next. -/
theorem expect {t : Token} {ht : t.isMark = true} {f : Lexemes → Parsed (β × Lexemes)}
    (hf : ∀ ls₁, Follows below ls₁ (f ls₁)) : Follows (.token t ht :: below) ls (Grammar.expect t ls >>= f) := by
  have hmove : peek ls ≠ t → (Goal.token t ht).move (peek ls) (peek ls.tail) = .refuse := fun h => if_neg h
  cases ls with
  | nil =>
    refine refused (hmove ?_) (.token t)
    rintro rfl
    cases ht
  | cons l ls =>
    rw [Grammar.expect]
    split
    · next hl => exact take (if_pos hl) (hf ls)
    · next hl => exact refused (hmove hl) (.token t)

/-- A string, which takes its token only. -/
theorem string {parts : List StringPart} {o n : Nat} {f : Node .text → Parsed (β × Lexemes)}
    (h : g.step ls = some (gs, ls')) (hmem : ⟨.str parts, o⟩ ∈ ls) (hf : ∀ x, Follows (gs ++ below) ls' (f x)) :
    Follows (g :: below) ls (Grammar.string n parts >>= f) := by
  match hx : Grammar.string n parts with
  | .ok x => exact step h (hf x)
  | .error (.fault e) =>
    intro hls
    obtain ⟨x, hplain⟩ | hplain := string_plain n (hls _ hmem) <;> rw [hplain] at hx <;> cases hx
  | .error .exhausted => trivial

theorem variableName {f : String × Lexemes → Parsed (β × Lexemes)}
    (hf : ∀ name ls₁, Follows below ls₁ (f (name, ls₁))) :
    Follows (.variable :: below) ls (Grammar.variableName ls >>= f) := by
  obtain - | ⟨⟨t, o⟩, ls⟩ := ls
  · exact refused rfl .variable
  · cases t with
    | «variable» name => exact take rfl (hf name ls)
    | _ => exact refused rfl .variable

/-- A list with separators. -/
theorem listed (i : Repetition) {first : Parsed (α × Lexemes)} {further : Lexemes → Parsed (List α × Lexemes)}
    (hfirst : Follows [i.item] ls first) (hfurther : ∀ ls₁, Follows [i.item, .more i] ls₁ (further ls₁)) :
    Follows [i.item, .more i] ls (Grammar.listed i.separator first further) := by
  refine bind hfirst rfl fun a ls₁ => ?_
  dsimp only
  split
  · next hnext =>
    have heof : i.separator ≠ .eof := by cases i <;> nofun
    obtain ⟨o, hcons⟩ := eq_cons_of_peek heof hnext
    rw [hcons]
    exact take (if_pos rfl) (bind (hfurther _) rfl fun _ _ => .done)
  · next hnext => exact pass (if_neg hnext) .done

/-- What may be missing. -/
theorem optionally (i : Supplement) {read : Lexemes → Parsed (α × Lexemes)}
    (hread : ∀ ls₁, Follows [i.item] ls₁ (read ls₁)) : Follows [.after i] ls (Grammar.optionally i.lead read ls) := by
  unfold Grammar.optionally
  split
  · next hnext =>
    have heof : i.lead ≠ .eof := by cases i <;> nofun
    obtain ⟨o, hcons⟩ := eq_cons_of_peek heof hnext
    rw [hcons]
    exact take (if_pos rfl) (bind (hread _) rfl fun _ _ => .done)
  · next hnext => exact pass (if_neg hnext) .done

end Follows

/-! ## Definitions -/

theorem parameters_follow : ∀ ls : Lexemes, Follows [.parameter, .more .parameters] ls (parameters ls)
  | [] => .refused rfl .parameterName
  | ⟨t, o⟩ :: ls => by
    rw [parameters_cons]
    cases hname : parameter? t with
    | none =>
      have hmove : Goal.parameter.move t (peek ls) = .refuse := if_neg (by simp [hname])
      exact .refused hmove .parameterName
    | some name =>
      have hmove : Goal.parameter.move t (peek ls) = .take [] := if_pos (by simp [hname])
      refine .take hmove ?_
      dsimp only
      split
      · next hnext =>
        cases ls with
        | nil => cases hnext
        | cons l ls => exact .take (if_pos hnext) (.bind (parameters_follow ls) rfl fun _ _ => .done)
      · next hnext => exact .pass (if_neg hnext) .done

theorem parameterList_follows {ls : Lexemes} : Follows [.parameterList] ls (parameterList ls) := by
  unfold parameterList
  split
  · refine .take rfl (.bind (parameters_follow _) rfl fun names ls₁ => ?_)
    exact .expect fun _ => .done
  · next hnext => exact .pass (if_neg (peek_ne (by simp) hnext)) .done

theorem Follows.definitionName {β : Type} {ls : Lexemes} {below : List Goal} {f : String × Lexemes → Parsed (β × Lexemes)}
    (hf : ∀ name ls₁, Follows ([.parameterList, .sign .colon, .pipe, .sign .semicolon] ++ below) ls₁
      (f (name, ls₁))) :
    Follows (.name :: below) ls (Grammar.definitionName ls >>= f) := by
  cases ls with
  | nil => exact .refused rfl .functionName
  | cons l ls =>
    rw [Grammar.definitionName]
    split
    · next name hname => exact .take (if_pos (by simp [hname])) (hf name ls)
    · next hname =>
      have hmove : Goal.name.move l.token (peek ls) = .refuse := if_neg (by simp [hname])
      exact .refused hmove .functionName

/-! ## Productions -/

/-- With `n` steps the productions follow their goals. -/
structure Simulates (n : Nat) : Prop where
  definition {o ls} : Follows [.name] ls (definition n (⟨.keyword .define, o⟩ :: ls))
  pipe {ls} : Follows [.pipe] ls (pipe n ls)
  binary {p ls} : Follows [.operand, .rest p] ls (binary n p ls)
  binaryRest {p left ls} : Follows [.rest p] ls (binaryRest n p left ls)
  operand {ls} : Follows [.operand] ls (operand n ls)
  alternatives {ls} : Follows [.pattern, .more .alternatives] ls (alternatives n ls)
  term {ls} : Follows [.term] ls (term n ls)
  primary {ls} : Follows [.primary] ls (primary n ls)
  arguments {ls} : Follows [.pipe, .more .arguments] ls (arguments n ls)
  suffixes {ls} : Follows [.suffixes] ls (suffixes n ls)
  bracket {ls} : Follows [.bracket] ls (bracket n ls)
  objectEntries {ls} : Follows [.entries] ls (objectEntries n ls)
  /-- The goal of an entry is not done before what follows the entry. -/
  objectEntry {ls β below} {f : Node .entry × Lexemes → Parsed (β × Lexemes)} :
    peek ls ≠ .rightBrace → (∀ e ls₁, Follows (.entriesRest :: below) ls₁ (f (e, ls₁))) →
    Follows (.entries :: below) ls (objectEntry n ls >>= f)
  optionalValue {ls} : Follows [.after .value] ls (optionalValue n ls)
  objectValue {ls} : Follows [.term, .more .values] ls (objectValue n ls)
  pattern {ls} : Follows [.pattern] ls (pattern n ls)
  patternItems {ls} : Follows [.pattern, .more .patterns] ls (patternItems n ls)
  patternEntries {ls} : Follows [.patternEntry, .more .patternEntries] ls (patternEntries n ls)
  patternEntry {ls} : Follows [.patternEntry] ls (patternEntry n ls)
  branches {ls} : Follows [.branches] ls (branches n ls)
  elseBranch {ls} : Follows [.after .otherwise] ls (elseBranch n ls)
  extraction {ls} : Follows [.after .extraction] ls (extraction n ls)

section
variable {n : Nat} (ih : Simulates n) {ls : Lexemes}
include ih

theorem definition_follows {o : Nat} : Follows [.name] ls (definition (n + 1) (⟨.keyword .define, o⟩ :: ls)) := by
  rw [definition, expect, if_pos rfl]
  refine .definitionName fun name ls₂ => ?_
  refine .bind parameterList_follows rfl fun params ls₃ => .expect fun ls₄ => ?_
  exact .bind ih.pipe rfl fun body ls₅ => .expect fun _ => .done

theorem pipe_follows : Follows [.pipe] ls (pipe (n + 1) ls) := by
  rw [pipe]
  split
  · next hnext =>
    obtain - | ⟨⟨t, o⟩, ls⟩ := ls
    · cases hnext
    · obtain rfl : t = .keyword .define := hnext
      refine .take rfl (.bind ih.definition rfl fun d ls₁ => ?_)
      exact .bind ih.pipe rfl fun _ _ => .done
  · next hnext => exact .pass (if_neg hnext) ih.binary

theorem binary_follows {p : Nat} : Follows [.operand, .rest p] ls (binary (n + 1) p ls) := by
  rw [binary]
  exact .bind ih.operand rfl fun left ls₁ => ih.binaryRest

theorem rightOperand_follows {op : Operator} : Follows (operands op) ls (rightOperand n op ls) := by
  unfold operands rightOperand rightLeast
  split
  · exact ih.pipe
  · split
    · exact ih.binary
    · exact ih.binary

theorem binaryRest_follows {p : Nat} {left : Query} : Follows [.rest p] ls (binaryRest (n + 1) p left ls) := by
  rw [binaryRest_succ]
  cases hop : operator? ls with
  | none => exact .pass (goOn_none hop p) .done
  | some op =>
    have hmove (u : Token) : (Goal.rest p).move (peek ls) u =
        if op.precedence < p then .pass [] else .take (operands op ++ [.unchained op, .rest p]) := goOn_some hop p
    dsimp only
    split
    · next hp => exact .pass ((hmove _).trans (if_pos hp)) .done
    · next hp =>
      obtain - | ⟨l, ls⟩ := ls
      · cases hop
      · refine .take ((hmove _).trans (if_neg hp)) ?_
        refine .bind (rightOperand_follows ih) (List.append_nil _) fun right ls₁ => ?_
        dsimp only
        split
        · next hchain =>
          have hrefuse : (Goal.unchained op).move (peek ls₁) (peek ls₁.tail) = .refuse := if_pos hchain
          exact .refused hrefuse .noChain
        · next hchain => exact .pass (if_neg hchain) ih.binaryRest

theorem operand_follows : Follows [.operand] ls (operand (n + 1) ls) := by
  rw [operand]
  refine .pass rfl (.bind ih.term rfl fun t ls₁ => ?_)
  dsimp only
  split
  · refine .take rfl (.bind ih.alternatives rfl fun patterns ls₂ => ?_)
    refine .expect fun ls₃ => ?_
    exact .bind ih.pipe rfl fun _ _ => .done
  · next hnext => exact .pass (if_neg (peek_ne (by simp) hnext)) .done

theorem alternatives_follow : Follows [.pattern, .more .alternatives] ls (alternatives (n + 1) ls) := by
  rw [alternatives_succ]
  exact .listed .alternatives ih.pattern fun _ => ih.alternatives

theorem arguments_follow : Follows [.pipe, .more .arguments] ls (arguments (n + 1) ls) := by
  rw [arguments_succ]
  exact .listed .arguments ih.pipe fun _ => ih.arguments

theorem patternItems_follow : Follows [.pattern, .more .patterns] ls (patternItems (n + 1) ls) := by
  rw [patternItems_succ]
  exact .listed .patterns ih.pattern fun _ => ih.patternItems

theorem patternEntries_follow : Follows [.patternEntry, .more .patternEntries] ls (patternEntries (n + 1) ls) := by
  rw [patternEntries_succ]
  exact .listed .patternEntries ih.patternEntry fun _ => ih.patternEntries

theorem optionalValue_follows : Follows [.after .value] ls (optionalValue (n + 1) ls) := by
  rw [optionalValue_succ]
  exact .optionally .value fun ls₁ => .pass rfl ih.objectValue

theorem elseBranch_follows : Follows [.after .otherwise] ls (elseBranch (n + 1) ls) := by
  rw [elseBranch_succ]
  exact .optionally .otherwise fun _ => ih.pipe

theorem extraction_follows : Follows [.after .extraction] ls (extraction (n + 1) ls) := by
  rw [extraction_succ]
  exact .optionally .extraction fun _ => ih.pipe

theorem term_follows : Follows [.term] ls (term (n + 1) ls) := by
  rw [term]
  refine .pass rfl (.bind ih.primary rfl fun t ls₁ => ?_)
  exact .bind ih.suffixes rfl fun _ _ => .done

theorem suffixes_follow : Follows [.suffixes] ls (suffixes (n + 1) ls) := by
  obtain - | ⟨⟨t, o⟩, ls⟩ := ls
  · exact .pass rfl .done
  cases t with
  | field name => exact .take rfl (.bind ih.suffixes rfl fun _ _ => .done)
  | dot =>
    obtain - | ⟨⟨t, o₁⟩, ls⟩ := ls
    · exact .pass rfl .done
    cases t with
    | str parts =>
      refine .string (step_takeTwo rfl) (List.mem_cons_of_mem _ List.mem_cons_self) fun x => ?_
      exact .bind ih.suffixes rfl fun _ _ => .done
    | leftBracket =>
      refine .step (step_takeTwo rfl) (.bind ih.bracket rfl fun i ls₁ => ?_)
      exact .bind ih.suffixes rfl fun _ _ => .done
    | _ => exact .pass rfl .done
  | leftBracket =>
    refine .take rfl (.bind ih.bracket rfl fun i ls₁ => ?_)
    exact .bind ih.suffixes rfl fun _ _ => .done
  | question => exact .take rfl (.bind ih.suffixes rfl fun _ _ => .done)
  | alternative =>
    exact .step (step_part rfl) (.bind ih.suffixes rfl fun _ _ => .done)
  | _ => exact .pass rfl .done

theorem bracket_follows : Follows [.bracket] ls (bracket (n + 1) ls) := by
  unfold bracket
  split
  · exact .take rfl .done
  · refine .take rfl (.bind ih.pipe rfl fun stop ls₁ => ?_)
    exact .expect fun _ => .done
  · next hbracket hcolon =>
    have hmove : Goal.bracket.move (peek ls) (peek ls.tail) = .pass [.pipe, .range] :=
      (if_neg (peek_ne (by simp) hbracket)).trans (if_neg (peek_ne (by simp) hcolon))
    refine .pass hmove (.bind ih.pipe rfl fun start ls₁ => ?_)
    dsimp only
    split
    · exact .take rfl (.take rfl .done)
    · next hbracket =>
      refine .take rfl (.pass (if_neg (peek_ne (by simp) hbracket)) ?_)
      refine .bind ih.pipe rfl fun stop ls₂ => ?_
      exact .expect fun _ => .done
    · next hbracket hcolon =>
      refine .pass (if_neg (peek_ne (by simp) hcolon)) ?_
      exact .expect fun _ => .done

theorem objectEntries_follow : Follows [.entries] ls (objectEntries (n + 1) ls) := by
  unfold objectEntries
  split
  · exact .take rfl .done
  · next hbrace =>
    refine ih.objectEntry (peek_ne (by simp) hbrace) fun e ls₁ => ?_
    dsimp only
    split
    · exact .take rfl (.bind ih.objectEntries rfl fun _ _ => .done)
    · next hcomma =>
      refine .pass (if_neg (peek_ne (by simp) hcomma)) ?_
      exact .expect fun _ => .done

theorem objectEntry_follows {β : Type} {below : List Goal} {f : Node .entry × Lexemes → Parsed (β × Lexemes)}
    (hbrace : peek ls ≠ .rightBrace)
    (hf : ∀ e ls₁, Follows (.entriesRest :: below) ls₁ (f (e, ls₁))) :
    Follows (.entries :: below) ls (objectEntry (n + 1) ls >>= f) := by
  obtain - | ⟨⟨t, o⟩, ls⟩ := ls
  · exact .refused rfl .objectKey
  have hword {key : String} (hkey : wordKey? t = some key)
      (hmove : openEntry t = .take [.after .value, .entriesRest]) :
      Follows (.entries :: below) (⟨t, o⟩ :: ls) (objectEntry (n + 1) (⟨t, o⟩ :: ls) >>= f) := by
    rw [objectEntry_word n o hkey, bind_assoc]
    exact .take hmove (.bind ih.optionalValue rfl fun value ls₁ => hf _ ls₁)
  cases t with
  | ident name => exact hword rfl rfl
  | keyword k => exact hword rfl rfl
  | rightBrace => exact absurd rfl hbrace
  | «variable» name => exact .take rfl (hf _ ls)
  | str parts =>
    rw [objectEntry, bind_assoc]
    refine .string (step_take rfl) List.mem_cons_self fun x => ?_
    rw [bind_assoc]
    exact .bind ih.optionalValue rfl fun value ls₁ => hf _ ls₁
  | leftParen =>
    rw [objectEntry, bind_assoc]
    refine .take rfl (.bind ih.pipe rfl fun key ls₁ => ?_)
    dsimp only
    rw [bind_assoc]
    refine .expect fun ls₂ => ?_
    rw [bind_assoc]
    refine .expect fun ls₃ => ?_
    rw [bind_assoc]
    exact .pass rfl (.bind ih.objectValue rfl fun value ls₄ => hf _ ls₄)
  | _ => exact .refused rfl .objectKey

theorem objectValue_follows : Follows [.term, .more .values] ls (objectValue (n + 1) ls) := by
  rw [objectValue]
  refine .bind ih.term rfl fun t ls₁ => ?_
  dsimp only
  split
  · exact .take rfl (.bind ih.objectValue rfl fun _ _ => .done)
  · next hnext => exact .pass (if_neg (peek_ne (by simp) hnext)) .done

theorem pattern_follows : Follows [.pattern] ls (pattern (n + 1) ls) := by
  obtain - | ⟨⟨t, o⟩, ls⟩ := ls
  · exact .refused rfl .pattern
  cases t with
  | «variable» name => exact .take rfl .done
  | leftBracket =>
    refine .take rfl (.bind ih.patternItems rfl fun items ls₁ => ?_)
    exact .expect fun _ => .done
  | leftBrace =>
    refine .take rfl (.bind ih.patternEntries rfl fun entries ls₁ => ?_)
    exact .expect fun _ => .done
  | _ => exact .refused rfl .pattern

theorem patternEntry_follows : Follows [.patternEntry] ls (patternEntry (n + 1) ls) := by
  obtain - | ⟨⟨t, o⟩, ls⟩ := ls
  · exact .refused rfl .patternKey
  have hword {key : String} (hkey : wordKey? t = some key)
      (hmove : openPatternEntry t = .take [.sign .colon, .pattern]) :
      Follows [.patternEntry] (⟨t, o⟩ :: ls) (patternEntry (n + 1) (⟨t, o⟩ :: ls)) := by
    rw [patternEntry_word n o hkey]
    refine .take hmove (.expect fun ls₁ => ?_)
    exact .bind ih.pattern rfl fun _ _ => .done
  cases t with
  | ident name => exact hword rfl rfl
  | keyword k => exact hword rfl rfl
  | «variable» name =>
    rw [patternEntry_variable]
    refine .take rfl (.bind (.optionally .pattern fun _ => ih.pattern) rfl fun _ _ => .done)
  | str parts =>
    refine .string (step_take rfl) List.mem_cons_self fun x => .expect fun ls₁ => ?_
    exact .bind ih.pattern rfl fun _ _ => .done
  | leftParen =>
    refine .take rfl (.bind ih.pipe rfl fun key ls₁ => .expect fun ls₂ => ?_)
    refine .expect fun ls₃ => ?_
    exact .bind ih.pattern rfl fun _ _ => .done
  | _ => exact .refused rfl .patternKey

theorem branches_follow : Follows [.branches] ls (branches (n + 1) ls) := by
  unfold branches
  split
  · refine .take rfl (.bind ih.pipe rfl fun cond ls₁ => .expect fun ls₂ => ?_)
    refine .bind ih.pipe rfl fun thenBranch ls₃ => ?_
    exact .bind ih.branches rfl fun _ _ => .done
  · next hnext => exact .pass (if_neg (peek_ne (by simp) hnext)) .done

theorem keyword_follows (word : Keyword) (o : Nat) :
    Follows [.primary] (⟨.keyword word, o⟩ :: ls) (primary (n + 1) (⟨.keyword word, o⟩ :: ls)) := by
  cases word with
  | «if» =>
    refine .take rfl (.bind ih.pipe rfl fun cond ls₁ => .expect fun ls₂ => ?_)
    refine .bind ih.pipe rfl fun thenBranch ls₃ => ?_
    refine .bind ih.branches rfl fun elifs ls₄ => ?_
    refine .bind ih.elseBranch rfl fun elseBranch ls₅ => .expect fun _ => .done
  | «try» =>
    refine .take rfl (.bind ih.term rfl fun body ls₁ => ?_)
    dsimp only
    split
    · exact .take rfl (.bind ih.term rfl fun _ _ => .done)
    · next hnext => exact .pass (if_neg (peek_ne (by simp) hnext)) .done
  | reduce =>
    refine .take rfl (.bind ih.term rfl fun source ls₁ => .expect fun ls₂ => ?_)
    refine .bind ih.pattern rfl fun p ls₃ => .expect fun ls₄ => ?_
    refine .bind ih.pipe rfl fun start ls₅ => .expect fun ls₆ => ?_
    exact .bind ih.pipe rfl fun update ls₇ => .expect fun _ => .done
  | «foreach» =>
    refine .take rfl (.bind ih.term rfl fun source ls₁ => .expect fun ls₂ => ?_)
    refine .bind ih.pattern rfl fun p ls₃ => .expect fun ls₄ => ?_
    refine .bind ih.pipe rfl fun start ls₅ => .expect fun ls₆ => ?_
    refine .bind ih.pipe rfl fun update ls₇ => ?_
    exact .bind ih.extraction rfl fun extract ls₈ => .expect fun _ => .done
  | label =>
    refine .take rfl (.variableName fun name ls₁ => .expect fun ls₂ => ?_)
    exact .bind ih.pipe rfl fun _ _ => .done
  | «break» => exact .take rfl (.variableName fun name ls₁ => .done)
  | _ => exact .refused rfl .term

theorem primary_follows : Follows [.primary] ls (primary (n + 1) ls) := by
  obtain - | ⟨⟨t, o⟩, ls⟩ := ls
  · exact .refused rfl .term
  cases t with
  | dot =>
    refine .take rfl ?_
    obtain - | ⟨⟨t, o₁⟩, ls⟩ := ls
    · exact .pass rfl .done
    cases t with
    | str parts =>
      exact .string (step_take rfl) List.mem_cons_self fun x => .done
    | leftBracket =>
      refine .take rfl (.bind ih.bracket rfl fun access ls₁ => ?_)
      cases access with
      | none => exact .done
      | some i => exact .done
    | _ => exact .pass rfl .done
  | dotDot | field | number | «variable» => exact .take rfl .done
  | str parts => exact .string (step_take rfl) List.mem_cons_self fun x => .done
  | format name =>
    refine .take rfl ?_
    obtain - | ⟨⟨t, o₁⟩, ls⟩ := ls
    · exact .pass rfl .done
    cases t with
    | str parts => exact .string (step_take rfl) List.mem_cons_self fun x => .done
    | _ => exact .pass rfl .done
  | ident name =>
    refine .take rfl ?_
    by_cases hnext : peek ls = .leftParen
    · obtain - | ⟨⟨t, o₁⟩, ls⟩ := ls
      · cases hnext
      obtain rfl : t = .leftParen := hnext
      refine .take rfl (.bind ih.arguments rfl fun args ls₁ => ?_)
      exact .expect fun _ => .done
    · rw [primary_name n name o hnext]
      exact .pass (if_neg hnext) .done
  | leftParen =>
    refine .take rfl (.bind ih.pipe rfl fun q ls₁ => ?_)
    exact .expect fun _ => .done
  | leftBracket =>
    refine .take rfl ?_
    by_cases hnext : peek ls = .rightBracket
    · obtain - | ⟨⟨t, o₁⟩, ls⟩ := ls
      · cases hnext
      obtain rfl : t = .rightBracket := hnext
      exact .take rfl .done
    · rw [primary_array n o hnext]
      refine .pass (if_neg hnext) (.bind ih.pipe rfl fun q ls₁ => ?_)
      exact .expect fun _ => .done
  | leftBrace => exact .take rfl (.bind ih.objectEntries rfl fun _ _ => .done)
  | op operator =>
    cases operator with
    | sub | add => exact .take rfl (.bind ih.term rfl fun _ _ => .done)
    | _ => exact .refused rfl .term
  | keyword word => exact keyword_follows ih word o
  | _ => exact .refused rfl .term

end

/-- **Every production follows its goals**, with any number of steps. -/
theorem simulates : ∀ n : Nat, Simulates n
  | 0 => by constructor <;> intros <;> trivial
  | n + 1 =>
    have ih := simulates n
    { definition := definition_follows ih
      pipe := pipe_follows ih
      binary := binary_follows ih
      binaryRest := binaryRest_follows ih
      operand := operand_follows ih
      alternatives := alternatives_follow ih
      term := term_follows ih
      primary := primary_follows ih
      arguments := arguments_follow ih
      suffixes := suffixes_follow ih
      bracket := bracket_follows ih
      objectEntries := objectEntries_follow ih
      objectEntry := objectEntry_follows ih
      optionalValue := optionalValue_follows ih
      objectValue := objectValue_follows ih
      pattern := pattern_follows ih
      patternItems := patternItems_follow ih
      patternEntries := patternEntries_follow ih
      patternEntry := patternEntry_follows ih
      branches := branches_follow ih
      elseBranch := elseBranch_follows ih
      extraction := extraction_follows ih }

end Grammar
end DefTable
