import DefTable.Proofs.Coupling

/-!
# Productions in coupled runs

In coupled runs every production ends in the same way, with any two numbers of steps that are large enough for the
weight of what the first run has in front of it (`Coupling.Lockstep`): one step of every production is made of
productions that have less in front of them, or as much but a smaller rank. So a whole source and its counterpart end
alike (`Coupling.whole_agree`, `Coupling.definitions_agree`).
-/

namespace DefTable
namespace Grammar
namespace Coupling

variable {κ : Coupling}

/-! ## All productions at once -/

variable (κ) in
/-- **With `m` and with `n` steps the productions end alike** on all paired lexemes that `k` steps are enough for.
Sixteen steps for each unit of weight leave room for the ranks of the productions. -/
structure Lockstep (k m n : Nat) : Prop where
  definition {i ls ls'} : κ.alike i ls ls' → 16 * weight ls + 1 ≤ k →
    κ.Agree (κ.Leaves i (weight ls)) (definition m ls) (definition n ls')
  pipe {i ls ls'} : κ.alike i ls ls' → 16 * weight ls + 5 ≤ k →
    κ.Agree (κ.Leaves i (weight ls)) (pipe m ls) (pipe n ls')
  binary {i ls ls'} (p) : κ.alike i ls ls' → 16 * weight ls + 4 ≤ k →
    κ.Agree (κ.Leaves i (weight ls)) (binary m p ls) (binary n p ls')
  binaryRest {i ls ls'} (p q) : κ.alike i ls ls' → 16 * weight ls + 1 ≤ k →
    κ.Agree (κ.Leaves i (weight ls + 1)) (binaryRest m p q ls) (binaryRest n p q ls')
  operand {i ls ls'} : κ.alike i ls ls' → 16 * weight ls + 3 ≤ k →
    κ.Agree (κ.Leaves i (weight ls)) (operand m ls) (operand n ls')
  alternatives {i ls ls'} : κ.patterns i ls ls' → 16 * weight ls + 2 ≤ k →
    κ.Agree (κ.Leaves i (weight ls)) (alternatives m ls) (alternatives n ls')
  term {i ls ls'} : κ.alike i ls ls' → 16 * weight ls + 2 ≤ k →
    κ.Agree (κ.Leaves i (weight ls)) (term m ls) (term n ls')
  primary {i ls ls'} : κ.alike i ls ls' → 16 * weight ls + 1 ≤ k →
    κ.Agree (κ.Leaves i (weight ls)) (primary m ls) (primary n ls')
  arguments {i ls ls'} : κ.alike i ls ls' → 16 * weight ls + 6 ≤ k →
    κ.Agree (κ.Leaves i (weight ls)) (arguments m ls) (arguments n ls')
  suffixes {i ls ls'} : κ.alike i ls ls' → 16 * weight ls + 1 ≤ k →
    κ.Agree (κ.Leaves i (weight ls + 1)) (suffixes m ls) (suffixes n ls')
  bracket {i ls ls'} : κ.alike i ls ls' → 16 * weight ls + 6 ≤ k →
    κ.Agree (κ.Leaves i (weight ls)) (bracket m ls) (bracket n ls')
  string {parts parts'} : List.Forall₂ κ.Part parts parts' → 16 * Token.partsWeight parts + 2 ≤ k →
    κ.Agree Eq (string m parts) (string n parts')
  fragments {parts parts'} : List.Forall₂ κ.Part parts parts' → 16 * Token.partsWeight parts + 1 ≤ k →
    κ.Agree Eq (fragments m parts) (fragments n parts')
  whole {source source' o o'} : κ.nested source o source' o' → 16 * (source.length + 1) + 6 ≤ k →
    κ.Agree Eq (whole m source o) (whole n source' o')
  objectEntries {i ls ls'} : κ.alike i ls ls' → 16 * weight ls + 2 ≤ k →
    κ.Agree (κ.Leaves i (weight ls)) (objectEntries m ls) (objectEntries n ls')
  objectEntry {i ls ls'} : κ.alike i ls ls' → 16 * weight ls + 1 ≤ k →
    κ.Agree (κ.Leaves i (weight ls)) (objectEntry m ls) (objectEntry n ls')
  optionalValue {i ls ls'} : κ.alike i ls ls' → 16 * weight ls + 1 ≤ k →
    κ.Agree (κ.Leaves i (weight ls + 1)) (optionalValue m ls) (optionalValue n ls')
  objectValue {i ls ls'} : κ.alike i ls ls' → 16 * weight ls + 3 ≤ k →
    κ.Agree (κ.Leaves i (weight ls)) (objectValue m ls) (objectValue n ls')
  pattern {i ls ls'} : κ.alike i ls ls' → 16 * weight ls + 1 ≤ k →
    κ.Agree (κ.Leaves i (weight ls)) (pattern m ls) (pattern n ls')
  patternItems {i ls ls'} : κ.alike i ls ls' → 16 * weight ls + 2 ≤ k →
    κ.Agree (κ.Leaves i (weight ls)) (patternItems m ls) (patternItems n ls')
  patternEntries {i ls ls'} : κ.alike i ls ls' → 16 * weight ls + 2 ≤ k →
    κ.Agree (κ.Leaves i (weight ls)) (patternEntries m ls) (patternEntries n ls')
  patternEntry {i ls ls'} : κ.alike i ls ls' → 16 * weight ls + 1 ≤ k →
    κ.Agree (κ.Leaves i (weight ls)) (patternEntry m ls) (patternEntry n ls')
  branches {i ls ls'} : κ.alike i ls ls' → 16 * weight ls + 1 ≤ k →
    κ.Agree (κ.Leaves i (weight ls + 1)) (branches m ls) (branches n ls')
  elseBranch {i ls ls'} : κ.alike i ls ls' → 16 * weight ls + 1 ≤ k →
    κ.Agree (κ.Leaves i (weight ls + 1)) (elseBranch m ls) (elseBranch n ls')
  extraction {i ls ls'} : κ.alike i ls ls' → 16 * weight ls + 1 ≤ k →
    κ.Agree (κ.Leaves i (weight ls + 1)) (extraction m ls) (extraction n ls')

theorem isFixed_of_operator? {ls : Lexemes} {op : Operator} (h : operator? ls = some op) :
    (peek ls).isFixed = true := by
  unfold operator? at h
  split at h
  · next hpeek => rw [hpeek]; rfl
  · next hpeek => rw [hpeek]; rfl
  · next hpeek => rw [hpeek]; rfl
  · cases h

section
variable {k m n : Nat} (ih : κ.Lockstep k m n) {i : κ.Mode} {ls ls' : Lexemes} (hls : κ.alike i ls ls')
include ih hls

theorem definition_step (hk : 16 * weight ls + 1 ≤ k + 1) :
    κ.Agree (κ.Leaves i (weight ls)) (definition (m + 1) ls) (definition (n + 1) ls') := by
  unfold definition
  refine (expect_agree rfl hls).bind fun ls₁ ls₁' h₁ => ?_
  have := h₁.2
  refine (definitionName_agree h₁.1).before fun name ls₂ ls₂' h₂ hlt₂ => ?_
  refine (parameterList_agree h₂).before fun params ls₃ ls₃' h₃ hlt₃ => ?_
  refine (expect_agree rfl h₃).bind fun ls₄ ls₄' h₄ => ?_
  have := h₄.2
  refine (ih.pipe h₄.1 (by omega)).before fun body ls₅ ls₅' h₅ hlt₅ => ?_
  refine (expect_agree rfl h₅).bind fun ls₆ ls₆' h₆ => .left h₆.1 ?_
  have := h₆.2
  omega

theorem pipe_step (hk : 16 * weight ls + 5 ≤ k + 1) :
    κ.Agree (κ.Leaves i (weight ls)) (pipe (m + 1) ls) (pipe (n + 1) ls') := by
  unfold pipe
  by_cases hpeek : peek ls = .keyword .define
  · rw [if_pos hpeek, if_pos ((peek_eq_iff hls rfl).2 hpeek)]
    refine (ih.definition hls (by omega)).before fun d _ _ h₁ hlt₁ => ?_
    exact (ih.pipe h₁ (by omega)).before fun q _ _ h₂ hlt₂ => .left h₂ (by omega)
  · rw [if_neg hpeek, if_neg (mt (peek_eq_iff hls rfl).1 hpeek)]
    exact ih.binary 1 hls (by omega)

theorem rightOperand_agree (op : Operator) (hk : 16 * weight ls + 5 ≤ k) :
    κ.Agree (κ.Leaves i (weight ls)) (rightOperand m op ls) (rightOperand n op ls') := by
  unfold rightOperand
  by_cases hpipe : op = .pipe
  · simp only [if_pos hpipe]
    exact ih.pipe hls hk
  · simp only [if_neg hpipe]
    split
    · exact ih.binary _ hls (by omega)
    · exact ih.binary _ hls (by omega)

theorem binary_step {p : Nat} (hk : 16 * weight ls + 4 ≤ k + 1) :
    κ.Agree (κ.Leaves i (weight ls)) (binary (m + 1) p ls) (binary (n + 1) p ls') := by
  unfold binary
  refine (ih.operand hls (by omega)).before fun left _ _ h₁ hlt₁ => ?_
  exact (ih.binaryRest p left h₁ (by omega)).leave_more (by omega)

theorem binaryRest_step {p : Nat} {q : Query} (hk : 16 * weight ls + 1 ≤ k + 1) :
    κ.Agree (κ.Leaves i (weight ls + 1)) (binaryRest (m + 1) p q ls) (binaryRest (n + 1) p q ls') := by
  rw [binaryRest_succ, binaryRest_succ, operator?_eq hls]
  cases hop : operator? ls with
  | none => exact .left hls (Nat.lt_succ_self _)
  | some op =>
    obtain ⟨htail, hless⟩ := tail hls (isFixed_of_operator? hop)
    by_cases hp : op.precedence < p
    · simp only [if_pos hp]
      exact .left hls (Nat.lt_succ_self _)
    · simp only [if_neg hp]
      refine (rightOperand_agree ih htail op (by omega)).before fun right _ _ h₁ hlt₁ => ?_
      dsimp only
      rw [operator?_eq h₁]
      split
      · exact unexpected_agree h₁ _
      · exact (ih.binaryRest _ _ h₁ (by omega)).leave_more (by omega)

theorem arguments_step (hk : 16 * weight ls + 6 ≤ k + 1) :
    κ.Agree (κ.Leaves i (weight ls)) (arguments (m + 1) ls) (arguments (n + 1) ls') := by
  rw [arguments_succ, arguments_succ]
  exact separated_agree rfl (ih.pipe hls (by omega)) fun h hlt => ih.arguments h (by omega)

theorem patternItems_step (hk : 16 * weight ls + 2 ≤ k + 1) :
    κ.Agree (κ.Leaves i (weight ls)) (patternItems (m + 1) ls) (patternItems (n + 1) ls') := by
  rw [patternItems_succ, patternItems_succ]
  exact separated_agree rfl (ih.pattern hls (by omega)) fun h hlt => ih.patternItems h (by omega)

theorem patternEntries_step (hk : 16 * weight ls + 2 ≤ k + 1) :
    κ.Agree (κ.Leaves i (weight ls)) (patternEntries (m + 1) ls) (patternEntries (n + 1) ls') := by
  rw [patternEntries_succ, patternEntries_succ]
  exact separated_agree rfl (ih.patternEntry hls (by omega)) fun h hlt => ih.patternEntries h (by omega)

theorem optionalValue_step (hk : 16 * weight ls + 1 ≤ k + 1) :
    κ.Agree (κ.Leaves i (weight ls + 1)) (optionalValue (m + 1) ls) (optionalValue (n + 1) ls') := by
  rw [optionalValue_succ, optionalValue_succ]
  exact optionally_agree rfl hls fun h hlt => ih.objectValue h (by omega)

theorem elseBranch_step (hk : 16 * weight ls + 1 ≤ k + 1) :
    κ.Agree (κ.Leaves i (weight ls + 1)) (elseBranch (m + 1) ls) (elseBranch (n + 1) ls') := by
  rw [elseBranch_succ, elseBranch_succ]
  exact optionally_agree rfl hls fun h hlt => ih.pipe h (by omega)

theorem extraction_step (hk : 16 * weight ls + 1 ≤ k + 1) :
    κ.Agree (κ.Leaves i (weight ls + 1)) (extraction (m + 1) ls) (extraction (n + 1) ls') := by
  rw [extraction_succ, extraction_succ]
  exact optionally_agree rfl hls fun h hlt => ih.pipe h (by omega)

theorem term_step (hk : 16 * weight ls + 2 ≤ k + 1) :
    κ.Agree (κ.Leaves i (weight ls)) (term (m + 1) ls) (term (n + 1) ls') := by
  unfold term
  refine (ih.primary hls (by omega)).before fun t _ _ h₁ hlt₁ => ?_
  exact (ih.suffixes h₁ (by omega)).before fun ss _ _ h₂ hlt₂ => .left h₂ (by omega)

theorem operand_step (hk : 16 * weight ls + 3 ≤ k + 1) :
    κ.Agree (κ.Leaves i (weight ls)) (operand (m + 1) ls) (operand (n + 1) ls') := by
  unfold operand
  refine (ih.term hls (by omega)).before fun t ls₁ ls₁' h₁ hlt₁ => ?_
  dsimp only
  rcases next_as h₁ with ⟨o, o', rest, rest', rfl, rfl, hrest⟩ | ⟨hne, hne'⟩
  · simp only [weight_cons, Token.weight] at hlt₁
    refine (ih.alternatives hrest (by omega)).before fun patterns _ _ h₂ hlt₂ => ?_
    refine (expect_agree rfl h₂).bind fun ls₃ ls₃' h₃ => ?_
    have := h₃.2
    exact (ih.pipe h₃.1 (by omega)).before fun body _ _ h₄ hlt₄ => .left h₄ (by omega)
  · split
    · exact absurd rfl hne
    · split
      · exact absurd rfl hne'
      · exact .left h₁ hlt₁

theorem objectValue_step (hk : 16 * weight ls + 3 ≤ k + 1) :
    κ.Agree (κ.Leaves i (weight ls)) (objectValue (m + 1) ls) (objectValue (n + 1) ls') := by
  unfold objectValue
  refine (ih.term hls (by omega)).before fun left ls₁ ls₁' h₁ hlt₁ => ?_
  dsimp only
  rcases next h₁ (t := .op .pipe) rfl with ⟨o, o', rest, rest', rfl, rfl, hrest⟩ | ⟨hne, hne'⟩
  · simp only [weight_cons, Token.weight] at hlt₁
    exact (ih.objectValue hrest (by omega)).before fun right _ _ h₂ hlt₂ => .left h₂ (by omega)
  · split
    · exact absurd rfl hne
    · split
      · exact absurd rfl hne'
      · exact .left h₁ hlt₁

theorem branches_step (hk : 16 * weight ls + 1 ≤ k + 1) :
    κ.Agree (κ.Leaves i (weight ls + 1)) (branches (m + 1) ls) (branches (n + 1) ls') := by
  unfold branches
  rcases next hls (t := .keyword .elif) rfl with ⟨o, o', rest, rest', rfl, rfl, hrest⟩ | ⟨hne, hne'⟩
  · simp only [weight_cons, Token.weight] at hk ⊢
    refine (ih.pipe hrest (by omega)).before fun cond _ _ h₁ hlt₁ => ?_
    refine (expect_agree rfl h₁).bind fun ls₂ ls₂' h₂ => ?_
    have := h₂.2
    refine (ih.pipe h₂.1 (by omega)).before fun thenBranch _ _ h₃ hlt₃ => ?_
    exact (ih.branches h₃ (by omega)).before fun bs _ _ h₄ hlt₄ => .left h₄ (by omega)
  · split
    · exact absurd rfl hne
    · split
      · exact absurd rfl hne'
      · exact .left hls (Nat.lt_succ_self _)

theorem objectEntries_step (hk : 16 * weight ls + 2 ≤ k + 1) :
    κ.Agree (κ.Leaves i (weight ls)) (objectEntries (m + 1) ls) (objectEntries (n + 1) ls') := by
  unfold objectEntries
  rcases next hls (t := .rightBrace) rfl with ⟨o, o', rest, rest', rfl, rfl, hrest⟩ | ⟨hne, hne'⟩
  · simp only [weight_cons, Token.weight]
    exact .left hrest (by omega)
  split
  · exact absurd rfl hne
  split
  · exact absurd rfl hne'
  refine (ih.objectEntry hls (by omega)).before fun e ls₁ ls₁' h₁ hlt₁ => ?_
  dsimp only
  rcases next h₁ (t := .op .comma) rfl with ⟨o, o', rest, rest', rfl, rfl, hrest⟩ | ⟨hne, hne'⟩
  · simp only [weight_cons, Token.weight] at hlt₁
    exact (ih.objectEntries hrest (by omega)).before fun es _ _ h₂ hlt₂ => .left h₂ (by omega)
  · split
    · exact absurd rfl hne
    · split
      · exact absurd rfl hne'
      · refine (expect_agree rfl h₁).bind fun ls₂ ls₂' h₂ => .left h₂.1 ?_
        have := h₂.2
        omega

theorem bracket_step (hk : 16 * weight ls + 6 ≤ k + 1) :
    κ.Agree (κ.Leaves i (weight ls)) (bracket (m + 1) ls) (bracket (n + 1) ls') := by
  unfold bracket
  rcases next hls (t := .rightBracket) rfl with ⟨o, o', rest, rest', rfl, rfl, hrest⟩ | ⟨hne, hne'⟩
  · simp only [weight_cons, Token.weight]
    exact .left hrest (by omega)
  rcases next hls (t := .colon) rfl with ⟨o, o', rest, rest', rfl, rfl, hrest⟩ | ⟨hcolon, hcolon'⟩
  · simp only [weight_cons, Token.weight] at hk ⊢
    refine (ih.pipe hrest (by omega)).before fun stop _ _ h₁ hlt₁ => ?_
    refine (expect_agree rfl h₁).bind fun ls₂ ls₂' h₂ => .left h₂.1 ?_
    have := h₂.2
    omega
  split
  · exact absurd rfl hne
  · exact absurd rfl hcolon
  split
  · exact absurd rfl hne'
  · exact absurd rfl hcolon'
  refine (ih.pipe hls (by omega)).before fun start ls₁ ls₁' h₁ hlt₁ => ?_
  dsimp only
  rcases next h₁ (t := .colon) rfl with ⟨o, o', rest, rest', rfl, rfl, hrest⟩ | ⟨hcolon, hcolon'⟩
  · simp only [weight_cons, Token.weight] at hlt₁
    rcases next hrest (t := .rightBracket) rfl with ⟨o, o', rest, rest', rfl, rfl, hclosed⟩ | ⟨hne, hne'⟩
    · simp only [weight_cons, Token.weight] at hlt₁
      exact .left hclosed (by omega)
    · split
      · next heq => cases heq; exact absurd rfl hne
      · next heq =>
        cases heq
        split
        · next heq => cases heq; exact absurd rfl hne'
        · next heq =>
          cases heq
          refine (ih.pipe hrest (by omega)).before fun stop _ _ h₂ hlt₂ => ?_
          refine (expect_agree rfl h₂).bind fun ls₃ ls₃' h₃ => .left h₃.1 ?_
          have := h₃.2
          omega
        · next _ hnot => exact absurd rfl (hnot _ _)
      · next _ hnot => exact absurd rfl (hnot _ _)
  · split
    · exact absurd rfl hcolon
    · exact absurd rfl hcolon
    · split
      · exact absurd rfl hcolon'
      · exact absurd rfl hcolon'
      · refine (expect_agree rfl h₁).bind fun ls₂ ls₂' h₂ => .left h₂.1 ?_
        have := h₂.2
        omega

theorem pattern_step (hk : 16 * weight ls + 1 ≤ k + 1) :
    κ.Agree (κ.Leaves i (weight ls)) (pattern (m + 1) ls) (pattern (n + 1) ls') := by
  unfold pattern
  cases κ.begins hls with
  | @plain t o o' ls ls' ht hsign h has =>
    simp only [weight_cons] at hk ⊢
    have := t.weight_pos
    cases t with
    | «variable» name => exact .left h (by omega)
    | leftBracket =>
      refine (ih.patternItems h (by omega)).before fun items _ _ h₁ hlt₁ => ?_
      refine (expect_agree rfl h₁).bind fun ls₂ ls₂' h₂ => .left h₂.1 ?_
      have := h₂.2
      omega
    | leftBrace =>
      refine (ih.patternEntries h (by omega)).before fun entries _ _ h₁ hlt₁ => ?_
      refine (expect_agree rfl h₁).bind fun ls₂ ls₂' h₂ => .left h₂.1 ?_
      have := h₂.2
      omega
    | _ => exact unexpected_agree hls _
  | _ => exact unexpected_agree hls _

theorem suffixes_step (hk : 16 * weight ls + 1 ≤ k + 1) :
    κ.Agree (κ.Leaves i (weight ls + 1)) (suffixes (m + 1) ls) (suffixes (n + 1) ls') := by
  have hend : κ.Agree (κ.Leaves i (weight ls + 1)) (Except.ok (([] : List Suffix), ls)) (Except.ok ([], ls')) :=
    .left hls (Nat.lt_succ_self _)
  unfold suffixes
  cases κ.begins hls with
  | finish => exact hend
  | string => exact hend
  | @sign o o' ls ls' h | @parted o o' o₁ ls ls' h =>
    have hw : weight (⟨.op .alt, o⟩ :: ls) = 1 + weight ls := weight_cons _ _
    simp only [weight_cons, Token.weight] at hk ⊢
    exact (ih.suffixes h (by omega)).before fun ss _ _ h₁ hlt₁ => .left h₁ (by omega)
  | @plain t o o' ls ls' ht hsign h has =>
    cases t with
    | field name | question =>
      simp only [weight_cons, Token.weight] at hk ⊢
      exact (ih.suffixes h (by omega)).before fun ss _ _ h₁ hlt₁ => .left h₁ (by omega)
    | leftBracket =>
      simp only [weight_cons, Token.weight] at hk ⊢
      refine (ih.bracket h (by omega)).before fun access _ _ h₁ hlt₁ => ?_
      exact (ih.suffixes h₁ (by omega)).before fun ss _ _ h₂ hlt₂ => .left h₂ (by omega)
    | dot =>
      cases κ.begins h with
      | @string parts parts' o₁ o₁' ls ls' hparts hrest =>
        simp only [weight_cons, Token.weight] at hk ⊢
        refine (ih.string hparts (by omega)).bind fun text _ heq => ?_
        subst heq
        exact (ih.suffixes hrest (by omega)).before fun ss _ _ h₁ hlt₁ => .left h₁ (by omega)
      | @plain t o₁ o₁' ls ls' ht₁ hsign₁ hrest has₁ =>
        cases t with
        | leftBracket =>
          simp only [weight_cons, Token.weight] at hk ⊢
          refine (ih.bracket hrest (by omega)).before fun access _ _ h₁ hlt₁ => ?_
          exact (ih.suffixes h₁ (by omega)).before fun ss _ _ h₂ hlt₂ => .left h₂ (by omega)
        | str => cases ht₁
        | _ => exact hend
      | _ => exact hend
    | alternative => exact absurd rfl hsign
    | _ => exact hend

theorem objectEntry_step (hk : 16 * weight ls + 1 ≤ k + 1) :
    κ.Agree (κ.Leaves i (weight ls)) (objectEntry (m + 1) ls) (objectEntry (n + 1) ls') := by
  cases κ.begins hls with
  | @string parts parts' o o' ls ls' hparts h =>
    simp only [weight_cons, Token.weight] at hk ⊢
    refine (ih.string hparts (by omega)).bind fun text _ heq => ?_
    subst heq
    exact (ih.optionalValue h (by omega)).before fun value _ _ h₁ hlt₁ => .left h₁ (by omega)
  | @plain t o o' ls ls' ht hsign h has =>
    have hword : ∀ key, wordKey? t = some key → κ.Agree (κ.Leaves i (weight (⟨t, o⟩ :: ls)))
        (objectEntry (m + 1) (⟨t, o⟩ :: ls)) (objectEntry (n + 1) (⟨t, o'⟩ :: ls')) := by
      intro key hkey
      rw [objectEntry_word m o hkey, objectEntry_word n o' hkey]
      have := t.weight_pos
      simp only [weight_cons] at hk ⊢
      exact (ih.optionalValue h (by omega)).before fun value _ _ h₁ hlt₁ => .left h₁ (by omega)
    cases t with
    | «variable» name => exact .left h (by simp only [weight_cons, Token.weight]; omega)
    | leftParen =>
      simp only [weight_cons, Token.weight] at hk ⊢
      refine (ih.pipe h (by omega)).before fun key _ _ h₁ hlt₁ => ?_
      refine (expect_agree rfl h₁).bind fun ls₂ ls₂' h₂ => ?_
      refine (expect_agree rfl h₂.1).bind fun ls₃ ls₃' h₃ => ?_
      have := h₂.2
      have := h₃.2
      exact (ih.objectValue h₃.1 (by omega)).before fun value _ _ h₄ hlt₄ => .left h₄ (by omega)
    | ident name => exact hword name rfl
    | keyword word => exact hword word.text rfl
    | str => cases ht
    | _ => exact unexpected_agree hls _
  | _ => exact unexpected_agree hls _

theorem patternEntry_step (hk : 16 * weight ls + 1 ≤ k + 1) :
    κ.Agree (κ.Leaves i (weight ls)) (patternEntry (m + 1) ls) (patternEntry (n + 1) ls') := by
  cases κ.begins hls with
  | @string parts parts' o o' ls ls' hparts h =>
    simp only [weight_cons, Token.weight] at hk ⊢
    refine (ih.string hparts (by omega)).bind fun text _ heq => ?_
    subst heq
    refine (expect_agree rfl h).bind fun ls₁ ls₁' h₁ => ?_
    have := h₁.2
    exact (ih.pattern h₁.1 (by omega)).before fun p _ _ h₂ hlt₂ => .left h₂ (by omega)
  | @plain t o o' ls ls' ht hsign h has =>
    have hword : ∀ key, wordKey? t = some key → κ.Agree (κ.Leaves i (weight (⟨t, o⟩ :: ls)))
        (patternEntry (m + 1) (⟨t, o⟩ :: ls)) (patternEntry (n + 1) (⟨t, o'⟩ :: ls')) := by
      intro key hkey
      rw [patternEntry_word m o hkey, patternEntry_word n o' hkey]
      have := t.weight_pos
      simp only [weight_cons] at hk ⊢
      refine (expect_agree rfl h).bind fun ls₁ ls₁' h₁ => ?_
      have := h₁.2
      exact (ih.pattern h₁.1 (by omega)).before fun p _ _ h₂ hlt₂ => .left h₂ (by omega)
    cases t with
    | «variable» name =>
      simp only [weight_cons, Token.weight] at hk ⊢
      have hvalue : κ.Agree (κ.Leaves i (weight ls + 1)) (optionally .colon (pattern m) ls)
          (optionally .colon (pattern n) ls') :=
        optionally_agree rfl h fun h₁ hlt => ih.pattern h₁ (by omega)
      rw [patternEntry_variable, patternEntry_variable]
      exact hvalue.before fun p _ _ h₁ hlt₁ => .left h₁ (by omega)
    | leftParen =>
      simp only [weight_cons, Token.weight] at hk ⊢
      refine (ih.pipe h (by omega)).before fun key _ _ h₁ hlt₁ => ?_
      refine (expect_agree rfl h₁).bind fun ls₂ ls₂' h₂ => ?_
      refine (expect_agree rfl h₂.1).bind fun ls₃ ls₃' h₃ => ?_
      have := h₂.2
      have := h₃.2
      exact (ih.pattern h₃.1 (by omega)).before fun p _ _ h₄ hlt₄ => .left h₄ (by omega)
    | ident name => exact hword name rfl
    | keyword word => exact hword word.text rfl
    | str => cases ht
    | _ => exact unexpected_agree hls _
  | _ => exact unexpected_agree hls _

theorem primary_dot_step {o o' : Nat} (hk : 16 * weight (⟨.dot, o⟩ :: ls) + 1 ≤ k + 1) :
    κ.Agree (κ.Leaves i (weight (⟨.dot, o⟩ :: ls))) (primary (m + 1) (⟨.dot, o⟩ :: ls))
      (primary (n + 1) (⟨.dot, o'⟩ :: ls')) := by
  simp only [weight_cons, Token.weight] at hk ⊢
  unfold primary
  cases κ.begins hls with
  | @string parts parts' o₁ o₁' ls ls' hparts h =>
    simp only [weight_cons, Token.weight] at hk ⊢
    refine (ih.string hparts (by omega)).bind fun text _ heq => ?_
    subst heq
    exact .left h (by omega)
  | @plain t o₁ o₁' ls ls' ht hsign h has =>
    cases t with
    | leftBracket =>
      simp only [weight_cons, Token.weight] at hk ⊢
      refine (ih.bracket h (by omega)).before fun access _ _ h₁ hlt₁ => ?_
      cases access with
      | none => exact .left h₁ (by omega)
      | some i => exact .left h₁ (by omega)
    | str => cases ht
    | _ => exact .left hls (by omega)
  | _ => exact .left hls (by omega)

theorem primary_format_step {name : String} {o o' : Nat} (hk : 16 * weight (⟨.format name, o⟩ :: ls) + 1 ≤ k + 1) :
    κ.Agree (κ.Leaves i (weight (⟨.format name, o⟩ :: ls))) (primary (m + 1) (⟨.format name, o⟩ :: ls))
      (primary (n + 1) (⟨.format name, o'⟩ :: ls')) := by
  simp only [weight_cons, Token.weight] at hk ⊢
  unfold primary
  cases κ.begins hls with
  | @string parts parts' o₁ o₁' ls ls' hparts h =>
    simp only [weight_cons, Token.weight] at hk ⊢
    refine (ih.string hparts (by omega)).bind fun text _ heq => ?_
    subst heq
    exact .left h (by omega)
  | @plain t o₁ o₁' ls ls' ht hsign h has =>
    cases t with
    | str => cases ht
    | _ => exact .left hls (by omega)
  | _ => exact .left hls (by omega)

theorem primary_ident_step {name : String} {o o' : Nat} (hk : 16 * weight (⟨.ident name, o⟩ :: ls) + 1 ≤ k + 1) :
    κ.Agree (κ.Leaves i (weight (⟨.ident name, o⟩ :: ls))) (primary (m + 1) (⟨.ident name, o⟩ :: ls))
      (primary (n + 1) (⟨.ident name, o'⟩ :: ls')) := by
  simp only [weight_cons, Token.weight] at hk ⊢
  rcases next hls (t := .leftParen) rfl with ⟨o₁, o₁', rest, rest', rfl, rfl, hrest⟩ | ⟨hne, hne'⟩
  · simp only [weight_cons, Token.weight] at hk ⊢
    unfold primary
    refine (ih.arguments hrest (by omega)).before fun args _ _ h₁ hlt₁ => ?_
    refine (expect_agree rfl h₁).bind fun ls₂ ls₂' h₂ => .left h₂.1 ?_
    have := h₂.2
    omega
  · rw [primary_name _ _ _ hne, primary_name _ _ _ hne']
    exact .left hls (by omega)

theorem primary_bracket_step {o o' : Nat} (hk : 16 * weight (⟨.leftBracket, o⟩ :: ls) + 1 ≤ k + 1) :
    κ.Agree (κ.Leaves i (weight (⟨.leftBracket, o⟩ :: ls))) (primary (m + 1) (⟨.leftBracket, o⟩ :: ls))
      (primary (n + 1) (⟨.leftBracket, o'⟩ :: ls')) := by
  simp only [weight_cons, Token.weight] at hk ⊢
  rcases next hls (t := .rightBracket) rfl with ⟨o₁, o₁', rest, rest', rfl, rfl, hrest⟩ | ⟨hne, hne'⟩
  · exact .left hrest (by simp only [weight_cons, Token.weight]; omega)
  · rw [primary_array _ _ hne, primary_array _ _ hne']
    refine (ih.pipe hls (by omega)).before fun q _ _ h₁ hlt₁ => ?_
    refine (expect_agree rfl h₁).bind fun ls₂ ls₂' h₂ => .left h₂.1 ?_
    have := h₂.2
    omega

theorem primary_keyword_step {word : Keyword} {o o' : Nat}
    (hcons : κ.alike i (⟨.keyword word, o⟩ :: ls) (⟨.keyword word, o'⟩ :: ls'))
    (hk : 16 * weight (⟨.keyword word, o⟩ :: ls) + 1 ≤ k + 1) :
    κ.Agree (κ.Leaves i (weight (⟨.keyword word, o⟩ :: ls))) (primary (m + 1) (⟨.keyword word, o⟩ :: ls))
      (primary (n + 1) (⟨.keyword word, o'⟩ :: ls')) := by
  simp only [weight_cons, Token.weight] at hk ⊢
  unfold primary
  cases word with
  | «if» =>
    refine (ih.pipe hls (by omega)).before fun cond _ _ h₁ hlt₁ => ?_
    refine (expect_agree rfl h₁).bind fun ls₂ ls₂' h₂ => ?_
    have := h₂.2
    refine (ih.pipe h₂.1 (by omega)).before fun thenBranch _ _ h₃ hlt₃ => ?_
    refine (ih.branches h₃ (by omega)).before fun elifs _ _ h₄ hlt₄ => ?_
    refine (ih.elseBranch h₄ (by omega)).before fun elseBranch _ _ h₅ hlt₅ => ?_
    refine (expect_agree rfl h₅).bind fun ls₆ ls₆' h₆ => .left h₆.1 ?_
    have := h₆.2
    omega
  | «try» =>
    refine (ih.term hls (by omega)).before fun body ls₁ ls₁' h₁ hlt₁ => ?_
    dsimp only
    rcases next h₁ (t := .keyword .catch) rfl with ⟨o₁, o₁', rest, rest', rfl, rfl, hrest⟩ | ⟨hne, hne'⟩
    · simp only [weight_cons, Token.weight] at hlt₁
      exact (ih.term hrest (by omega)).before fun handler _ _ h₂ hlt₂ => .left h₂ (by omega)
    · split
      · exact absurd rfl hne
      · split
        · exact absurd rfl hne'
        · exact .left h₁ (by omega)
  | reduce =>
    refine (ih.term hls (by omega)).before fun source _ _ h₁ hlt₁ => ?_
    refine (expect_agree rfl h₁).bind fun ls₂ ls₂' h₂ => ?_
    have := h₂.2
    refine (ih.pattern h₂.1 (by omega)).before fun p _ _ h₃ hlt₃ => ?_
    refine (expect_agree rfl h₃).bind fun ls₄ ls₄' h₄ => ?_
    have := h₄.2
    refine (ih.pipe h₄.1 (by omega)).before fun start _ _ h₅ hlt₅ => ?_
    refine (expect_agree rfl h₅).bind fun ls₆ ls₆' h₆ => ?_
    have := h₆.2
    refine (ih.pipe h₆.1 (by omega)).before fun update _ _ h₇ hlt₇ => ?_
    refine (expect_agree rfl h₇).bind fun ls₈ ls₈' h₈ => .left h₈.1 ?_
    have := h₈.2
    omega
  | «foreach» =>
    refine (ih.term hls (by omega)).before fun source _ _ h₁ hlt₁ => ?_
    refine (expect_agree rfl h₁).bind fun ls₂ ls₂' h₂ => ?_
    have := h₂.2
    refine (ih.pattern h₂.1 (by omega)).before fun p _ _ h₃ hlt₃ => ?_
    refine (expect_agree rfl h₃).bind fun ls₄ ls₄' h₄ => ?_
    have := h₄.2
    refine (ih.pipe h₄.1 (by omega)).before fun start _ _ h₅ hlt₅ => ?_
    refine (expect_agree rfl h₅).bind fun ls₆ ls₆' h₆ => ?_
    have := h₆.2
    refine (ih.pipe h₆.1 (by omega)).before fun update _ _ h₇ hlt₇ => ?_
    refine (ih.extraction h₇ (by omega)).before fun extract _ _ h₈ hlt₈ => ?_
    refine (expect_agree rfl h₈).bind fun ls₉ ls₉' h₉ => .left h₉.1 ?_
    have := h₉.2
    omega
  | label =>
    refine (variableName_agree hls).before fun name _ _ h₁ hlt₁ => ?_
    refine (expect_agree rfl h₁).bind fun ls₂ ls₂' h₂ => ?_
    have := h₂.2
    exact (ih.pipe h₂.1 (by omega)).before fun body _ _ h₃ hlt₃ => .left h₃ (by omega)
  | «break» => exact (variableName_agree hls).before fun name _ _ h₁ hlt₁ => .left h₁ (by omega)
  | _ => exact unexpected_agree hcons _

theorem primary_step (hk : 16 * weight ls + 1 ≤ k + 1) :
    κ.Agree (κ.Leaves i (weight ls)) (primary (m + 1) ls) (primary (n + 1) ls') := by
  cases κ.begins hls with
  | @string parts parts' o o' ls ls' hparts h =>
    simp only [weight_cons, Token.weight] at hk ⊢
    unfold primary
    refine (ih.string hparts (by omega)).bind fun text _ heq => ?_
    subst heq
    exact .left h (by omega)
  | @plain t o o' ls ls' ht hsign h has =>
    cases t with
    | dot => exact primary_dot_step ih h hk
    | format name => exact primary_format_step ih h hk
    | ident name => exact primary_ident_step ih h hk
    | leftBracket => exact primary_bracket_step ih h hk
    | keyword word => exact primary_keyword_step ih h hls hk
    | dotDot => exact .left h (by simp only [weight_cons, Token.weight]; omega)
    | field name => exact .left h (by simp only [weight_cons, Token.weight]; omega)
    | number digits => exact .left h (by simp only [weight_cons, Token.weight]; omega)
    | «variable» name => exact .left h (by simp only [weight_cons, Token.weight]; omega)
    | leftParen =>
      simp only [weight_cons, Token.weight] at hk ⊢
      unfold primary
      refine (ih.pipe h (by omega)).before fun q _ _ h₁ hlt₁ => ?_
      refine (expect_agree rfl h₁).bind fun ls₂ ls₂' h₂ => .left h₂.1 ?_
      have := h₂.2
      omega
    | leftBrace =>
      simp only [weight_cons, Token.weight] at hk ⊢
      unfold primary
      exact (ih.objectEntries h (by omega)).before fun entries _ _ h₁ hlt₁ => .left h₁ (by omega)
    | op operator =>
      cases operator with
      | sub | add =>
        simp only [weight_cons, Token.weight] at hk ⊢
        unfold primary
        exact (ih.term h (by omega)).before fun t _ _ h₁ hlt₁ => .left h₁ (by omega)
      | _ => exact unexpected_agree hls _
    | str => cases ht
    | _ => exact unexpected_agree hls _
  | _ => exact unexpected_agree hls _

end

section
variable {k m n : Nat} (ih : κ.Lockstep k m n)
include ih

theorem alternatives_step {i : κ.Mode} {ls ls' : Lexemes} (hls : κ.patterns i ls ls')
    (hk : 16 * weight ls + 2 ≤ k + 1) :
    κ.Agree (κ.Leaves i (weight ls)) (alternatives (m + 1) ls) (alternatives (n + 1) ls') := by
  rw [alternatives_succ, alternatives_succ]
  have hpattern := ih.pattern (κ.alike_of_patterns hls) (by omega)
  refine listed_agree (hpattern.imp fun r r' hr hr' hleaves => ⟨hleaves, ?_⟩) fun h hlt => ih.alternatives h (by omega)
  obtain ⟨p, ls₁⟩ := r
  obtain ⟨p', ls₁'⟩ := r'
  obtain ⟨rfl, h₁, -⟩ := hleaves
  exact κ.behind_pattern hls hr hr' h₁

theorem string_step {parts parts' : List StringPart} (hparts : List.Forall₂ κ.Part parts parts')
    (hk : 16 * Token.partsWeight parts + 2 ≤ k + 1) : κ.Agree Eq (string (m + 1) parts) (string (n + 1) parts') := by
  have hfragments : κ.Agree Eq
      (do
        let qs ← fragments m parts
        return .text "" (.ofList qs))
      (do
        let qs ← fragments n parts'
        return Node.text "" (.ofList qs)) :=
    (ih.fragments hparts (by omega)).bind fun qs _ heq => .ok (by rw [heq])
  unfold string
  cases hparts with
  | nil => exact hfragments
  | cons hpart hparts =>
    cases hpart with
    | interpolation => exact hfragments
    | literal s =>
      cases hparts with
      | nil => exact .ok rfl
      | cons => exact hfragments

theorem fragments_step {parts parts' : List StringPart} (hparts : List.Forall₂ κ.Part parts parts')
    (hk : 16 * Token.partsWeight parts + 1 ≤ k + 1) :
    κ.Agree Eq (fragments (m + 1) parts) (fragments (n + 1) parts') := by
  cases hparts with
  | nil => exact .ok rfl
  | cons hpart hparts =>
    cases hpart with
    | literal s =>
      simp only [Token.partsWeight_cons, StringPart.weight] at hk
      exact (ih.fragments hparts (by omega)).bind fun qs _ heq => .ok (by rw [heq])
    | interpolation hnested =>
      simp only [Token.partsWeight_cons, StringPart.weight] at hk
      refine (ih.whole hnested (by omega)).bind fun q _ hq => ?_
      exact (ih.fragments hparts (by omega)).bind fun qs _ hqs => .ok (by rw [hq, hqs])

theorem whole_step {source source' : String} {o o' : Nat} (h : κ.nested source o source' o')
    (hk : 16 * (source.length + 1) + 6 ≤ k + 1) :
    κ.Agree Eq (whole (m + 1) source o) (whole (n + 1) source' o') := by
  have hweight : ∀ ls, scanned (Token.scan source o) = .ok ls → weight ls ≤ source.length + 1 := by
    intro ls hls
    cases hscan : Token.scan source o with
    | error e =>
      rw [hscan] at hls
      cases hls
    | ok ls₁ =>
      rw [hscan] at hls
      cases hls
      exact weight_scan_le hscan
  unfold whole
  obtain ⟨i, hscans⟩ := κ.scans h
  refine (hscans.imp fun ls _ hls _ halike => And.intro halike (hweight ls hls)).bind fun ls ls' hls => ?_
  refine (ih.pipe hls.1 (by have := hls.2; omega)).before fun q ls₁ ls₁' h₁ _ => ?_
  dsimp only
  unfold expectEnd
  by_cases hpeek : peek ls₁ = .eof
  · rw [if_pos hpeek, if_pos ((peek_eq_eof_iff h₁).2 hpeek)]
    exact .ok rfl
  · rw [if_neg hpeek, if_neg (mt (peek_eq_eof_iff h₁).1 hpeek)]
    exact unexpected_agree h₁ _

end

/-! ## Whole runs -/

/-- One more step on both sides serves one more step's worth. -/
theorem Lockstep.step {k m n : Nat} (ih : κ.Lockstep k m n) : κ.Lockstep (k + 1) (m + 1) (n + 1) where
  definition := definition_step ih
  pipe := pipe_step ih
  binary _ h := binary_step ih h
  binaryRest _ _ h := binaryRest_step ih h
  operand := operand_step ih
  alternatives := alternatives_step ih
  term := term_step ih
  primary := primary_step ih
  arguments := arguments_step ih
  suffixes := suffixes_step ih
  bracket := bracket_step ih
  string := string_step ih
  fragments := fragments_step ih
  whole := whole_step ih
  objectEntries := objectEntries_step ih
  objectEntry := objectEntry_step ih
  optionalValue := optionalValue_step ih
  objectValue := objectValue_step ih
  pattern := pattern_step ih
  patternItems := patternItems_step ih
  patternEntries := patternEntries_step ih
  patternEntry := patternEntry_step ih
  branches := branches_step ih
  elseBranch := elseBranch_step ih
  extraction := extraction_step ih

/-- **Beyond the `k` steps that are enough, coupled runs end alike.** -/
theorem lockstep_of_le : ∀ {k m n : Nat}, k ≤ m → k ≤ n → κ.Lockstep k m n
  | 0, _, _, _, _ => by constructor <;> intros <;> omega
  | _ + 1, _ + 1, _ + 1, hm, hn =>
    (lockstep_of_le (Nat.le_of_succ_le_succ hm) (Nat.le_of_succ_le_succ hn)).step

theorem definitions_agree {i : κ.Mode} : ∀ {k m n : Nat} {ls ls' : Lexemes}, κ.alike i ls ls' → k ≤ m → k ≤ n →
    16 * weight ls + 2 ≤ k → κ.Agree Eq (definitions m ls) (definitions n ls')
  | 0, _, _, _, _, _, _, _, hk => by omega
  | k + 1, m + 1, n + 1, ls, ls', hls, hm, hn, hk => by
    have hm := Nat.le_of_succ_le_succ hm
    have hn := Nat.le_of_succ_le_succ hn
    have hstep (hpeek : peek ls = .keyword .define) (hpeek' : peek ls' = .keyword .define) :
        κ.Agree Eq (definitions (m + 1) ls) (definitions (n + 1) ls') := by
      rw [definitions_define m hpeek, definitions_define n hpeek']
      refine ((lockstep_of_le hm hn).definition hls (by omega)).before fun d _ _ h₁ hlt₁ => ?_
      exact (definitions_agree h₁ hm hn (by omega)).bind fun ds _ hds => .ok (by rw [hds])
    cases κ.begins hls with
    | finish => exact .ok rfl
    | @plain t o o' ls ls' ht hsign h has =>
      cases t with
      | keyword word =>
        cases word with
        | define => exact hstep rfl rfl
        | «import» => exact .fault (κ.directive hls)
        | «include» => exact .fault (κ.directive hls)
        | _ => exact unexpected_agree hls _
      | eof => cases ht
      | str => cases ht
      | _ => exact unexpected_agree hls _
    | _ => exact unexpected_agree hls _

/-- **Paired sources are the same query, or are refused with paired faults**, with every number of steps that is enough
for the first of them. -/
theorem whole_agree {source source' : String} {o o' : Nat} (h : κ.nested source o source' o')
    {m n : Nat} (hm : enoughSteps source ≤ m) (hn : enoughSteps source ≤ n) :
    κ.Agree Eq (whole m source o) (whole n source' o') :=
  (lockstep_of_le hm hn).whole h (by unfold enoughSteps; omega)

end Coupling

/-! ## Corresponding lexemes -/

namespace Change

variable {δ : Change}

theorem lockstep_of_le (hδ : δ.Scans) {k m n : Nat} (hm : k ≤ m) (hn : k ≤ n) : (δ.coupling hδ).Lockstep k m n :=
  Coupling.lockstep_of_le hm hn

theorem definitions_agree (hδ : δ.Scans) {k m n : Nat} {ls ls' : Lexemes} (hls : δ.Alike ls ls') (hm : k ≤ m)
    (hn : k ≤ n) (hk : 16 * weight ls + 2 ≤ k) : δ.Agree Eq (definitions m ls) (definitions n ls') :=
  agree_iff.1 ((δ.coupling hδ).definitions_agree (i := ()) hls hm hn hk)

/-- **Corresponding sources are the same query, or are refused with the same message at corresponding places**, with
every number of steps that is enough for the first of them. -/
theorem whole_agree (hδ : δ.Scans) {source source' : String} {o o' : Nat} (h : δ.nested source o source' o')
    {m n : Nat} (hm : enoughSteps source ≤ m) (hn : enoughSteps source ≤ n) :
    δ.Agree Eq (whole m source o) (whole n source' o') :=
  agree_iff.1 ((δ.coupling hδ).whole_agree h hm hn)

end Change
end Grammar
end DefTable
