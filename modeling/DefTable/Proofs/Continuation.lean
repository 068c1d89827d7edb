import DefTable.Proofs.Derivations
import DefTable.Proofs.SourceJoin

/-!
# Derivations with more behind them

What is read from the tokens of a source up to their end is read in the same way when other tokens take the place of the
end (`Grammar.Derives.inFrontOf`), as long as the first of these goes on nothing that was complete at the end. Behind a
definition, which ends with a sign of its own, there may be any tokens; behind a query, those that end a query
(`Token.endsQuery`).
-/

namespace DefTable

/-- Whether a token ends the query in front of it: it goes on no term, operand, suffix or pattern. -/
def Token.endsQuery : Token → Bool
  | .rightParen | .rightBracket | .rightBrace | .colon | .semicolon | .eof => true
  | .keyword .then | .keyword .elif | .keyword .else | .keyword .end => true
  | _ => false

namespace Grammar

variable {tail : Lexemes}

/-! ## At the end -/

/-- Nothing is left but the end, or a dot in front of it: what a dot is depends on the token behind it. -/
def AtEnd (ls : Lexemes) : Prop :=
  peek ls = .eof ∨ peek ls = .dot ∧ peek ls.tail = .eof

/-- A token that stands in front of others in the same way whatever they are. -/
@[reducible] def Apart (t : Token) : Prop :=
  t ≠ .eof ∧ t ≠ .dot

theorem Apart.not_atEnd {t : Token} (ht : Apart t) (o : Nat) (ls : Lexemes) : ¬ AtEnd (⟨t, o⟩ :: ls) := by
  rintro (h | ⟨h, -⟩)
  · exact ht.1 h
  · exact ht.2 h

theorem apart_of_operator? {l : Lexeme} {op : Operator} (h : operator? [l] = some op) : Apart l.token := by
  constructor <;> intro ht <;> simp [operator?, peek, ht] at h

theorem apart_of_wordKey? {t : Token} {key : String} (h : wordKey? t = some key) : Apart t := by
  constructor <;> rintro rfl <;> cases h

theorem apart_of_parameter? {t : Token} {name : String} (h : parameter? t = some name) : Apart t := by
  constructor <;> rintro rfl <;> cases h

theorem apart_of_leaf? {t : Token} {x : Term} (h : leaf? t = some x) : Apart t := by
  constructor <;> rintro rfl <;> cases h

theorem peek_inFrontOf {ls : Lexemes} (h : peek ls ≠ .eof) : peek (inFrontOf ls tail) = peek ls := by
  obtain - | ⟨⟨t, o⟩, ls⟩ := ls
  · exact absurd rfl h
  · rw [inFrontOf_cons (t := t) h, peek, peek]

theorem inFrontOf_of_eof {ls : Lexemes} (h : peek ls = .eof) : inFrontOf ls tail = tail := by
  obtain - | ⟨⟨t, o⟩, ls⟩ := ls
  · rfl
  · obtain rfl : t = .eof := h
    rfl

/-- What does not come next does not come next in front of a token that ends a query either. -/
theorem peek_inFrontOf_ne {ls : Lexemes} {t : Token} (ht : t.endsQuery = false)
    (hends : AtEnd ls → (peek tail).endsQuery = true) (h : peek ls ≠ t) : peek (inFrontOf ls tail) ≠ t := by
  by_cases heof : peek ls = .eof
  · rw [inFrontOf_of_eof heof]
    rintro rfl
    rw [hends (.inl heof)] at ht
    cases ht
  · rw [peek_inFrontOf heof]
    exact h

theorem peek_inFrontOf_ne_of_not_atEnd {ls : Lexemes} {t : Token} (hls : ¬ AtEnd ls) (h : peek ls ≠ t) :
    peek (inFrontOf ls tail) ≠ t := by
  rwa [peek_inFrontOf fun heof => hls (.inl heof)]

theorem operator?_inFrontOf {ls : Lexemes} (hends : AtEnd ls → (peek tail).endsQuery = true) :
    operator? (inFrontOf ls tail) = operator? ls := by
  by_cases heof : peek ls = .eof
  · have htail := hends (.inl heof)
    rw [inFrontOf_of_eof heof]
    unfold operator?
    rw [heof]
    split <;> simp_all [Token.endsQuery]
  · unfold operator?
    rw [peek_inFrontOf heof]

theorem not_startsSuffix_of_endsQuery {ls : Lexemes} (h : (peek ls).endsQuery = true) :
    ¬ StartsSuffix ls ∧ ∀ o, ¬ StartsSuffix (⟨.dot, o⟩ :: ls) := by
  obtain - | ⟨⟨t, o⟩, ls⟩ := ls
  · exact ⟨id, fun _ => id⟩
  · cases t <;> first | exact ⟨id, fun _ => id⟩ | cases h

theorem not_startsSuffix_inFrontOf {ls : Lexemes} (hends : AtEnd ls → (peek tail).endsQuery = true)
    (h : ¬ StartsSuffix ls) : ¬ StartsSuffix (inFrontOf ls tail) := by
  by_cases heof : peek ls = .eof
  · rw [inFrontOf_of_eof heof]
    exact (not_startsSuffix_of_endsQuery (hends (.inl heof))).1
  obtain - | ⟨⟨t, o⟩, ls⟩ := ls
  · exact absurd rfl heof
  rw [inFrontOf_cons (t := t) heof]
  cases t with
  | dot =>
    by_cases heof : peek ls = .eof
    · rw [inFrontOf_of_eof heof]
      exact (not_startsSuffix_of_endsQuery (hends (.inr ⟨rfl, heof⟩))).2 o
    · obtain - | ⟨⟨t, o₁⟩, ls⟩ := ls
      · exact absurd rfl heof
      · rw [inFrontOf_cons (t := t) heof]
        cases t <;> exact h
  | _ => exact h

/-! ## What may take nothing -/

/-- Productions that may take nothing, and then go by the next token. -/
def MayTakeNothing : Production → Prop
  | .binaryRest _ _ | .suffixes | .branches => True
  | .after lead _ => Apart lead
  | _ => False

theorem Derives.string_cons {p : Production} {ls ls₁ : Lexemes} {n : Node p.shape} (h : Derives p ls n ls₁)
    (hp : p = .string) : ∃ parts o, ls = ⟨.str parts, o⟩ :: ls₁ := by
  cases h <;> cases hp <;> exact ⟨_, _, rfl⟩

/-- What may take nothing takes nothing at the end. -/
theorem Derives.stay {p : Production} {ls ls₁ : Lexemes} {n : Node p.shape} (h : Derives p ls n ls₁)
    (hp : MayTakeNothing p) (hend : AtEnd ls) : ls₁ = ls := by
  cases h with
  | binaryEnd | suffixesEnd | branchesEnd | missing => rfl
  | binaryMore ht hop => exact absurd hend ((apart_of_operator? hop).not_atEnd _ _)
  | given => exact absurd hend (Apart.not_atEnd hp _ _)
  | textSuffix hx =>
    obtain ⟨parts, o, rfl⟩ := hx.string_cons rfl
    rcases hend with hend | ⟨-, hend⟩ <;> cases hend
  | fieldSuffix | bracketSuffix | questionSuffix | alternativeSuffix | branch =>
    rcases hend with hend | ⟨hend, -⟩ <;> cases hend
  | dotBracketSuffix => rcases hend with hend | ⟨-, hend⟩ <;> cases hend
  | _ => exact hp.elim

/-! ## Derivations -/

/-- What has to be known of the lexemes that a production leaves, and of what takes the place of the end, for the
production to go the same way. -/
def Continues (tail : Lexemes) : Production → Lexemes → Prop
  | .definition, _ | .bracket, _ | .string, _ | .objectEntries, _ | .pattern, _ => True
  | .objectEntry, ls | .patternEntry, ls | .branches, ls => ¬ AtEnd ls
  | .separated item separator, ls => Apart separator ∧ ¬ AtEnd ls ∧ ∀ ls₁, ¬ AtEnd ls₁ → Continues tail item ls₁
  | .after lead item, ls => Apart lead ∧ (AtEnd ls → peek tail ≠ lead) ∧ Continues tail item ls
  -- these take no lexemes, and all of them
  | .fragments _, _ | .definitions, _ => False
  | _, ls => AtEnd ls → (peek tail).endsQuery = true

theorem Parameters.inFrontOf {ls ls₁ : Lexemes} {names : List String} (h : Parameters ls names ls₁)
    (hne : peek ls₁ ≠ .eof) : Parameters (inFrontOf ls tail) names (inFrontOf ls₁ tail) := by
  induction h with
  | last ht hname hnext =>
    rw [inFrontOf_cons (apart_of_parameter? hname).1]
    exact .last ht hname (by rwa [peek_inFrontOf hne])
  | more ht hname h ih =>
    rw [inFrontOf_cons (apart_of_parameter? hname).1]
    exact .more ht hname (ih hne)

theorem ParameterList.inFrontOf {ls ls₁ : Lexemes} {names : List String} (h : ParameterList ls names ls₁)
    (hne : peek ls₁ ≠ .eof) : ParameterList (inFrontOf ls tail) names (inFrontOf ls₁ tail) := by
  cases h with
  | none hnext => exact .none (by rwa [peek_inFrontOf hne])
  | some h => exact .some (h.inFrontOf nofun)

theorem endsQuery_before {t : Token} (ht : Apart t) {o : Nat} {ls : Lexemes} :
    AtEnd (⟨t, o⟩ :: ls) → (peek tail).endsQuery = true :=
  fun hend => absurd hend (ht.not_atEnd o ls)

/-- **What is read up to the end of a source is read in front of other tokens in the same way.** -/
theorem Derives.inFrontOf {p : Production} {ls ls₁ : Lexemes} {n : Node p.shape} (h : Derives p ls n ls₁)
    (hc : Continues tail p ls₁) : Derives p (inFrontOf ls tail) n (inFrontOf ls₁ tail) := by
  induction h with
  | @definition t name params body o o₁ o₂ o₃ ls ls₁ ls₂ ht hname hparams hbody ihbody =>
    show Derives .definition (⟨.keyword .define, o⟩ :: Grammar.inFrontOf (⟨t, o₁⟩ :: ls) tail) _ _
    rw [inFrontOf_cons (apart_of_wordKey? hname).1]
    exact .definition ht hname (hparams.inFrontOf (show Token.colon ≠ .eof by decide)) (ihbody (endsQuery_before (by decide)))
  | localDefinition hd hq ihd ihq => exact .localDefinition (ihd trivial) (ihq hc)
  | pipe h ih => exact .pipe (ih hc)
  | binary hleft hq ihleft ihq => exact .binary (ihleft fun hend => hc (hq.stay trivial hend ▸ hend)) (ihq hc)
  | binaryEnd hnext => exact .binaryEnd (by rwa [operator?_inFrontOf hc])
  | @binaryMore least left op right q l ls ls₁ ls₂ ht hop hleast hright hchain hq ihright ihq =>
    have hends : AtEnd ls₁ → (peek tail).endsQuery = true := fun hend => hc (hq.stay trivial hend ▸ hend)
    rw [inFrontOf_cons (apart_of_operator? hop).1]
    exact .binaryMore ht hop hleast (ihright hends) (by rwa [operator?_inFrontOf hends]) (ihq hc)
  | pipeOperand h ih => exact .pipeOperand (ih hc)
  | binaryOperand hop h ih => exact .binaryOperand hop (ih hc)
  | operand h hnext ih => exact .operand (ih hc) (peek_inFrontOf_ne rfl hc hnext)
  | binding ht hpatterns hbody iht ihpatterns ihbody =>
    have hitem : ∀ ls, ¬ AtEnd ls → Continues tail .pattern ls := fun _ _ => trivial
    have hpipe : Apart (.op .pipe) := by decide
    exact .binding (iht (endsQuery_before (by decide))) (ihpatterns ⟨by decide, hpipe.not_atEnd _ _, hitem⟩)
      (ihbody hc)
  | term ht hs iht ihs => exact .term (iht fun hend => hc (hs.stay trivial hend ▸ hend)) (ihs hc)
  | termQuery h ih => exact .termQuery (ih hc)
  | dotText h ih => exact .dotText (ih trivial)
  | dotAccess h ih => exact .dotAccess (ih trivial)
  | dotIterate h ih => exact .dotIterate (ih trivial)
  | identity hstr hbracket =>
    exact .identity (fun parts => peek_inFrontOf_ne rfl hc (hstr parts)) (peek_inFrontOf_ne rfl hc hbracket)
  | leaf ht hx =>
    rw [inFrontOf_cons (apart_of_leaf? hx).1]
    exact .leaf ht hx
  | text h ih => exact .text (ih trivial)
  | formatText ht h ih => exact .formatText ht (ih trivial)
  | format ht hnext => exact .format ht fun parts => peek_inFrontOf_ne rfl hc (hnext parts)
  | call ht h ih =>
    have hitem : ∀ ls, ¬ AtEnd ls → Continues tail .pipe ls := fun _ hnot hend => absurd hend hnot
    have hparen : Apart .rightParen := by decide
    exact .call ht (ih ⟨by decide, hparen.not_atEnd _ _, hitem⟩)
  | name ht hnext => exact .name ht (peek_inFrontOf_ne rfl hc hnext)
  | parentheses h ih => exact .parentheses (ih (endsQuery_before (by decide)))
  | emptyArray => exact .emptyArray
  | array h ih => exact .array (ih (endsQuery_before (by decide)))
  | object h ih => exact .object (ih trivial)
  | sign hop h ih => exact .sign hop (ih hc)
  | @conditional cond thenBranch elifs elseBranch o o₁ o₂ ls ls₁ ls₂ ls₃ ls₄ hcond hthen helifs helse ihcond ihthen
      ihelifs ihelse =>
    have hend : Apart (.keyword .end) := by decide
    have hlead : Apart (.keyword .else) := by decide
    have helse : ¬ AtEnd ls₃ := fun h => hend.not_atEnd o₂ ls₄ (helse.stay hlead h ▸ h)
    have helifs : ¬ AtEnd ls₂ := fun h => helse (helifs.stay trivial h ▸ h)
    exact .conditional (ihcond (endsQuery_before (by decide))) (ihthen fun h => absurd h helifs) (ihelifs helse)
      (ihelse ⟨hlead, fun h => absurd h (hend.not_atEnd _ _), endsQuery_before hend⟩)
  | @attempt body handler o ls ls₁ ls₂ hbody hhandler ihbody ihhandler =>
    have hcatch : AtEnd ls₂ → peek tail ≠ .keyword .catch := by
      intro hend htail
      have := hc hend
      rw [htail] at this
      cases this
    have hlead : Apart (.keyword .catch) := by decide
    have hbody : AtEnd ls₁ → (peek tail).endsQuery = true := fun h => hc (hhandler.stay hlead h ▸ h)
    exact .attempt (ihbody hbody) (ihhandler ⟨hlead, hcatch, hc⟩)
  | reduce hsource hp hstart hupdate ihsource ihp ihstart ihupdate =>
    exact .reduce (ihsource (endsQuery_before (by decide))) (ihp trivial)
      (ihstart (endsQuery_before (by decide))) (ihupdate (endsQuery_before (by decide)))
  | @foreach source p start update extract o o₁ o₂ o₃ o₄ ls ls₁ ls₂ ls₃ ls₄ ls₅ hsource hp hstart hupdate hextract
      ihsource ihp ihstart ihupdate ihextract =>
    have hparen : Apart .rightParen := by decide
    have hlead : Apart .semicolon := by decide
    have hupdate : ¬ AtEnd ls₄ := fun h => hparen.not_atEnd o₄ ls₅ (hextract.stay hlead h ▸ h)
    exact .foreach (ihsource (endsQuery_before (by decide))) (ihp trivial) (ihstart (endsQuery_before (by decide)))
      (ihupdate fun h => absurd h hupdate)
      (ihextract ⟨hlead, fun h => absurd h (hparen.not_atEnd _ _), endsQuery_before hparen⟩)
  | label ht h ih => exact .label ht (ih hc)
  | «break» ht => exact .break ht
  | suffixesEnd hnext => exact .suffixesEnd (not_startsSuffix_inFrontOf hc hnext)
  | fieldSuffix ht h ih => exact .fieldSuffix ht (ih hc)
  | textSuffix hx h ihx ih => exact .textSuffix (ihx trivial) (ih hc)
  | dotBracketSuffix hi h ihi ih => exact .dotBracketSuffix (ihi trivial) (ih hc)
  | bracketSuffix hi h ihi ih => exact .bracketSuffix (ihi trivial) (ih hc)
  | questionSuffix h ih => exact .questionSuffix (ih hc)
  | alternativeSuffix h ih => exact .alternativeSuffix (ih hc)
  | iterate => exact .iterate
  | sliceTo h ih => exact .sliceTo (ih (endsQuery_before (by decide)))
  | sliceFrom h ih => exact .sliceFrom (ih (endsQuery_before (by decide)))
  | slice hstart hstop ihstart ihstop =>
    exact .slice (ihstart (endsQuery_before (by decide))) (ihstop (endsQuery_before (by decide)))
  | position h ih => exact .position (ih (endsQuery_before (by decide)))
  | plainString => exact .plainString
  | string hne hparts h ih => exact .string hne hparts h
  | fragmentsEnd | literal | interpolation | definitionsEnd | definitions => exact hc.elim
  | entriesEnd => exact .entriesEnd
  | moreEntries he hes ihe ihes =>
    have hcomma : Apart (.op .comma) := by decide
    exact .moreEntries (ihe (hcomma.not_atEnd _ _)) (ihes trivial)
  | lastEntry he ihe =>
    have hbrace : Apart .rightBrace := by decide
    exact .lastEntry (ihe (hbrace.not_atEnd _ _))
  | variableEntry ht => exact .variableEntry ht
  | textEntry hx hv ihx ihv =>
    exact .textEntry (ihx trivial) (ihv ⟨by decide, fun h => absurd h hc, fun h => absurd h hc⟩)
  | computedEntry hq hv ihq ihv =>
    exact .computedEntry (ihq (endsQuery_before (by decide))) (ihv fun h => absurd h hc)
  | wordEntry ht hkey hv ihv =>
    rw [inFrontOf_cons (apart_of_wordKey? hkey).1]
    exact .wordEntry ht hkey (ihv ⟨by decide, fun h => absurd h hc, fun h => absurd h hc⟩)
  | objectValue h hnext ih => exact .objectValue (ih hc) (peek_inFrontOf_ne rfl hc hnext)
  | pipedValue ht hv iht ihv => exact .pipedValue (iht (endsQuery_before (by decide))) (ihv hc)
  | variablePattern ht => exact .variablePattern ht
  | arrayPattern h ih =>
    have hbracket : Apart .rightBracket := by decide
    exact .arrayPattern (ih ⟨by decide, hbracket.not_atEnd _ _, fun _ _ => trivial⟩)
  | objectPattern h ih =>
    have hbrace : Apart .rightBrace := by decide
    exact .objectPattern (ih ⟨by decide, hbrace.not_atEnd _ _, fun _ hnot => hnot⟩)
  | variablePatternEntry ht hv ihv =>
    exact .variablePatternEntry ht (ihv ⟨by decide, fun h => absurd h hc, trivial⟩)
  | textPatternEntry hx hp ihx ihp => exact .textPatternEntry (ihx trivial) (ihp trivial)
  | computedPatternEntry hq hp ihq ihp =>
    exact .computedPatternEntry (ihq (endsQuery_before (by decide))) (ihp trivial)
  | wordPatternEntry ht hkey hp ihp =>
    rw [inFrontOf_cons (apart_of_wordKey? hkey).1]
    exact .wordPatternEntry ht hkey (ihp trivial)
  | branchesEnd hnext => exact .branchesEnd (peek_inFrontOf_ne_of_not_atEnd hc hnext)
  | @branch cond thenBranch bs o o₁ ls ls₁ ls₂ ls₃ hcond hthen hbs ihcond ihthen ihbs =>
    have hthen : ¬ AtEnd ls₂ := fun h => hc (hbs.stay trivial h ▸ h)
    exact .branch (ihcond (endsQuery_before (by decide))) (ihthen fun h => absurd h hthen) (ihbs hc)
  | last h hnext ih => exact .last (ih (hc.2.2 _ hc.2.1)) (peek_inFrontOf_ne_of_not_atEnd hc.2.1 hnext)
  | more hx hxs ihx ihxs =>
    have hx := ihx (hc.2.2 _ (hc.1.not_atEnd _ _))
    rw [inFrontOf_cons hc.1.1] at hx
    exact .more hx (ihxs hc)
  | @missing item lead ls hnext =>
    refine .missing ?_
    by_cases heof : peek ls = .eof
    · rw [inFrontOf_of_eof heof]
      exact hc.2.1 (.inl heof)
    · rwa [peek_inFrontOf heof]
  | given h ih =>
    rw [inFrontOf_cons hc.1.1]
    exact .given (ih hc.2.2)

end Grammar
end DefTable
