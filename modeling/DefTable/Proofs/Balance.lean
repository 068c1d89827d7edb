import DefTable.Proofs.Continuation
import DefTable.Proofs.Coverage
import DefTable.Proofs.DerivationSoundness

/-!
# Parentheses of a source

What a source does to the interpolation around it is told by its tokens (`Token.Covers.after`). The parser takes
parentheses in pairs (`Grammar.Derives.opened_eq`), so a query with a line feed behind it leads back to where it began
while it is skipped as an interpolation (`Query.after_lineFeed`).
-/

namespace DefTable

open Token Enclosure

namespace Grammar

/-! ## Tokens -/

/-- How many parentheses are open behind lexemes, where `d` are open before them. -/
def opened (d : Nat) (ls : Lexemes) : Option Nat :=
  ls.foldlM (fun d l => Wording.nest d l.token) d

section
variable {d o : Nat} {t : Token} {ls : Lexemes}

theorem opened_cons : opened d (⟨t, o⟩ :: ls) = (Wording.nest d t).bind (opened · ls) :=
  List.foldlM_cons

theorem opened_leftParen : opened d (⟨.leftParen, o⟩ :: ls) = opened (d + 1) ls := rfl

theorem opened_rightParen : opened (d + 1) (⟨.rightParen, o⟩ :: ls) = opened d ls := rfl

theorem opened_token (ht : Wording.isParen t = false) : opened d (⟨t, o⟩ :: ls) = opened d ls := by
  rw [opened_cons, Wording.nest_of_not_isParen ht, Option.bind_some]

end

theorem not_isParen_of_wordKey? {t : Token} {key : String} (h : wordKey? t = some key) : Wording.isParen t = false := by
  cases t <;> first | rfl | cases h

theorem not_isParen_of_parameter? {t : Token} {name : String} (h : parameter? t = some name) :
    Wording.isParen t = false := by
  cases t <;> first | rfl | cases h

theorem not_isParen_of_leaf? {t : Token} {x : Term} (h : leaf? t = some x) : Wording.isParen t = false := by
  cases t <;> first | rfl | cases h

theorem not_isParen_of_operator? {l : Lexeme} {op : Operator} (h : operator? [l] = some op) :
    Wording.isParen l.token = false := by
  obtain ⟨t, o⟩ := l
  cases t <;> first | rfl | cases h

/-! ## Derivations -/

/-- Productions whose separators and leads are no parentheses, as those of the grammar are. -/
def KeepsPairs : Production → Prop
  | .separated item separator => Wording.isParen separator = false ∧ KeepsPairs item
  | .after lead item => Wording.isParen lead = false ∧ KeepsPairs item
  | _ => True

theorem Parameters.opened_eq {ls ls₁ : Lexemes} {names : List String} (h : Parameters ls names ls₁) (d : Nat) :
    opened d ls = opened d ls₁ := by
  induction h with
  | last ht hname => rw [opened_token (not_isParen_of_parameter? hname)]
  | more ht hname h ih => rw [opened_token (not_isParen_of_parameter? hname), opened_token rfl, ih]

theorem ParameterList.opened_eq {ls ls₁ : Lexemes} {names : List String} (h : ParameterList ls names ls₁) (d : Nat) :
    opened d ls = opened d ls₁ := by
  cases h with
  | none => rfl
  | some h => rw [opened_leftParen, h.opened_eq, opened_rightParen]

/-- **Every production takes parentheses in pairs.** -/
theorem Derives.opened_eq {p : Production} {ls ls₁ : Lexemes} {n : Node p.shape} (h : Derives p ls n ls₁)
    (hp : KeepsPairs p) : ∀ d, opened d ls = opened d ls₁ := by
  induction h with
  -- what takes nothing
  | binaryEnd | suffixesEnd | fragmentsEnd | literal | interpolation | branchesEnd | definitionsEnd | missing =>
    exact fun _ => rfl
  -- what takes what another production takes, or two of them take
  | pipe h ih | pipeOperand h ih | binaryOperand hop h ih | operand h hnext ih | termQuery h ih | text h ih
  | objectValue h hnext ih => exact ih trivial
  | last h hnext ih => exact ih hp.2
  | localDefinition h₁ h₂ ih₁ ih₂ | binary h₁ h₂ ih₁ ih₂ | term h₁ h₂ ih₁ ih₂ | definitions h₁ h₂ ih₁ ih₂ =>
    exact fun d => (ih₁ trivial d).trans (ih₂ trivial d)
  | textEntry hx hv ihx ihv => exact fun d => (ihx trivial d).trans (ihv ⟨rfl, trivial⟩ d)
  -- tokens that are no parentheses, in front of it and behind it
  | identity | format | name | plainString | string | entriesEnd | iterate | variableEntry | variablePattern =>
    exact fun _ => opened_token rfl
  | leaf ht hx => exact fun _ => opened_token (not_isParen_of_leaf? hx)
  | emptyArray | «break» =>
    intro d
    rw [opened_token rfl, opened_token rfl]
  | dotText h ih | formatText ht h ih | object h ih | sign hop h ih | fieldSuffix ht h ih | questionSuffix h ih =>
    intro d
    rw [opened_token rfl, ih trivial]
  | alternativeSuffix h ih =>
    intro d
    rw [opened_token rfl, ← ih trivial, opened_token rfl]
  | dotAccess h ih | dotIterate h ih =>
    intro d
    rw [opened_token rfl, opened_token rfl, ih trivial]
  | array h ih | sliceTo h ih =>
    intro d
    rw [opened_token rfl, ih trivial, opened_token rfl]
  | arrayPattern h ih | objectPattern h ih =>
    intro d
    rw [opened_token rfl, ih ⟨rfl, trivial⟩, opened_token rfl]
  | position h ih | lastEntry h ih =>
    intro d
    rw [ih trivial, opened_token rfl]
  | sliceFrom h ih =>
    intro d
    rw [ih trivial, opened_token rfl, opened_token rfl]
  | label ht h ih =>
    intro d
    rw [opened_token rfl, opened_token rfl, opened_token rfl, ih trivial]
  | variablePatternEntry ht h ih =>
    intro d
    rw [opened_token rfl, ih ⟨rfl, trivial⟩]
  | wordEntry ht hkey h ih =>
    intro d
    rw [opened_token (not_isParen_of_wordKey? hkey), ih ⟨rfl, trivial⟩]
  | wordPatternEntry ht hkey h ih =>
    intro d
    rw [opened_token (not_isParen_of_wordKey? hkey), opened_token rfl, ih trivial]
  | given h ih =>
    intro d
    rw [opened_token hp.1, ih hp.2]
  | definition ht hname hparams hbody ih =>
    intro d
    rw [opened_token rfl, opened_token (not_isParen_of_wordKey? hname), hparams.opened_eq, opened_token rfl, ih trivial,
      opened_token rfl]
  -- tokens between two productions
  | binaryMore ht hop hleast hright hchain hq ihright ihq =>
    exact fun d => (opened_token (not_isParen_of_operator? hop)).trans ((ihright trivial d).trans (ihq trivial d))
  | textSuffix h₁ h₂ ih₁ ih₂ | bracketSuffix h₁ h₂ ih₁ ih₂ =>
    intro d
    rw [opened_token rfl, ih₁ trivial, ih₂ trivial]
  | dotBracketSuffix h₁ h₂ ih₁ ih₂ =>
    intro d
    rw [opened_token rfl, opened_token rfl, ih₁ trivial, ih₂ trivial]
  | attempt h₁ h₂ ih₁ ih₂ =>
    intro d
    rw [opened_token rfl, ih₁ trivial, ih₂ ⟨rfl, trivial⟩]
  | moreEntries h₁ h₂ ih₁ ih₂ | pipedValue h₁ h₂ ih₁ ih₂ | textPatternEntry h₁ h₂ ih₁ ih₂ =>
    intro d
    rw [ih₁ trivial, opened_token rfl, ih₂ trivial]
  | more h₁ h₂ ih₁ ih₂ =>
    intro d
    rw [ih₁ hp.2, opened_token hp.1, ih₂ hp]
  | slice h₁ h₂ ih₁ ih₂ =>
    intro d
    rw [ih₁ trivial, opened_token rfl, ih₂ trivial, opened_token rfl]
  | binding ht hpatterns hbody iht ihpatterns ihbody =>
    intro d
    rw [iht trivial, opened_token rfl, ihpatterns ⟨rfl, trivial⟩, opened_token rfl, ihbody trivial]
  | branch hcond hthen hbs ihcond ihthen ihbs =>
    intro d
    rw [opened_token rfl, ihcond trivial, opened_token rfl, ihthen trivial, ihbs trivial]
  | conditional hcond hthen helifs helse ihcond ihthen ihelifs ihelse =>
    intro d
    rw [opened_token rfl, ihcond trivial, opened_token rfl, ihthen trivial, ihelifs trivial, ihelse ⟨rfl, trivial⟩,
      opened_token rfl]
  -- pairs of parentheses: what is between them is one pair further in
  | parentheses h ih =>
    intro d
    rw [opened_leftParen, ih trivial, opened_rightParen]
  | call ht h ih =>
    intro d
    rw [opened_token rfl, opened_leftParen, ih ⟨rfl, trivial⟩, opened_rightParen]
  | computedEntry h₁ h₂ ih₁ ih₂ | computedPatternEntry h₁ h₂ ih₁ ih₂ =>
    intro d
    rw [opened_leftParen, ih₁ trivial, opened_rightParen, opened_token rfl, ih₂ trivial]
  | reduce hsource hp hstart hupdate ihsource ihp ihstart ihupdate =>
    intro d
    rw [opened_token rfl, ihsource trivial, opened_token rfl, ihp trivial, opened_leftParen, ihstart trivial,
      opened_token rfl, ihupdate trivial, opened_rightParen]
  | foreach hsource hp hstart hupdate hextract ihsource ihp ihstart ihupdate ihextract =>
    intro d
    rw [opened_token rfl, ihsource trivial, opened_token rfl, ihp trivial, opened_leftParen, ihstart trivial,
      opened_token rfl, ihupdate trivial, ihextract ⟨rfl, trivial⟩, opened_rightParen]

end Grammar

/-! ## Sources -/

open Grammar

namespace Token

theorem IsLexeme.after {t : Token} {offset : Nat} {text : List Char} (h : IsLexeme t offset text) (d : Nat)
    (below : List Enclosure) :
    Enclosure.after (.interpolation d 0 :: below) text =
      match Wording.nest d t with
      | some d' => .interpolation d' 0 :: below
      | none => below := by
  have hspelled := h.spelled
  cases t with
  | str parts =>
    obtain ⟨body, rfl, hbody⟩ := hspelled
    exact hbody.after_quoted d below []
  | _ =>
    have hspelled : text = _ := hspelled
    rw [hspelled]
    exact after_token h.wellSpelled

/-- What a source does to the interpolation around it is told by its tokens, and by the comment at its end. -/
theorem Covers.after {unfinished : Bool} {offset : Nat} {cs : List Char} {ls : List Lexeme}
    (h : Covers unfinished offset cs ls) (d : Nat) :
    Enclosure.after [.interpolation d 0] cs =
      match opened d ls with
      | some d' => if unfinished then [.comment, .interpolation d' 0] else [.interpolation d' 0]
      | none => [] := by
  induction h generalizing d with
  | finish h =>
    cases h with
    | gap h => exact after_isGap h d []
    | @comment gap text h htext =>
      have hopen : step 0 '#' [.interpolation d 0] = [.comment, .interpolation d 0] := rfl
      rw [after_append, after_isGap h, after_cons, hopen, after_comment _ htext]
      rfl
  | @lexeme offset gap text rest t ls hgap htext _ ih =>
    rw [after_append, after_isGap hgap, after_append, htext.after, opened_cons]
    cases Wording.nest d t with
    | none => exact nil_after rest
    | some d' => exact ih d'

theorem Covers.opened_inFrontOf {unfinished : Bool} {offset : Nat} {cs : List Char} {ls : List Lexeme}
    (h : Covers unfinished offset cs ls) (d : Nat) : opened d (inFrontOf ls []) = opened d ls := by
  induction h generalizing d with
  | finish h => rfl
  | lexeme hgap htext _ ih =>
    rw [inFrontOf_cons htext.ne_eof, opened_cons, opened_cons]
    cases Wording.nest d _ with
    | none => rfl
    | some d' => exact ih d'

/-- A source with a line feed behind it leaves as many parentheses open as its tokens do. -/
theorem after_scanFrom (below : List Enclosure) (cursor : Cursor) {ls : Lexemes} (h : scanFrom cursor = .ok ls)
    {d d' : Nat} (hopened : opened d (inFrontOf ls []) = some d') :
    after (.interpolation d 0 :: below) (cursor.rest ++ ['\n']) = .interpolation d' 0 :: below := by
  obtain ⟨unfinished, hcovers⟩ := Covers.of_scanFrom cursor h
  have hafter := hcovers.after d
  rw [← hcovers.opened_inFrontOf, hopened] at hafter
  have hne : after [.interpolation d 0] cursor.rest ≠ [] := by
    rw [hafter]
    cases unfinished <;> exact List.cons_ne_nil _ _
  have hbelow : after (.interpolation d 0 :: below) cursor.rest = after [.interpolation d 0] cursor.rest ++ below :=
    after_below below hne
  rw [after_append, hbelow, hafter]
  cases unfinished <;> rfl

end Token

/-- **A query is skipped as an interpolation is**: with a line feed behind it, it ends inside of what it began in. -/
theorem Query.after_lineFeed {source : String} {q : Query} (h : Query.parse source = .ok q) (d : Nat)
    (below : List Enclosure) :
    after (.interpolation d 0 :: below) (source.toList ++ ['\n']) = .interpolation d 0 :: below := by
  obtain ⟨ls, ls₁, hscan, -, hq, hend⟩ := Query.derives_of_parse h
  have hclosed : Derives .pipe (inFrontOf ls []) q (inFrontOf ls₁ []) := hq.inFrontOf fun _ => rfl
  rw [inFrontOf_of_eof hend] at hclosed
  exact Token.after_scanFrom below ⟨0, source.toList⟩ hscan (hclosed.opened_eq trivial d)

end DefTable
