import DefTable.Proofs.Interpolations

/-!
# Behind the operator `//`

Every token of a query that is read has its place: behind the operator `//`, also where it is read from the sign `?//`,
comes an operand, so no equals sign, and what an interpolation holds is a query itself (`Grammar.Derives.fit_iff`). So
what is nested in a query is read as a query, at any depth (`Grammar.IsRead.inside`).
-/

namespace DefTable

open Token Grammar

namespace Grammar

/-! ## Tokens in their places -/

/-- Whether an operator comes next that begins with an equals sign. -/
def startsEqual : Lexemes → Bool
  | ⟨.op .assign, _⟩ :: _ => true
  | ⟨.op .eq, _⟩ :: _ => true
  | _ => false

/-- Whether a token is the operator `//`, or the sign that ends in it. -/
def endsInAlt : Token → Bool
  | .op .alt => true
  | .alternative => true
  | _ => false

/-- A nested source is read as a query, up to its end. -/
def IsRead (source : String) (offset : Nat) : Prop :=
  ∃ ls q ls₁, scan source offset = .ok ls ∧ Derives .pipe ls q ls₁ ∧ peek ls₁ = .eof

/-- A token has its place in front of others. -/
structure Fits (t : Token) (ls : Lexemes) : Prop where
  operand : endsInAlt t = true → startsEqual ls = false
  nested : ∀ parts, t = .str parts → ∀ source offset, .interpolation source offset ∈ parts → IsRead source offset

/-- Every token has its place. -/
def Fit : Lexemes → Prop
  | [] => True
  | l :: ls => Fits l.token ls ∧ Fit ls

section
variable {t : Token} {o : Nat} {ls : Lexemes}

theorem fit_cons (h : Fits t ls) : Fit (⟨t, o⟩ :: ls) ↔ Fit ls :=
  and_iff_right h

/-- Tokens that have their place in front of everything. -/
def fitsAnywhere : Token → Bool
  | .str _ => false
  | t => !endsInAlt t

theorem fit_token (ht : fitsAnywhere t = true) : Fit (⟨t, o⟩ :: ls) ↔ Fit ls := by
  refine fit_cons ⟨fun halt => ?_, ?_⟩
  · cases t <;> simp_all [fitsAnywhere]
  · rintro parts rfl
    cases ht

end

/-- An operator in front of an operand. -/
theorem fit_operator {l : Lexeme} {ls : Lexemes} {op : Operator} (hop : operator? [l] = some op)
    (h : startsEqual ls = false) : Fit (l :: ls) ↔ Fit ls := by
  refine fit_cons ⟨fun _ => h, fun parts hstr => ?_⟩
  simp [operator?, peek, hstr] at hop

/-- The sign has its place where the operator has. -/
theorem fit_sign {o : Nat} {ls : Lexemes} : Fit (⟨.alternative, o⟩ :: ls) ↔ Fit (⟨.op .alt, o⟩ :: ls) :=
  and_congr_left' ⟨fun h => ⟨fun _ => h.operand rfl, nofun⟩, fun h => ⟨fun _ => h.operand rfl, nofun⟩⟩

theorem fitsAnywhere_of_wordKey? {t : Token} {key : String} (h : wordKey? t = some key) : fitsAnywhere t = true := by
  cases t <;> first | rfl | cases h

theorem fitsAnywhere_of_parameter? {t : Token} {name : String} (h : parameter? t = some name) :
    fitsAnywhere t = true := by
  cases t <;> first | rfl | cases h

theorem fitsAnywhere_of_leaf? {t : Token} {x : Term} (h : leaf? t = some x) : fitsAnywhere t = true := by
  cases t <;> first | rfl | cases h

/-! ## Operands -/

/-- Productions that begin with an operand, a pattern or a definition. -/
def BeginsOperand : Production → Prop
  | .definition | .pipe | .binary _ | .rightOperand _ | .operand | .term | .primary | .string | .pattern => True
  | .separated item _ => item = .pattern
  | _ => False

theorem Derives.not_startsEqual {p : Production} {ls ls₁ : Lexemes} {n : Node p.shape} (h : Derives p ls n ls₁)
    (hp : BeginsOperand p) : startsEqual ls = false := by
  induction h with
  | pipe h ih | binary h₁ h₂ ih | localDefinition h₁ h₂ ih | pipeOperand h ih | binaryOperand hop h ih
  | operand h hnext ih | binding h hpatterns hbody ih | term h₁ h₂ ih | text h ih => exact ih trivial
  | leaf ht hx =>
    rename_i t _ _ _
    cases t <;> first | rfl | cases hx
  | sign hop => rcases hop with rfl | rfl <;> rfl
  | last h hnext ih | more h₁ h₂ ih =>
    cases hp
    exact ih trivial
  | definition | dotText | dotAccess | dotIterate | identity | formatText | format | call | name | parentheses
  | emptyArray | array | object | conditional | attempt | reduce | foreach | label | «break» | plainString | string
  | variablePattern | arrayPattern | objectPattern => rfl
  | _ => exact hp.elim

/-! ## Derivations -/

theorem Parameters.fit_iff {ls ls₁ : Lexemes} {names : List String} (h : Parameters ls names ls₁) :
    Fit ls ↔ Fit ls₁ := by
  induction h with
  | last ht hname => rw [fit_token (fitsAnywhere_of_parameter? hname)]
  | more ht hname h ih => rw [fit_token (fitsAnywhere_of_parameter? hname), fit_token rfl, ih]

theorem ParameterList.fit_iff {ls ls₁ : Lexemes} {names : List String} (h : ParameterList ls names ls₁) :
    Fit ls ↔ Fit ls₁ := by
  cases h with
  | none => rfl
  | some h => rw [fit_token rfl, h.fit_iff, fit_token rfl]

/-- Productions whose separators and leads are those of the grammar. -/
def FitsBetween : Production → Prop
  | .separated item separator =>
    (fitsAnywhere separator = true ∨ separator = .alternative ∧ item = .pattern) ∧ FitsBetween item
  | .after lead item => fitsAnywhere lead = true ∧ FitsBetween item
  | _ => True

/-- What interpolations hold is read when the parts of their string are. -/
theorem Derives.isRead {p : Production} {ls ls₁ : Lexemes} {n : Node p.shape} (h : Derives p ls n ls₁)
    {parts : List StringPart} (hp : p = .fragments parts) {source : String} {offset : Nat}
    (hmem : .interpolation source offset ∈ parts) : IsRead source offset := by
  induction h generalizing parts with
  | fragmentsEnd =>
    cases hp
    cases hmem
  | literal h ih =>
    cases hp
    rcases List.mem_cons.1 hmem with heq | hmem
    · cases heq
    · exact ih rfl hmem
  | interpolation hscan hq hend h _ ih =>
    cases hp
    rcases List.mem_cons.1 hmem with heq | hmem
    · cases heq
      exact ⟨_, _, _, hscan, hq, hend⟩
    · exact ih rfl hmem
  | _ => cases hp

/-- **Every token that a production takes has its place.** -/
theorem Derives.fit_iff {p : Production} {ls ls₁ : Lexemes} {n : Node p.shape} (h : Derives p ls n ls₁)
    (hp : FitsBetween p) : Fit ls ↔ Fit ls₁ := by
  induction h with
  -- what takes nothing
  | binaryEnd | suffixesEnd | fragmentsEnd | literal | interpolation | branchesEnd | definitionsEnd | missing => rfl
  -- what takes what another production takes, or two of them take
  | pipe h ih | pipeOperand h ih | binaryOperand hop h ih | operand h hnext ih | termQuery h ih | text h ih
  | objectValue h hnext ih => exact ih trivial
  | last h hnext ih => exact ih hp.2
  | localDefinition h₁ h₂ ih₁ ih₂ | binary h₁ h₂ ih₁ ih₂ | term h₁ h₂ ih₁ ih₂ | definitions h₁ h₂ ih₁ ih₂ =>
    exact (ih₁ trivial).trans (ih₂ trivial)
  | textEntry hx hv ihx ihv => exact (ihx trivial).trans (ihv ⟨rfl, trivial⟩)
  -- strings
  | plainString =>
    refine fit_cons ⟨nofun, ?_⟩
    rintro _ ⟨⟩ source offset hmem
    cases List.mem_singleton.1 hmem
  | string hne hparts h ih =>
    refine fit_cons ⟨nofun, ?_⟩
    rintro _ ⟨⟩ source offset hmem
    exact h.isRead rfl hmem
  -- tokens that stand everywhere, in front of it and behind it
  | identity | format | name | entriesEnd | iterate | variableEntry | variablePattern => exact fit_token rfl
  | leaf ht hx => exact fit_token (fitsAnywhere_of_leaf? hx)
  | emptyArray | «break» => rw [fit_token rfl, fit_token rfl]
  | dotText h ih | formatText ht h ih | object h ih | fieldSuffix ht h ih | questionSuffix h ih =>
    rw [fit_token rfl, ih trivial]
  | dotAccess h ih | dotIterate h ih => rw [fit_token rfl, fit_token rfl, ih trivial]
  | array h ih | sliceTo h ih | parentheses h ih => rw [fit_token rfl, ih trivial, fit_token rfl]
  | arrayPattern h ih | objectPattern h ih => rw [fit_token rfl, ih ⟨.inl rfl, trivial⟩, fit_token rfl]
  | position h ih | lastEntry h ih => rw [ih trivial, fit_token rfl]
  | sliceFrom h ih => rw [ih trivial, fit_token rfl, fit_token rfl]
  | label ht h ih => rw [fit_token rfl, fit_token rfl, fit_token rfl, ih trivial]
  | variablePatternEntry ht h ih => rw [fit_token rfl, ih ⟨rfl, trivial⟩]
  | wordEntry ht hkey h ih => rw [fit_token (fitsAnywhere_of_wordKey? hkey), ih ⟨rfl, trivial⟩]
  | wordPatternEntry ht hkey h ih => rw [fit_token (fitsAnywhere_of_wordKey? hkey), fit_token rfl, ih trivial]
  | given h ih => rw [fit_token hp.1, ih hp.2]
  | definition ht hname hparams hbody ih =>
    rw [fit_token rfl, fit_token (fitsAnywhere_of_wordKey? hname), hparams.fit_iff, fit_token rfl, ih trivial,
      fit_token rfl]
  | call ht h ih => rw [fit_token rfl, fit_token rfl, ih ⟨.inl rfl, trivial⟩, fit_token rfl]
  -- tokens between two productions
  | textSuffix h₁ h₂ ih₁ ih₂ | bracketSuffix h₁ h₂ ih₁ ih₂ => rw [fit_token rfl, ih₁ trivial, ih₂ trivial]
  | dotBracketSuffix h₁ h₂ ih₁ ih₂ => rw [fit_token rfl, fit_token rfl, ih₁ trivial, ih₂ trivial]
  | attempt h₁ h₂ ih₁ ih₂ => rw [fit_token rfl, ih₁ trivial, ih₂ ⟨rfl, trivial⟩]
  | moreEntries h₁ h₂ ih₁ ih₂ | pipedValue h₁ h₂ ih₁ ih₂ | textPatternEntry h₁ h₂ ih₁ ih₂ =>
    rw [ih₁ trivial, fit_token rfl, ih₂ trivial]
  | slice h₁ h₂ ih₁ ih₂ => rw [ih₁ trivial, fit_token rfl, ih₂ trivial, fit_token rfl]
  | computedEntry h₁ h₂ ih₁ ih₂ | computedPatternEntry h₁ h₂ ih₁ ih₂ =>
    rw [fit_token rfl, ih₁ trivial, fit_token rfl, fit_token rfl, ih₂ trivial]
  | branch hcond hthen hbs ihcond ihthen ihbs =>
    rw [fit_token rfl, ihcond trivial, fit_token rfl, ihthen trivial, ihbs trivial]
  | conditional hcond hthen helifs helse ihcond ihthen ihelifs ihelse =>
    rw [fit_token rfl, ihcond trivial, fit_token rfl, ihthen trivial, ihelifs trivial, ihelse ⟨rfl, trivial⟩,
      fit_token rfl]
  | reduce hsource hp hstart hupdate ihsource ihp ihstart ihupdate =>
    rw [fit_token rfl, ihsource trivial, fit_token rfl, ihp trivial, fit_token rfl, ihstart trivial, fit_token rfl,
      ihupdate trivial, fit_token rfl]
  | foreach hsource hp hstart hupdate hextract ihsource ihp ihstart ihupdate ihextract =>
    rw [fit_token rfl, ihsource trivial, fit_token rfl, ihp trivial, fit_token rfl, ihstart trivial, fit_token rfl,
      ihupdate trivial, ihextract ⟨rfl, trivial⟩, fit_token rfl]
  -- operators, and signs between patterns: no equals sign comes next
  | sign hop h ih => rw [fit_operator rfl (h.not_startsEqual trivial), ih trivial]
  | binaryMore ht hop hleast hright hchain hq ihright ihq =>
    rw [fit_operator hop (hright.not_startsEqual trivial), ihright trivial, ihq trivial]
  | alternativeSuffix h ih => rw [fit_sign, ih trivial]
  | binding ht hpatterns hbody iht ihpatterns ihbody =>
    rw [iht trivial, fit_token rfl, ihpatterns ⟨.inr ⟨rfl, rfl⟩, trivial⟩, fit_token rfl, ihbody trivial]
  | more h₁ h₂ ih₁ ih₂ =>
    rcases hp.1 with hseparator | ⟨rfl, rfl⟩
    · rw [ih₁ hp.2, fit_token hseparator, ih₂ hp]
    · rw [ih₁ trivial, fit_sign, fit_operator rfl (h₂.not_startsEqual rfl), ih₂ hp]

/-! ## Sources -/

theorem startsEqual_of_scanFrom {offset : Nat} {cs : List Char} {ls : Lexemes}
    (h : scanFrom ⟨offset, '=' :: cs⟩ = .ok ls) : startsEqual ls = true := by
  have hoperator {op : Operator} {rest : List Char} (hop : op = .assign ∨ op = .eq)
      (hsplit : splitOperator? ('=' :: cs) = some (op, rest)) : startsEqual ls = true := by
    rw [scanFrom_read rfl (by decide) (read_operator hsplit)] at h
    obtain ⟨ls₁, -, rfl⟩ := exists_of_map_ok h
    rcases hop with rfl | rfl <;> rfl
  by_cases hcs : cs.head? = some '='
  · obtain ⟨ds, rfl⟩ := List.head?_eq_some_iff.1 hcs
    exact hoperator (.inr rfl) rfl
  · have hsplit : splitOperator? ('=' :: cs) = some (.assign, cs) := by
      cases cs with
      | nil => rfl
      | cons c cs =>
        have hc : c ≠ '=' := fun hc => hcs (congrArg some hc)
        simp [splitOperator?, hc]
    exact hoperator (.inl rfl) hsplit

section
variable {front ls : Lexemes} {t : Token} {o : Nat}

theorem startsEqual_inFrontOf (ls : Lexemes) : startsEqual (inFrontOf ls []) = startsEqual ls := by
  by_cases hpeek : peek ls = .eof
  · rw [inFrontOf_of_eof hpeek]
    obtain - | ⟨⟨t, o⟩, ls⟩ := ls
    · rfl
    · obtain rfl : t = .eof := hpeek
      rfl
  · obtain - | ⟨⟨t, o⟩, ls⟩ := ls
    · rfl
    · rw [inFrontOf_cons (t := t) hpeek]
      cases t <;> first | rfl | (rename_i op; cases op <;> rfl)

/-- The end of a source has its place as well. -/
theorem fit_end (heof : ∀ l ∈ front, l.token ≠ .eof) (h : Fit (inFrontOf (front ++ [⟨.eof, o⟩]) [])) :
    Fit (front ++ [⟨.eof, o⟩]) := by
  induction front with
  | nil => exact (fit_token rfl).2 trivial
  | cons l front ih =>
    obtain ⟨t, o₁⟩ := l
    obtain ⟨ht, hfront⟩ := List.forall_mem_cons.1 heof
    rw [List.cons_append, inFrontOf_cons ht] at h
    obtain ⟨hfits, hrest⟩ := h
    refine ⟨⟨fun halt => ?_, hfits.nested⟩, ih hfront hrest⟩
    rw [← startsEqual_inFrontOf]
    exact hfits.operand halt

theorem Fit.fits (h : Fit (front ++ ⟨t, o⟩ :: ls)) : Fits t ls := by
  induction front with
  | nil => exact h.1
  | cons l front ih => exact ih h.2

end

theorem IsRead.fit {source : String} {offset : Nat} (h : IsRead source offset) :
    ∃ ls, scan source offset = .ok ls ∧ Fit ls := by
  obtain ⟨ls, q, ls₁, hscan, hq, hend⟩ := h
  obtain ⟨front, rfl, hfront⟩ := end_of_scan hscan
  have hclosed : Derives .pipe (inFrontOf _ []) q (inFrontOf ls₁ []) := hq.inFrontOf fun _ => rfl
  rw [inFrontOf_of_eof hend] at hclosed
  exact ⟨_, hscan, fit_end hfront ((hclosed.fit_iff trivial).2 trivial)⟩

theorem IsRead.part {source inner : String} {base o start : Nat} {ls : Lexemes} {parts : List StringPart}
    (h : IsRead source base) (hscan : scan source base = .ok ls) (hl : ⟨.str parts, o⟩ ∈ ls)
    (hpart : .interpolation inner start ∈ parts) : IsRead inner start := by
  obtain ⟨ls', hscan', hfit⟩ := h.fit
  obtain rfl : ls' = ls := Except.ok.inj (hscan'.symm.trans hscan)
  obtain ⟨front, back, rfl⟩ := List.append_of_mem hl
  exact hfit.fits.nested parts rfl inner start hpart

/-- **What interpolations hold is read with their source**, at any depth. -/
theorem IsRead.inside {source inner : String} {base start : Nat} (hinside : Inside source base inner start)
    (h : IsRead source base) : IsRead inner start := by
  induction hinside with
  | part hscan hl hpart => exact h.part hscan hl hpart
  | deeper hscan hl hpart _ ih => exact ih (h.part hscan hl hpart)

end Grammar

theorem Query.isRead_of_parse {source : String} {q : Query} (h : Query.parse source = .ok q) : IsRead source 0 := by
  obtain ⟨ls, ls₁, hscan, -, hq, hend⟩ := Query.derives_of_parse h
  exact ⟨ls, q, ls₁, hscan, hq, hend⟩

end DefTable
