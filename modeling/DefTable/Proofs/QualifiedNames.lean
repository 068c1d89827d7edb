import DefTable.Proofs.Coverage
import DefTable.Proofs.DerivationCompleteness
import DefTable.Proofs.WellFormedTrees

/-!
# Qualified names

A qualified name is made of segments with double colons between them, each of which is a letter or an underscore with
letters, digits and underscores behind it (`Token.IsQualified`). Identifiers and fields have such names. Behind a sigil
the first character is not looked at, so that the first segment may begin with a digit, or be empty in front of a double
colon (`Token.IsSigilName`); nothing else is possible there, and all of this is. The names in a tree are those of
tokens (`Grammar.Derives.wellNamed`).
-/

namespace DefTable

open Text

namespace Token

/-! ## Names of tokens -/

/-- A letter or an underscore, with letters, digits and underscores behind it. -/
def IsSegment (cs : List Char) : Prop :=
  ∃ c ds, cs = c :: ds ∧ isIdentStart c = true ∧ ∀ d ∈ ds, isIdentContinue d = true

/-- A first segment, and further ones behind double colons. -/
def joined (first : List Char) (more : List (List Char)) : List Char :=
  first ++ more.flatMap fun segment => ':' :: ':' :: segment

/-- One or more segments with double colons between them. -/
def IsQualified (cs : List Char) : Prop :=
  ∃ first more, cs = joined first more ∧ IsSegment first ∧ ∀ segment ∈ more, IsSegment segment

/-- What a name behind a sigil is: the first segment may begin with any character that continues names, and may be
empty in front of further ones. -/
def IsSigilName (cs : List Char) : Prop :=
  cs ≠ [] ∧ ∃ first more, cs = joined first more ∧ (∀ c ∈ first, isIdentContinue c = true) ∧
    ∀ segment ∈ more, IsSegment segment

/-- What the name in a token looks like. -/
def NameFormed : Token → Prop
  | .ident name => IsQualified name.toList
  | .field name => IsQualified name.toList
  | .variable name => ∃ cs, name.toList = '$' :: cs ∧ IsSigilName cs
  | .format name => ∃ cs, name.toList = '@' :: cs ∧ IsSigilName cs
  | _ => True

theorem joined_cons (c : Char) (first : List Char) (more : List (List Char)) :
    joined (c :: first) more = c :: joined first more := rfl

theorem joined_nil_cons (segment : List Char) (more : List (List Char)) :
    joined [] (segment :: more) = ':' :: ':' :: joined segment more := by
  simp [joined]

theorem splitName_separator {c : Char} (hc : isIdentStart c = true) (cs : List Char) :
    splitName (':' :: ':' :: c :: cs) = (':' :: ':' :: (splitName (c :: cs)).1, (splitName (c :: cs)).2) := by
  rw [splitName, if_pos hc, splitName_cons (isIdentContinue_of_isIdentStart hc)]

theorem splitName_run {run : List Char} (h : ∀ c ∈ run, isIdentContinue c = true) (cs : List Char) :
    splitName (run ++ cs) = (run ++ (splitName cs).1, (splitName cs).2) := by
  induction run with
  | nil => rfl
  | cons c run ih =>
    obtain ⟨hc, hrun⟩ := List.forall_mem_cons.1 h
    rw [List.cons_append, splitName_cons hc, ih hrun]
    rfl

theorem IsSegment.continues {cs : List Char} (h : IsSegment cs) : ∀ c ∈ cs, isIdentContinue c = true := by
  obtain ⟨c, ds, rfl, hc, hds⟩ := h
  exact List.forall_mem_cons.2 ⟨isIdentContinue_of_isIdentStart hc, hds⟩

/-- Segments are cut as one name. -/
theorem splitName_joined {first : List Char} {more : List (List Char)} (hfirst : ∀ c ∈ first, isIdentContinue c = true)
    (hmore : ∀ segment ∈ more, IsSegment segment) : splitName (joined first more) = (joined first more, []) := by
  induction more generalizing first with
  | nil =>
    have h := splitName_run hfirst []
    rwa [splitName] at h
  | cons segment more ih =>
    obtain ⟨hsegment, hmore⟩ := List.forall_mem_cons.1 hmore
    have hjoined : joined first (segment :: more) = first ++ joined [] (segment :: more) := rfl
    have hrest := ih hsegment.continues hmore
    obtain ⟨c, ds, rfl, hc, hds⟩ := hsegment
    rw [joined_cons] at hrest
    rw [hjoined, splitName_run hfirst, joined_nil_cons, joined_cons, splitName_separator hc, hrest]

/-- What is cut off as a name is made of segments, but for how the first one begins. -/
theorem joined_splitName (cs : List Char) : ∃ first more, (splitName cs).1 = joined first more ∧
    (∀ c ∈ first, isIdentContinue c = true) ∧ ∀ segment ∈ more, IsSegment segment := by
  fun_induction splitName cs with
  | case1 => exact ⟨[], [], rfl, List.forall_mem_nil _, List.forall_mem_nil _⟩
  | case2 c cs hc name rest hsplit ih =>
    obtain ⟨first, more, hname, hfirst, hmore⟩ := ih
    rw [hsplit] at hname
    have hsegment : IsSegment (c :: first) := ⟨c, first, rfl, hc, hfirst⟩
    refine ⟨[], (c :: first) :: more, ?_, List.forall_mem_nil _, List.forall_mem_cons.2 ⟨hsegment, hmore⟩⟩
    rw [joined_nil_cons, joined_cons, ← hname]
  | case3 => exact ⟨[], [], rfl, List.forall_mem_nil _, List.forall_mem_nil _⟩
  | case4 c cs _ hc name rest hsplit ih =>
    obtain ⟨first, more, hname, hfirst, hmore⟩ := ih
    rw [hsplit] at hname
    refine ⟨c :: first, more, ?_, List.forall_mem_cons.2 ⟨hc, hfirst⟩, hmore⟩
    rw [joined_cons, ← hname]
  | case5 => exact ⟨[], [], rfl, List.forall_mem_nil _, List.forall_mem_nil _⟩

theorem isName_iff {cs : List Char} : IsName cs ↔ IsSigilName cs := by
  constructor
  · rintro ⟨hne, hsplit⟩
    obtain ⟨first, more, hname, hfirst, hmore⟩ := joined_splitName cs
    rw [hsplit] at hname
    exact ⟨hne, first, more, hname, hfirst, hmore⟩
  · rintro ⟨hne, first, more, rfl, hfirst, hmore⟩
    exact ⟨hne, splitName_joined hfirst hmore⟩

/-- Behind a sigil, a name is qualified just when it begins as names do. -/
theorem IsSigilName.isQualified_iff {cs : List Char} (h : IsSigilName cs) :
    IsQualified cs ↔ ∃ c ∈ cs.head?, isIdentStart c = true := by
  constructor
  · rintro ⟨first, more, rfl, ⟨c, ds, rfl, hc, -⟩, -⟩
    exact ⟨c, rfl, hc⟩
  · rintro ⟨c, hhead, hc⟩
    obtain ⟨-, first, more, rfl, hfirst, hmore⟩ := h
    cases first with
    | nil =>
      -- the first character would be a colon
      cases more with
      | nil => cases hhead
      | cons segment more =>
        rw [joined_nil_cons] at hhead
        cases hhead
        cases hc
    | cons d ds =>
      cases hhead
      exact ⟨c :: ds, more, rfl, ⟨c, ds, rfl, hc, (List.forall_mem_cons.1 hfirst).2⟩, hmore⟩

theorem IsWord.isQualified {cs : List Char} (h : IsWord cs) : IsQualified cs := by
  have hne : cs ≠ [] := by
    rintro rfl
    obtain ⟨c, hc, -⟩ := h.2
    cases hc
  exact (isName_iff.1 ⟨hne, h.1⟩).isQualified_iff.2 h.2

theorem WellSpelled.nameFormed {t : Token} (h : t.WellSpelled) : t.NameFormed := by
  cases t with
  | ident name => exact h.1.isQualified
  | field name => exact IsWord.isQualified h
  | «variable» name =>
    obtain ⟨cs, hname, hcs⟩ := h
    exact ⟨cs, hname, isName_iff.1 hcs⟩
  | format name =>
    obtain ⟨cs, hname, hcs⟩ := h
    exact ⟨cs, hname, isName_iff.1 hcs⟩
  | _ => trivial

/-- What is read up to the end of a source is all of its tokens. -/
theorem scan_alone {base : Nat} {c : Char} {cs : List Char} {t : Token} {next : Cursor}
    (h : read base c cs = .ok (t, next)) (hrest : next.rest = []) :
    scan (String.ofList (c :: cs)) base = .ok [⟨t, base⟩, ⟨.eof, base + byteLength (c :: cs)⟩] := by
  obtain ⟨text, htext, hlexeme⟩ := lexeme_of_read h
  rw [hrest, List.append_nil] at htext
  rw [htext]
  exact hlexeme.alone

theorem scan_variable {cs : List Char} (h : IsSigilName cs) (base : Nat) : scan (String.ofList ('$' :: cs)) base =
    .ok [⟨.variable (String.ofList ('$' :: cs)), base⟩, ⟨.eof, base + byteLength ('$' :: cs)⟩] :=
  have hname := isName_iff.2 h
  scan_alone (read_sigil hname.2 hname.1) rfl

theorem scan_format {cs : List Char} (h : IsSigilName cs) (base : Nat) : scan (String.ofList ('@' :: cs)) base =
    .ok [⟨.format (String.ofList ('@' :: cs)), base⟩, ⟨.eof, base + byteLength ('@' :: cs)⟩] :=
  have hname := isName_iff.2 h
  scan_alone (read_sigil hname.2 hname.1) rfl

end Token

/-! ## Names in trees -/

/-- The name of a function, a field or a key. -/
def IsPlainName (name : String) : Prop :=
  Token.IsQualified name.toList

/-- The name of a variable or of a label, with its sigil. -/
def IsVariableName (name : String) : Prop :=
  ∃ cs, name.toList = '$' :: cs ∧ Token.IsSigilName cs

/-- The name of a format, with its sigil. -/
def IsFormatName (name : String) : Prop :=
  ∃ cs, name.toList = '@' :: cs ∧ Token.IsSigilName cs

namespace Node

variable {s : Shape}

/-- What the names at a node look like; one that is not there is empty. -/
@[simp] def WellNamed {s : Shape} : Node s → Prop
  | .definition name params _ => IsPlainName name ∧ ∀ param ∈ params, IsPlainName param ∨ IsVariableName param
  | .query _ _ _ _ _ func => func = ""
  | .term _ _ _ _ _ _ _ format _ _ _ _ _ _ breakLabel _ _ =>
    (format = "" ∨ IsFormatName format) ∧ (breakLabel = "" ∨ IsVariableName breakLabel)
  | .index name _ _ _ _ => name = "" ∨ IsPlainName name
  | .call name args => IsPlainName name ∨ IsVariableName name ∧ args = .nil
  | .entry key _ _ _ => key = "" ∨ IsPlainName key ∨ IsVariableName key
  | .pattern name _ _ => name = "" ∨ IsVariableName name
  | .patternEntry key _ _ _ => key = "" ∨ IsPlainName key ∨ IsVariableName key
  | .label name _ => IsVariableName name
  | _ => True

theorem wellNamed_withDefs {d : Definition} {q : Query} (hd : d.Everywhere WellNamed) (hq : q.Everywhere WellNamed) :
    (Query.withDefs (.cons d .nil) q).Everywhere WellNamed := by
  cases q with
  | query own t l op r func =>
    obtain ⟨hfunc, hown, hrest⟩ := hq
    exact ⟨hfunc, ⟨hd, hown⟩, hrest⟩

theorem wellNamed_withSuffixes {t : Term} {ss : List Suffix} (ht : t.Everywhere WellNamed)
    (hss : (ofList ss).Everywhere WellNamed) : (Term.withSuffixes ss t).Everywhere WellNamed := by
  cases t with
  | term kind i c o a num u fmt x cond att red fore lab brk q own =>
    obtain ⟨hnames, hi, hc, ho, ha, hunary, hx, hcond, hatt, hred, hfore, hlab, hq, hown⟩ := ht
    exact ⟨hnames, hi, hc, ho, ha, hunary, hx, hcond, hatt, hred, hfore, hlab, hq, everywhere_append.2 ⟨hown, hss⟩⟩

theorem wellNamed_bareName {name : String} (h : IsPlainName name) :
    (Grammar.bareName name).Everywhere WellNamed := by
  unfold Grammar.bareName
  split <;> simp [Term.ofKind, Term.ofCall, ofList, h]

end Node

namespace Grammar

open Node

theorem isPlainName_of_wordKey {t : Token} {key : String} (ht : t.WellSpelled) (h : wordKey? t = some key) :
    IsPlainName key := by
  cases t with
  | ident name =>
    cases h
    exact ht.nameFormed
  | keyword k =>
    -- a reserved word is a word
    cases h
    refine Token.IsWord.isQualified ?_
    cases k <;> exact ⟨rfl, _, rfl, rfl⟩
  | _ => cases h

theorem parameter_named {t : Token} {name : String} (ht : t.WellSpelled) (h : parameter? t = some name) :
    IsPlainName name ∨ IsVariableName name := by
  cases t with
  | ident name =>
    cases h
    exact .inl ht.nameFormed
  | «variable» name =>
    cases h
    exact .inr ht.nameFormed
  | _ => cases h

theorem Parameters.named {ls ls₁ : Lexemes} {names : List String} (h : Parameters ls names ls₁) :
    ∀ name ∈ names, IsPlainName name ∨ IsVariableName name := by
  induction h with
  | last ht hname hnext => exact List.forall_mem_singleton.2 (parameter_named ht hname)
  | more ht hname h ih => exact List.forall_mem_cons.2 ⟨parameter_named ht hname, ih⟩

theorem ParameterList.named {ls ls₁ : Lexemes} {names : List String} (h : ParameterList ls names ls₁) :
    ∀ name ∈ names, IsPlainName name ∨ IsVariableName name := by
  cases h with
  | none hnext => exact nofun
  | some h => exact h.named

/-- The left operand that a production starts from has a property everywhere, where there is one already. -/
def Production.StartsWith (P : {s : Shape} → Node s → Prop) : Production → Prop
  | .binaryRest _ left => left.Everywhere P
  | .separated item _ => item.StartsWith P
  | .after _ item => item.StartsWith P
  | _ => True

theorem wellNamed_leaf {t : Token} {x : Term} (ht : t.WellSpelled) (h : leaf? t = some x) :
    x.Everywhere WellNamed := by
  cases t with
  | dotDot =>
    cases h
    simp [Term.ofKind]
  | field name =>
    cases h
    simpa [Term.ofIndex, Index.ofName] using .inr ht.nameFormed
  | number digits =>
    cases h
    simp [Term.ofNumber]
  | «variable» name =>
    cases h
    simp [Term.ofCall, ofList, show IsVariableName name from ht.nameFormed]
  | _ => cases h

theorem wellNamed_bracketSuffix {i : Node (.optional .index)} (h : i.Everywhere WellNamed) :
    (bracketSuffix i).Everywhere WellNamed := by
  cases i with
  | absent => simp [bracketSuffix, Suffix.iterate]
  | present i => simpa [bracketSuffix, Suffix.ofIndex] using h

/-- **What has a derivation has the names of its tokens.** -/
theorem Derives.wellNamed {p : Production} {ls ls₁ : Lexemes} {n : Node p.shape} (h : Derives p ls n ls₁)
    (hp : p.StartsWith WellNamed) : n.Everywhere WellNamed := by
  induction h with
  -- where a token gives a name
  | definition ht hname hparams hbody ih =>
    exact ⟨⟨isPlainName_of_wordKey ht hname, hparams.named⟩, ih trivial⟩
  | leaf ht hx => exact wellNamed_leaf ht hx
  | name ht hnext => exact wellNamed_bareName ht.nameFormed
  | formatText ht h ih => simpa [Term.ofFormat, ofOption] using ⟨.inr ht.nameFormed, ih trivial⟩
  | format ht hnext => simpa [Term.ofFormat, ofOption] using .inr ht.nameFormed
  | call ht h ih => simpa [Term.ofCall] using ⟨.inl ht.nameFormed, ih trivial⟩
  | label ht h ih => simpa [Term.ofLabel] using ⟨ht.nameFormed, ih trivial⟩
  | «break» ht => simpa [Term.ofBreak] using .inr ht.nameFormed
  | fieldSuffix ht h ih => simpa [Suffix.ofIndex, Index.ofName] using ⟨.inr ht.nameFormed, ih trivial⟩
  | variableEntry ht => simp [show IsVariableName _ from ht.nameFormed]
  | wordEntry ht hkey hv ihv => simpa using ⟨.inr (.inl (isPlainName_of_wordKey ht hkey)), ihv trivial⟩
  | variablePattern ht => simpa [Pattern.ofVariable] using .inr ht.nameFormed
  | variablePatternEntry ht hv ihv => simpa using ⟨.inr (.inr ht.nameFormed), ihv trivial⟩
  | wordPatternEntry ht hkey hp ihp => simpa using ⟨.inr (.inl (isPlainName_of_wordKey ht hkey)), ihp trivial⟩
  -- where trees are put together
  | localDefinition hd hq ihd ihq => exact wellNamed_withDefs (ihd trivial) (ihq trivial)
  | binary hleft hq ihleft ihq => exact ihq (ihleft trivial)
  | binaryEnd hnext => exact hp
  | binaryMore ht hop hleast hright hchain hq ihright ihq =>
    exact ihq (by simpa [Production.StartsWith, Query.binary] using ⟨hp, ihright trivial⟩)
  | binding ht hpatterns hbody iht ihpatterns ihbody =>
    have hbinding := And.intro (ihpatterns trivial) (ihbody trivial)
    simpa [Query.ofTerm] using wellNamed_withSuffixes (iht trivial) (by simpa [ofList, Suffix.ofBinding] using hbinding)
  | term ht hs iht ihs => exact wellNamed_withSuffixes (iht trivial) (by simpa using ihs trivial)
  | dotIterate h ih => exact wellNamed_withSuffixes (by simp [Term.ofKind]) (by simp [ofList, Suffix.iterate])
  | dotBracketSuffix hi h ihi ih => exact ⟨wellNamed_bracketSuffix (ihi trivial), ih trivial⟩
  | bracketSuffix hi h ihi ih => exact ⟨wellNamed_bracketSuffix (ihi trivial), ih trivial⟩
  | last h hnext ih => exact ⟨ih hp, trivial⟩
  | more hx hxs ihx ihxs => exact ⟨ihx hp, ihxs hp⟩
  | given h ih => exact ih hp
  | _ =>
    simp_all [Production.StartsWith, Query.ofTerm, Query.binary, Term.ofKind, Term.ofIndex, Index.ofText, Term.ofText,
      Term.ofQuery, Term.ofArray, Term.ofObject, Term.ofUnary, Term.ofConditional, Term.ofAttempt, Term.ofReduce,
      Term.ofForeach, Suffix.ofIndex, Suffix.optional, Pattern.ofArray, Pattern.ofObject, plainText, ofOption]

end Grammar

theorem Query.wellNamed_of_parse {source : String} {q : Query} (h : Query.parse source = .ok q) :
    q.Everywhere Node.WellNamed := by
  obtain ⟨ls, ls₁, -, -, hq, -⟩ := Query.derives_of_parse h
  exact hq.wellNamed trivial

theorem Definition.wellNamed_of_parseAll {source : String} {ds : List Definition}
    (h : Definition.parseAll source = .ok ds) : ∀ d ∈ ds, d.Everywhere Node.WellNamed := by
  obtain ⟨ls, ls₁, -, -, hds, -⟩ := Definition.derives_of_parseAll h
  have hall := Node.everywhere_toList.1 (hds.wellNamed trivial)
  rwa [Node.toList_ofList] at hall

/-- A term that is one token makes a query. -/
theorem Grammar.derives_alone {t : Token} {x : Term} {o o' : Nat}
    (h : Derives .primary [⟨t, o⟩, ⟨.eof, o'⟩] x [⟨.eof, o'⟩]) (hx : Term.withSuffixes [] x = x) :
    Derives .pipe [⟨t, o⟩, ⟨.eof, o'⟩] (Query.ofTerm x) [⟨.eof, o'⟩] := by
  have hterm : Derives .term [⟨t, o⟩, ⟨.eof, o'⟩] (Term.withSuffixes [] x) [⟨.eof, o'⟩] :=
    .term h (.suffixesEnd id)
  rw [hx] at hterm
  exact .pipe (.binary (.operand hterm nofun) (.binaryEnd nofun))

theorem Query.parse_variable {cs : List Char} (h : Token.IsSigilName cs) :
    Query.parse (String.ofList ('$' :: cs)) = .ok (Query.ofTerm (Term.ofCall (String.ofList ('$' :: cs)) [])) := by
  have hspelled : (Token.variable (String.ofList ('$' :: cs))).WellSpelled :=
    ⟨cs, String.toList_ofList, Token.isName_iff.2 h⟩
  exact Query.parse_of_derives (Token.scan_variable h 0) (Grammar.derives_alone (.leaf hspelled rfl) rfl) rfl

theorem Query.parse_format {cs : List Char} (h : Token.IsSigilName cs) :
    Query.parse (String.ofList ('@' :: cs)) = .ok (Query.ofTerm (Term.ofFormat (String.ofList ('@' :: cs)) none)) := by
  have hspelled : (Token.format (String.ofList ('@' :: cs))).WellSpelled :=
    ⟨cs, String.toList_ofList, Token.isName_iff.2 h⟩
  exact Query.parse_of_derives (Token.scan_format h 0) (Grammar.derives_alone (.format hspelled nofun) rfl) rfl

/-- **Names are qualified, but for how they begin behind a sigil.** In every source the names of identifiers and fields
are qualified, and what stands behind the sigil of a variable or a format is a sigil name. In the trees of a source the
names are of these forms at every node. A sigil name is qualified just when it begins with a letter or an underscore,
and every sigil name occurs as a variable and as a format. -/
theorem names_formed (source : String) :
    (∀ base ls, Token.scan source base = .ok ls → ∀ l ∈ ls, l.token.NameFormed) ∧
    (∀ q, Query.parse source = .ok q → q.Everywhere Node.WellNamed) ∧
    (∀ ds, Definition.parseAll source = .ok ds → ∀ d ∈ ds, d.Everywhere Node.WellNamed) ∧
    ∀ cs, Token.IsSigilName cs → (Token.IsQualified cs ↔ ∃ c ∈ cs.head?, Token.isIdentStart c = true) ∧
      Query.parse (String.ofList ('$' :: cs)) = .ok (Query.ofTerm (Term.ofCall (String.ofList ('$' :: cs)) [])) ∧
      Query.parse (String.ofList ('@' :: cs)) = .ok (Query.ofTerm (Term.ofFormat (String.ofList ('@' :: cs)) none)) :=
  ⟨fun _ _ h l hl => (Token.wellSpelled_scan h l hl).nameFormed, fun _ h => Query.wellNamed_of_parse h,
    fun _ h => Definition.wellNamed_of_parseAll h,
    fun _ h => ⟨h.isQualified_iff, Query.parse_variable h, Query.parse_format h⟩⟩

theorem names_formed_separator : Definition.parseAll "def m::f($x): $::a;" =
      .ok [.definition "m::f" ["$x"] (Query.ofTerm (Term.ofCall "$::a" []))] ∧
    Node.Everywhere Node.WellNamed (.definition "m::f" ["$x"] (Query.ofTerm (Term.ofCall "$::a" []))) ∧
    Query.parse "$::a" = .ok (Query.ofTerm (Term.ofCall "$::a" [])) := by
  have hall : Definition.parseAll "def m::f($x): $::a;" =
      .ok [.definition "m::f" ["$x"] (Query.ofTerm (Term.ofCall "$::a" []))] :=
    Grammar.ok_of_toOption (by decide +kernel)
  have hname : Token.IsSigilName "::a".toList :=
    ⟨by decide, [], [['a']], rfl, nofun, List.forall_mem_singleton.2 ⟨'a', [], rfl, rfl, nofun⟩⟩
  have hformed := names_formed "def m::f($x): $::a;"
  exact ⟨hall, hformed.2.2.1 _ hall _ List.mem_cons_self, (hformed.2.2.2 _ hname).2.1⟩

/-- A digit is read as the name of a variable, but it is no segment. -/
theorem Token.variable_digit :
    Token.scan "$1" 0 = .ok [⟨.variable "$1", 0⟩, ⟨.eof, 2⟩] ∧ ¬ Token.IsQualified ['1'] := by
  refine ⟨Grammar.ok_of_toOption (by decide +kernel), ?_⟩
  rintro ⟨first, more, hjoined, ⟨c, ds, rfl, hc, -⟩, -⟩
  have hhead : '1' = c := Option.some.inj (congrArg List.head? hjoined)
  rw [← hhead] at hc
  cases hc

end DefTable
