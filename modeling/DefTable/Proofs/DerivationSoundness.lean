import DefTable.Proofs.Derivations

/-!
# What the parser reads has a derivation

Every production with any number of steps keeps to the rules (`Grammar.sound`): what it yields has a derivation from the
lexemes it was given, and leaves lexemes of the same source. There is one lemma for every production, which follows the
calls it makes. A parsed query and parsed definitions then have a derivation from the tokens of their source
(`Query.derives_of_parse`, `Definition.derives_of_parseAll`).
-/

namespace DefTable
namespace Grammar

/-! ## Single tokens -/

theorem expect_ok {t : Token} {ls ls₁ : Lexemes} (h : expect t ls = .ok ls₁) : ∃ o, ls = ⟨t, o⟩ :: ls₁ := by
  cases ls with
  | nil => cases h
  | cons l ls =>
    rw [expect] at h
    split at h
    · next ht =>
      cases h
      exact ⟨l.offset, by rw [← ht]⟩
    · cases h

theorem parameters_sound : ∀ {ls : Lexemes} {names ls₁}, Spelled ls → parameters ls = .ok (names, ls₁) →
    Parameters ls names ls₁ ∧ Spelled ls₁
  | [], _, _, _, h => by cases h
  | ⟨t, o⟩ :: ls, names, ls₁, hls, h => by
    obtain ⟨ht, hls⟩ := spelled_cons.1 hls
    rw [parameters] at h
    split at h
    · cases h
    · next name hname =>
      split at h
      · next o₁ ls =>
        obtain ⟨⟨names, ls₂⟩, hnames, h⟩ := exists_of_bind_ok h
        cases h
        have hmore := parameters_sound hls.tail hnames
        exact ⟨.more ht hname hmore.1, hmore.2⟩
      · next hnext =>
        cases h
        exact ⟨.last ht hname (peek_ne (by simp) hnext), hls⟩

theorem parameterList_sound {ls names ls₁} (hls : Spelled ls) (h : parameterList ls = .ok (names, ls₁)) :
    ParameterList ls names ls₁ ∧ Spelled ls₁ := by
  unfold parameterList at h
  split at h
  · obtain ⟨⟨names, ls₂⟩, hnames, h⟩ := exists_of_bind_ok h
    obtain ⟨ls₃, hclose, h⟩ := exists_of_bind_ok h
    cases h
    obtain ⟨o, rfl⟩ := expect_ok hclose
    obtain ⟨h, hls⟩ := parameters_sound hls.tail hnames
    exact ⟨.some h, hls.tail⟩
  · next hnext =>
    cases h
    exact ⟨.none (peek_ne (by simp) hnext), hls⟩

theorem definitionName_ok {ls name ls₁} (h : definitionName ls = .ok (name, ls₁)) :
    ∃ t o, ls = ⟨t, o⟩ :: ls₁ ∧ wordKey? t = some name := by
  cases ls with
  | nil => cases h
  | cons l ls =>
    rw [definitionName] at h
    split at h
    · next hname =>
      cases h
      exact ⟨l.token, l.offset, rfl, hname⟩
    · cases h

theorem variableName_ok {ls name ls₁} (h : variableName ls = .ok (name, ls₁)) :
    ∃ o, ls = ⟨.variable name, o⟩ :: ls₁ := by
  unfold variableName at h
  split at h
  · cases h
    exact ⟨_, rfl⟩
  · cases h

/-! ## Steps -/

section
variable {α β : Type} {r : β}

/-- What is read first, and how it goes on behind it. -/
theorem read_bind {P : α → Lexemes → Prop} {read : Parsed (α × Lexemes)} {f : α × Lexemes → Parsed β}
    (hread : ∀ {x ls₁}, read = .ok (x, ls₁) → P x ls₁ ∧ Spelled ls₁) (h : read >>= f = .ok r) :
    ∃ x ls₁, P x ls₁ ∧ Spelled ls₁ ∧ f (x, ls₁) = .ok r := by
  obtain ⟨⟨x, ls₁⟩, hx, h⟩ := exists_of_bind_ok h
  obtain ⟨hx, hls⟩ := hread hx
  exact ⟨x, ls₁, hx, hls, h⟩

/-- The token that has to stand behind what was read, and how it goes on behind that. -/
theorem expect_bind {P : Lexemes → Prop} {t : Token} {ls : Lexemes} {f : Lexemes → Parsed β} (hls : Spelled ls)
    (hP : P ls) (h : expect t ls >>= f = .ok r) :
    ∃ o ls₁, P (⟨t, o⟩ :: ls₁) ∧ Spelled ls₁ ∧ f ls₁ = .ok r := by
  obtain ⟨ls₁, hexpect, hf⟩ := exists_of_bind_ok h
  obtain ⟨o, rfl⟩ := expect_ok hexpect
  exact ⟨o, ls₁, hP, hls.tail, hf⟩

end

/-! ## Lists -/

/-- A list follows the rules when its members do. -/
theorem listed_sound {item : Production} {separator : Token} (hseparator : separator ≠ .eof)
    {first : Parsed (Node item.shape × Lexemes)} {further : Lexemes → Parsed (List (Node item.shape) × Lexemes)}
    {ls : Lexemes} (hfirst : ∀ {x ls₁}, first = .ok (x, ls₁) → Derives item ls x ls₁ ∧ Spelled ls₁)
    (hfurther : ∀ {ls xs ls₁}, Spelled ls → further ls = .ok (xs, ls₁) →
      Derives (.separated item separator) ls (.ofList xs) ls₁ ∧ Spelled ls₁)
    {xs ls₁} (h : listed separator first further = .ok (xs, ls₁)) :
    Derives (.separated item separator) ls (.ofList xs) ls₁ ∧ Spelled ls₁ := by
  obtain ⟨⟨x, ls₂⟩, hx, h⟩ := exists_of_bind_ok h
  obtain ⟨hx, hls⟩ := hfirst hx
  dsimp only at h
  split at h
  · next hnext =>
    obtain ⟨⟨xs, ls₃⟩, hxs, h⟩ := exists_of_bind_ok h
    cases h
    obtain ⟨o, hcons⟩ := eq_cons_of_peek hseparator hnext
    rw [hcons] at hx hls
    obtain ⟨hxs, hls⟩ := hfurther hls.tail hxs
    exact ⟨.more hx hxs, hls⟩
  · next hnext =>
    cases h
    exact ⟨.last hx hnext, hls⟩

/-! ## What may be missing -/

theorem optionally_sound {item : Production} {lead : Token} (hlead : lead ≠ .eof)
    {read : Lexemes → Parsed (Node item.shape × Lexemes)} {ls : Lexemes} (hls : Spelled ls)
    (hread : ∀ {ls x ls₁}, Spelled ls → read ls = .ok (x, ls₁) → Derives item ls x ls₁ ∧ Spelled ls₁)
    {x ls₁} (h : optionally lead read ls = .ok (x, ls₁)) :
    Derives (.after lead item) ls (.ofOption x) ls₁ ∧ Spelled ls₁ := by
  unfold optionally at h
  split at h
  · next hnext =>
    obtain ⟨⟨x, ls₂⟩, hx, h⟩ := exists_of_bind_ok h
    cases h
    obtain ⟨o, hcons⟩ := eq_cons_of_peek hlead hnext
    rw [hcons] at hls ⊢
    obtain ⟨hx, hls⟩ := hread hls.tail hx
    exact ⟨.given hx, hls⟩
  · next hnext =>
    cases h
    exact ⟨.missing hnext, hls⟩

/-! ## Productions -/

/-- The productions with `n` steps follow the rules. -/
structure Sound (n : Nat) : Prop where
  definition {ls d ls₁} : Spelled ls → definition n ls = .ok (d, ls₁) → Derives .definition ls d ls₁ ∧ Spelled ls₁
  pipe {ls q ls₁} : Spelled ls → pipe n ls = .ok (q, ls₁) → Derives .pipe ls q ls₁ ∧ Spelled ls₁
  binary {p ls q ls₁} : Spelled ls → binary n p ls = .ok (q, ls₁) → Derives (.binary p) ls q ls₁ ∧ Spelled ls₁
  binaryRest {p left ls q ls₁} : Spelled ls → binaryRest n p left ls = .ok (q, ls₁) →
    Derives (.binaryRest p left) ls q ls₁ ∧ Spelled ls₁
  operand {ls q ls₁} : Spelled ls → operand n ls = .ok (q, ls₁) → Derives .operand ls q ls₁ ∧ Spelled ls₁
  alternatives {ls ps ls₁} : Spelled ls → alternatives n ls = .ok (ps, ls₁) →
    Derives (.separated .pattern .alternative) ls (.ofList ps) ls₁ ∧ Spelled ls₁
  term {ls t ls₁} : Spelled ls → term n ls = .ok (t, ls₁) → Derives .term ls t ls₁ ∧ Spelled ls₁
  primary {ls t ls₁} : Spelled ls → primary n ls = .ok (t, ls₁) → Derives .primary ls t ls₁ ∧ Spelled ls₁
  arguments {ls qs ls₁} : Spelled ls → arguments n ls = .ok (qs, ls₁) →
    Derives (.separated .pipe .semicolon) ls (.ofList qs) ls₁ ∧ Spelled ls₁
  suffixes {ls ss ls₁} : Spelled ls → suffixes n ls = .ok (ss, ls₁) →
    Derives .suffixes ls (.ofList ss) ls₁ ∧ Spelled ls₁
  bracket {ls i ls₁} : Spelled ls → bracket n ls = .ok (i, ls₁) → Derives .bracket ls (.ofOption i) ls₁ ∧ Spelled ls₁
  string {parts x} : parts ≠ [] → string n parts = .ok x → ∀ o ls, Derives .string (⟨.str parts, o⟩ :: ls) x ls
  fragments {parts qs} : fragments n parts = .ok qs → Derives (.fragments parts) [] (.ofList qs) []
  whole {source base q} : whole n source base = .ok q →
    ∃ ls ls₁, Token.scan source base = .ok ls ∧ Spelled ls ∧ Derives .pipe ls q ls₁ ∧ peek ls₁ = .eof
  objectEntries {ls es ls₁} : Spelled ls → objectEntries n ls = .ok (es, ls₁) →
    Derives .objectEntries ls (.ofList es) ls₁ ∧ Spelled ls₁
  objectEntry {ls e ls₁} : Spelled ls → objectEntry n ls = .ok (e, ls₁) → Derives .objectEntry ls e ls₁ ∧ Spelled ls₁
  optionalValue {ls v ls₁} : Spelled ls → optionalValue n ls = .ok (v, ls₁) →
    Derives (.after .colon .objectValue) ls (.ofOption v) ls₁ ∧ Spelled ls₁
  objectValue {ls v ls₁} : Spelled ls → objectValue n ls = .ok (v, ls₁) → Derives .objectValue ls v ls₁ ∧ Spelled ls₁
  pattern {ls p ls₁} : Spelled ls → pattern n ls = .ok (p, ls₁) → Derives .pattern ls p ls₁ ∧ Spelled ls₁
  patternItems {ls ps ls₁} : Spelled ls → patternItems n ls = .ok (ps, ls₁) →
    Derives (.separated .pattern (.op .comma)) ls (.ofList ps) ls₁ ∧ Spelled ls₁
  patternEntries {ls es ls₁} : Spelled ls → patternEntries n ls = .ok (es, ls₁) →
    Derives (.separated .patternEntry (.op .comma)) ls (.ofList es) ls₁ ∧ Spelled ls₁
  patternEntry {ls e ls₁} : Spelled ls → patternEntry n ls = .ok (e, ls₁) →
    Derives .patternEntry ls e ls₁ ∧ Spelled ls₁
  branches {ls bs ls₁} : Spelled ls → branches n ls = .ok (bs, ls₁) →
    Derives .branches ls (.ofList bs) ls₁ ∧ Spelled ls₁
  elseBranch {ls q ls₁} : Spelled ls → elseBranch n ls = .ok (q, ls₁) →
    Derives (.after (.keyword .else) .pipe) ls (.ofOption q) ls₁ ∧ Spelled ls₁
  extraction {ls q ls₁} : Spelled ls → extraction n ls = .ok (q, ls₁) →
    Derives (.after .semicolon .pipe) ls (.ofOption q) ls₁ ∧ Spelled ls₁

section
variable {n : Nat} (ih : Sound n) {ls ls₁ : Lexemes} (hls : Spelled ls)
include ih hls

theorem definition_sound {d} (h : definition (n + 1) ls = .ok (d, ls₁)) :
    Derives .definition ls d ls₁ ∧ Spelled ls₁ := by
  rw [definition] at h
  obtain ⟨ls₂, hdefine, h⟩ := exists_of_bind_ok h
  obtain ⟨⟨name, ls₃⟩, hname, h⟩ := exists_of_bind_ok h
  obtain ⟨⟨params, ls₄⟩, hparams, h⟩ := exists_of_bind_ok h
  obtain ⟨ls₅, hcolon, h⟩ := exists_of_bind_ok h
  obtain ⟨⟨body, ls₆⟩, hbody, h⟩ := exists_of_bind_ok h
  obtain ⟨ls₇, hsemicolon, h⟩ := exists_of_bind_ok h
  cases h
  obtain ⟨o, rfl⟩ := expect_ok hdefine
  obtain ⟨t, o₁, rfl, hkey⟩ := definitionName_ok hname
  obtain ⟨ht, hls⟩ := spelled_cons.1 hls.tail
  obtain ⟨hparams, hls⟩ := parameterList_sound hls hparams
  obtain ⟨o₂, rfl⟩ := expect_ok hcolon
  obtain ⟨hbody, hls⟩ := ih.pipe hls.tail hbody
  obtain ⟨o₃, rfl⟩ := expect_ok hsemicolon
  exact ⟨.definition ht hkey hparams hbody, hls.tail⟩

theorem pipe_sound {q} (h : pipe (n + 1) ls = .ok (q, ls₁)) : Derives .pipe ls q ls₁ ∧ Spelled ls₁ := by
  rw [pipe] at h
  split at h
  · obtain ⟨d, ls₂, hd, hls, h⟩ := read_bind (ih.definition hls) h
    obtain ⟨q, ls₃, hq, hls, h⟩ := read_bind (ih.pipe hls) h
    cases h
    exact ⟨.localDefinition hd hq, hls⟩
  · obtain ⟨hq, hls⟩ := ih.binary hls h
    exact ⟨.pipe hq, hls⟩

theorem binary_sound {p q} (h : binary (n + 1) p ls = .ok (q, ls₁)) : Derives (.binary p) ls q ls₁ ∧ Spelled ls₁ := by
  rw [binary] at h
  obtain ⟨left, ls₂, hleft, hls, h⟩ := read_bind (ih.operand hls) h
  obtain ⟨hq, hls⟩ := ih.binaryRest hls h
  exact ⟨.binary hleft hq, hls⟩

theorem rightOperand_sound {op q} (h : rightOperand n op ls = .ok (q, ls₁)) :
    Derives (.rightOperand op) ls q ls₁ ∧ Spelled ls₁ := by
  unfold rightOperand at h
  split at h
  · next hop =>
    subst hop
    obtain ⟨hq, hls⟩ := ih.pipe hls h
    exact ⟨.pipeOperand hq, hls⟩
  · next hop =>
    have hleast : (if op.associativity = .right then binary n op.precedence ls else binary n (op.precedence + 1) ls) =
        binary n (rightLeast op) ls := by
      unfold rightLeast
      split <;> rfl
    rw [hleast] at h
    obtain ⟨hq, hls⟩ := ih.binary hls h
    exact ⟨.binaryOperand hop hq, hls⟩

theorem binaryRest_sound {p left q} (h : binaryRest (n + 1) p left ls = .ok (q, ls₁)) :
    Derives (.binaryRest p left) ls q ls₁ ∧ Spelled ls₁ := by
  rw [binaryRest_succ] at h
  cases ls with
  | nil =>
    cases h
    exact ⟨.binaryEnd nofun, hls⟩
  | cons l ls =>
    cases hop : operator? (l :: ls) with
    | none =>
      rw [hop] at h
      cases h
      exact ⟨.binaryEnd (by simp [hop]), hls⟩
    | some op =>
      rw [hop] at h
      dsimp only at h
      split at h
      · next hp =>
        cases h
        exact ⟨.binaryEnd (by simpa [hop] using hp), hls⟩
      · next hp =>
        have ht : l.token.WellSpelled := hls l List.mem_cons_self
        obtain ⟨right, ls₂, hright, hls, h⟩ := read_bind (rightOperand_sound ih hls.tail) h
        dsimp only at h
        split at h
        · cases h
        · next hchain =>
          obtain ⟨hq, hls⟩ := ih.binaryRest hls h
          exact ⟨.binaryMore ht hop (Nat.le_of_not_lt hp) hright hchain hq, hls⟩

theorem operand_sound {q} (h : operand (n + 1) ls = .ok (q, ls₁)) : Derives .operand ls q ls₁ ∧ Spelled ls₁ := by
  rw [operand] at h
  obtain ⟨t, ls₂, ht, hls, h⟩ := read_bind (ih.term hls) h
  dsimp only at h
  split at h
  · obtain ⟨patterns, ls₃, hpatterns, hls, h⟩ := read_bind (ih.alternatives hls.tail) h
    obtain ⟨o, ls₄, hpatterns, hls, h⟩ := expect_bind hls hpatterns h
    obtain ⟨body, ls₅, hbody, hls, h⟩ := read_bind (ih.pipe hls) h
    cases h
    have hd := Derives.binding ht hpatterns hbody
    rw [Node.toList_ofList] at hd
    exact ⟨hd, hls⟩
  · next hnext =>
    cases h
    exact ⟨.operand ht (peek_ne (by simp) hnext), hls⟩

theorem term_sound {t} (h : term (n + 1) ls = .ok (t, ls₁)) : Derives .term ls t ls₁ ∧ Spelled ls₁ := by
  rw [term] at h
  obtain ⟨t, ls₂, ht, hls, h⟩ := read_bind (ih.primary hls) h
  obtain ⟨ss, ls₃, hss, hls, h⟩ := read_bind (ih.suffixes hls) h
  cases h
  have hd := Derives.term ht hss
  rw [Node.toList_ofList] at hd
  exact ⟨hd, hls⟩

theorem alternatives_sound {ps} (h : alternatives (n + 1) ls = .ok (ps, ls₁)) :
    Derives (.separated .pattern .alternative) ls (.ofList ps) ls₁ ∧ Spelled ls₁ := by
  rw [alternatives_succ] at h
  exact listed_sound (by simp) (ih.pattern hls) ih.alternatives h

theorem arguments_sound {qs} (h : arguments (n + 1) ls = .ok (qs, ls₁)) :
    Derives (.separated .pipe .semicolon) ls (.ofList qs) ls₁ ∧ Spelled ls₁ := by
  rw [arguments_succ] at h
  exact listed_sound (by simp) (ih.pipe hls) ih.arguments h

theorem patternItems_sound {ps} (h : patternItems (n + 1) ls = .ok (ps, ls₁)) :
    Derives (.separated .pattern (.op .comma)) ls (.ofList ps) ls₁ ∧ Spelled ls₁ := by
  rw [patternItems_succ] at h
  exact listed_sound (by simp) (ih.pattern hls) ih.patternItems h

theorem patternEntries_sound {es} (h : patternEntries (n + 1) ls = .ok (es, ls₁)) :
    Derives (.separated .patternEntry (.op .comma)) ls (.ofList es) ls₁ ∧ Spelled ls₁ := by
  rw [patternEntries_succ] at h
  exact listed_sound (by simp) (ih.patternEntry hls) ih.patternEntries h

theorem suffixes_sound {ss} (h : suffixes (n + 1) ls = .ok (ss, ls₁)) :
    Derives .suffixes ls (.ofList ss) ls₁ ∧ Spelled ls₁ := by
  unfold suffixes at h
  split at h
  case h_1 name o ls =>
    obtain ⟨ht, hls⟩ := spelled_cons.1 hls
    obtain ⟨ss, ls₂, hss, hls, h⟩ := read_bind (ih.suffixes hls) h
    cases h
    exact ⟨.fieldSuffix ht hss, hls⟩
  case h_2 o parts o₁ ls =>
    obtain ⟨ht, hls⟩ := spelled_cons.1 hls.tail
    obtain ⟨x, hx, h⟩ := exists_of_bind_ok h
    obtain ⟨ss, ls₂, hss, hls, h⟩ := read_bind (ih.suffixes hls) h
    cases h
    exact ⟨.textSuffix (ih.string ht hx o₁ ls) hss, hls⟩
  case h_3 o o₁ ls =>
    obtain ⟨access, ls₂, haccess, hls, h⟩ := read_bind (ih.bracket hls.tail.tail) h
    obtain ⟨ss, ls₃, hss, hls, h⟩ := read_bind (ih.suffixes hls) h
    cases h
    have hd : Derives .suffixes (⟨.dot, o⟩ :: ⟨.leftBracket, o₁⟩ :: ls) _ _ := .dotBracketSuffix haccess hss
    cases access <;> exact ⟨hd, hls⟩
  case h_4 o ls =>
    obtain ⟨access, ls₂, haccess, hls, h⟩ := read_bind (ih.bracket hls.tail) h
    obtain ⟨ss, ls₃, hss, hls, h⟩ := read_bind (ih.suffixes hls) h
    cases h
    have hd := Derives.bracketSuffix (o := o) haccess hss
    cases access <;> exact ⟨hd, hls⟩
  case h_5 o ls =>
    obtain ⟨ss, ls₂, hss, hls, h⟩ := read_bind (ih.suffixes hls.tail) h
    cases h
    exact ⟨.questionSuffix hss, hls⟩
  case h_6 o ls =>
    have halt : Spelled (⟨.op .alt, o⟩ :: ls) := spelled_cons.2 ⟨⟨nofun, nofun⟩, hls.tail⟩
    obtain ⟨ss, ls₂, hss, hls, h⟩ := read_bind (ih.suffixes halt) h
    cases h
    exact ⟨.alternativeSuffix hss, hls⟩
  case h_7 hfield htext hdot hbracket hquestion halternative =>
    cases h
    refine ⟨.suffixesEnd fun hstarts => ?_, hls⟩
    unfold StartsSuffix at hstarts
    split at hstarts
    · exact hfield _ _ _ rfl
    · exact htext _ _ _ _ rfl
    · exact hdot _ _ _ rfl
    · exact hbracket _ _ rfl
    · exact hquestion _ _ rfl
    · exact halternative _ _ rfl
    · exact hstarts

theorem bracket_sound {i} (h : bracket (n + 1) ls = .ok (i, ls₁)) :
    Derives .bracket ls (.ofOption i) ls₁ ∧ Spelled ls₁ := by
  unfold bracket at h
  split at h
  · cases h
    exact ⟨.iterate, hls.tail⟩
  · obtain ⟨stop, ls₂, hstop, hls, h⟩ := read_bind (ih.pipe hls.tail) h
    obtain ⟨o, ls₃, hstop, hls, h⟩ := expect_bind hls hstop h
    cases h
    exact ⟨.sliceTo hstop, hls⟩
  · obtain ⟨start, ls₂, hstart, hls, h⟩ := read_bind (ih.pipe hls) h
    dsimp only at h
    split at h
    · cases h
      exact ⟨.sliceFrom hstart, hls.tail.tail⟩
    · obtain ⟨stop, ls₃, hstop, hls, h⟩ := read_bind (ih.pipe hls.tail) h
      obtain ⟨o, ls₄, hstop, hls, h⟩ := expect_bind hls hstop h
      cases h
      exact ⟨.slice hstart hstop, hls⟩
    · obtain ⟨o, ls₃, hstart, hls, h⟩ := expect_bind hls hstart h
      cases h
      exact ⟨.position hstart, hls⟩

theorem objectEntries_sound {es} (h : objectEntries (n + 1) ls = .ok (es, ls₁)) :
    Derives .objectEntries ls (.ofList es) ls₁ ∧ Spelled ls₁ := by
  unfold objectEntries at h
  split at h
  · cases h
    exact ⟨.entriesEnd, hls.tail⟩
  · obtain ⟨e, ls₂, he, hls, h⟩ := read_bind (ih.objectEntry hls) h
    dsimp only at h
    split at h
    · obtain ⟨es, ls₃, hes, hls, h⟩ := read_bind (ih.objectEntries hls.tail) h
      cases h
      exact ⟨.moreEntries he hes, hls⟩
    · obtain ⟨o, ls₃, he, hls, h⟩ := expect_bind hls he h
      cases h
      exact ⟨.lastEntry he, hls⟩

theorem objectEntry_sound {e} (h : objectEntry (n + 1) ls = .ok (e, ls₁)) :
    Derives .objectEntry ls e ls₁ ∧ Spelled ls₁ := by
  unfold objectEntry at h
  split at h
  · cases h
    obtain ⟨ht, hls⟩ := spelled_cons.1 hls
    exact ⟨.variableEntry ht, hls⟩
  · obtain ⟨ht, hls⟩ := spelled_cons.1 hls
    obtain ⟨x, hx, h⟩ := exists_of_bind_ok h
    obtain ⟨value, ls₂, hvalue, hls, h⟩ := read_bind (ih.optionalValue hls) h
    cases h
    exact ⟨.textEntry (ih.string ht hx _ _) hvalue, hls⟩
  · obtain ⟨key, ls₂, hkey, hls, h⟩ := read_bind (ih.pipe hls.tail) h
    obtain ⟨o, ls₃, hkey, hls, h⟩ := expect_bind hls hkey h
    obtain ⟨o₁, ls₄, hkey, hls, h⟩ :=
      expect_bind (P := fun ls => Derives .pipe _ key (⟨.rightParen, o⟩ :: ls)) hls hkey h
    obtain ⟨value, ls₅, hvalue, hls, h⟩ := read_bind (ih.objectValue hls) h
    cases h
    exact ⟨.computedEntry hkey hvalue, hls⟩
  · split at h
    · next key hkey =>
      cases ls with
      | nil => cases hkey
      | cons l ls =>
        obtain ⟨ht, hls⟩ := spelled_cons.1 hls
        obtain ⟨value, ls₂, hvalue, hls, h⟩ := read_bind (ih.optionalValue hls) h
        cases h
        exact ⟨.wordEntry ht hkey hvalue, hls⟩
    · cases h

theorem optionalValue_sound {v} (h : optionalValue (n + 1) ls = .ok (v, ls₁)) :
    Derives (.after .colon .objectValue) ls (.ofOption v) ls₁ ∧ Spelled ls₁ := by
  rw [optionalValue_succ] at h
  exact optionally_sound (by simp) hls ih.objectValue h

theorem objectValue_sound {v} (h : objectValue (n + 1) ls = .ok (v, ls₁)) :
    Derives .objectValue ls v ls₁ ∧ Spelled ls₁ := by
  rw [objectValue] at h
  obtain ⟨t, ls₂, ht, hls, h⟩ := read_bind (ih.term hls) h
  dsimp only at h
  split at h
  · obtain ⟨right, ls₃, hright, hls, h⟩ := read_bind (ih.objectValue hls.tail) h
    cases h
    exact ⟨.pipedValue ht hright, hls⟩
  · next hnext =>
    cases h
    exact ⟨.objectValue ht (peek_ne (by simp) hnext), hls⟩

theorem pattern_sound {p} (h : pattern (n + 1) ls = .ok (p, ls₁)) : Derives .pattern ls p ls₁ ∧ Spelled ls₁ := by
  unfold pattern at h
  split at h
  · cases h
    obtain ⟨ht, hls⟩ := spelled_cons.1 hls
    exact ⟨.variablePattern ht, hls⟩
  · next o ls =>
    obtain ⟨items, ls₂, hitems, hls, h⟩ := read_bind (ih.patternItems hls.tail) h
    obtain ⟨o₁, ls₃, hitems, hls, h⟩ := expect_bind hls hitems h
    cases h
    have hd := Derives.arrayPattern (o := o) hitems
    rw [Node.toList_ofList] at hd
    exact ⟨hd, hls⟩
  · next o ls =>
    obtain ⟨entries, ls₂, hentries, hls, h⟩ := read_bind (ih.patternEntries hls.tail) h
    obtain ⟨o₁, ls₃, hentries, hls, h⟩ := expect_bind hls hentries h
    cases h
    have hd := Derives.objectPattern (o := o) hentries
    rw [Node.toList_ofList] at hd
    exact ⟨hd, hls⟩
  · cases h

theorem patternEntry_sound {e} (h : patternEntry (n + 1) ls = .ok (e, ls₁)) :
    Derives .patternEntry ls e ls₁ ∧ Spelled ls₁ := by
  unfold patternEntry at h
  split at h
  · obtain ⟨ht, hls⟩ := spelled_cons.1 hls
    obtain ⟨p, ls₂, hp, hls, h⟩ := read_bind (ih.pattern hls.tail) h
    cases h
    exact ⟨.variablePatternEntry ht (.given hp), hls⟩
  · next hnext =>
    cases h
    obtain ⟨ht, hls⟩ := spelled_cons.1 hls
    exact ⟨.variablePatternEntry ht (.missing (peek_ne (by simp) hnext)), hls⟩
  · obtain ⟨ht, hls⟩ := spelled_cons.1 hls
    obtain ⟨x, hx, h⟩ := exists_of_bind_ok h
    obtain ⟨o, ls₂, hx, hls, h⟩ := expect_bind hls (ih.string ht hx _ _) h
    obtain ⟨p, ls₃, hp, hls, h⟩ := read_bind (ih.pattern hls) h
    cases h
    exact ⟨.textPatternEntry hx hp, hls⟩
  · obtain ⟨key, ls₂, hkey, hls, h⟩ := read_bind (ih.pipe hls.tail) h
    obtain ⟨o, ls₃, hkey, hls, h⟩ := expect_bind hls hkey h
    obtain ⟨o₁, ls₄, hkey, hls, h⟩ :=
      expect_bind (P := fun ls => Derives .pipe _ key (⟨.rightParen, o⟩ :: ls)) hls hkey h
    obtain ⟨p, ls₅, hp, hls, h⟩ := read_bind (ih.pattern hls) h
    cases h
    exact ⟨.computedPatternEntry hkey hp, hls⟩
  · split at h
    · next key hkey =>
      cases ls with
      | nil => cases hkey
      | cons l ls =>
        obtain ⟨ls₂, hcolon, h⟩ := exists_of_bind_ok h
        obtain ⟨o, hcons⟩ := expect_ok hcolon
        obtain ⟨ht, hls⟩ := spelled_cons.1 hls
        rw [List.tail_cons] at hcons
        rw [hcons] at hls ⊢
        obtain ⟨p, ls₃, hp, hls, h⟩ := read_bind (ih.pattern hls.tail) h
        cases h
        exact ⟨.wordPatternEntry ht hkey hp, hls⟩
    · cases h

theorem branches_sound {bs} (h : branches (n + 1) ls = .ok (bs, ls₁)) :
    Derives .branches ls (.ofList bs) ls₁ ∧ Spelled ls₁ := by
  unfold branches at h
  split at h
  · obtain ⟨cond, ls₂, hcond, hls, h⟩ := read_bind (ih.pipe hls.tail) h
    obtain ⟨o, ls₃, hcond, hls, h⟩ := expect_bind hls hcond h
    obtain ⟨thenBranch, ls₄, hthen, hls, h⟩ := read_bind (ih.pipe hls) h
    obtain ⟨bs, ls₅, hbs, hls, h⟩ := read_bind (ih.branches hls) h
    cases h
    exact ⟨.branch hcond hthen hbs, hls⟩
  · next hnext =>
    cases h
    exact ⟨.branchesEnd (peek_ne (by simp) hnext), hls⟩

theorem elseBranch_sound {q} (h : elseBranch (n + 1) ls = .ok (q, ls₁)) :
    Derives (.after (.keyword .else) .pipe) ls (.ofOption q) ls₁ ∧ Spelled ls₁ := by
  rw [elseBranch_succ] at h
  exact optionally_sound (by simp) hls ih.pipe h

theorem extraction_sound {q} (h : extraction (n + 1) ls = .ok (q, ls₁)) :
    Derives (.after .semicolon .pipe) ls (.ofOption q) ls₁ ∧ Spelled ls₁ := by
  rw [extraction_succ] at h
  exact optionally_sound (by simp) hls ih.pipe h

section
variable {t : Term} {o : Nat}

theorem call_sound {name o₁} (ht : (Token.ident name).WellSpelled)
    (h : primary (n + 1) (⟨.ident name, o⟩ :: ⟨.leftParen, o₁⟩ :: ls) = .ok (t, ls₁)) :
    Derives .primary (⟨.ident name, o⟩ :: ⟨.leftParen, o₁⟩ :: ls) t ls₁ ∧ Spelled ls₁ := by
  rw [primary] at h
  obtain ⟨args, ls₂, hargs, hls, h⟩ := read_bind (ih.arguments hls) h
  obtain ⟨o₂, ls₃, hargs, hls, h⟩ := expect_bind hls hargs h
  cases h
  have hd : Derives .primary (⟨.ident name, o⟩ :: ⟨.leftParen, o₁⟩ :: ls) _ _ := .call ht hargs
  rw [Node.toList_ofList] at hd
  exact ⟨hd, hls⟩

theorem object_sound (h : primary (n + 1) (⟨.leftBrace, o⟩ :: ls) = .ok (t, ls₁)) :
    Derives .primary (⟨.leftBrace, o⟩ :: ls) t ls₁ ∧ Spelled ls₁ := by
  rw [primary] at h
  obtain ⟨entries, ls₂, hentries, hls, h⟩ := read_bind (ih.objectEntries hls) h
  cases h
  have hd := Derives.object (o := o) hentries
  rw [Node.toList_ofList] at hd
  exact ⟨hd, hls⟩

theorem conditional_sound (h : primary (n + 1) (⟨.keyword .if, o⟩ :: ls) = .ok (t, ls₁)) :
    Derives .primary (⟨.keyword .if, o⟩ :: ls) t ls₁ ∧ Spelled ls₁ := by
  rw [primary] at h
  obtain ⟨cond, ls₂, hcond, hls, h⟩ := read_bind (ih.pipe hls) h
  obtain ⟨o₁, ls₃, hcond, hls, h⟩ := expect_bind hls hcond h
  obtain ⟨thenBranch, ls₄, hthen, hls, h⟩ := read_bind (ih.pipe hls) h
  obtain ⟨elifs, ls₅, helifs, hls, h⟩ := read_bind (ih.branches hls) h
  obtain ⟨elseQuery, ls₆, helse, hls, h⟩ := read_bind (ih.elseBranch hls) h
  obtain ⟨o₂, ls₇, helse, hls, h⟩ := expect_bind hls helse h
  cases h
  exact ⟨.conditional hcond hthen helifs helse, hls⟩

theorem attempt_sound (h : primary (n + 1) (⟨.keyword .try, o⟩ :: ls) = .ok (t, ls₁)) :
    Derives .primary (⟨.keyword .try, o⟩ :: ls) t ls₁ ∧ Spelled ls₁ := by
  rw [primary] at h
  obtain ⟨body, ls₂, hbody, hls, h⟩ := read_bind (ih.term hls) h
  dsimp only at h
  split at h
  · obtain ⟨handler, ls₃, hhandler, hls, h⟩ := read_bind (ih.term hls.tail) h
    cases h
    exact ⟨.attempt (.termQuery hbody) (.given (.termQuery hhandler)), hls⟩
  · next hnext =>
    cases h
    exact ⟨.attempt (.termQuery hbody) (.missing (peek_ne (by simp) hnext)), hls⟩

theorem reduce_sound (h : primary (n + 1) (⟨.keyword .reduce, o⟩ :: ls) = .ok (t, ls₁)) :
    Derives .primary (⟨.keyword .reduce, o⟩ :: ls) t ls₁ ∧ Spelled ls₁ := by
  rw [primary] at h
  obtain ⟨source, ls₂, hsource, hls, h⟩ := read_bind (ih.term hls) h
  obtain ⟨o₁, ls₃, hsource, hls, h⟩ := expect_bind hls hsource h
  obtain ⟨p, ls₄, hp, hls, h⟩ := read_bind (ih.pattern hls) h
  obtain ⟨o₂, ls₅, hp, hls, h⟩ := expect_bind hls hp h
  obtain ⟨start, ls₆, hstart, hls, h⟩ := read_bind (ih.pipe hls) h
  obtain ⟨o₃, ls₇, hstart, hls, h⟩ := expect_bind hls hstart h
  obtain ⟨update, ls₈, hupdate, hls, h⟩ := read_bind (ih.pipe hls) h
  obtain ⟨o₄, ls₉, hupdate, hls, h⟩ := expect_bind hls hupdate h
  cases h
  exact ⟨.reduce hsource hp hstart hupdate, hls⟩

theorem foreach_sound (h : primary (n + 1) (⟨.keyword .foreach, o⟩ :: ls) = .ok (t, ls₁)) :
    Derives .primary (⟨.keyword .foreach, o⟩ :: ls) t ls₁ ∧ Spelled ls₁ := by
  rw [primary] at h
  obtain ⟨source, ls₂, hsource, hls, h⟩ := read_bind (ih.term hls) h
  obtain ⟨o₁, ls₃, hsource, hls, h⟩ := expect_bind hls hsource h
  obtain ⟨p, ls₄, hp, hls, h⟩ := read_bind (ih.pattern hls) h
  obtain ⟨o₂, ls₅, hp, hls, h⟩ := expect_bind hls hp h
  obtain ⟨start, ls₆, hstart, hls, h⟩ := read_bind (ih.pipe hls) h
  obtain ⟨o₃, ls₇, hstart, hls, h⟩ := expect_bind hls hstart h
  obtain ⟨update, ls₈, hupdate, hls, h⟩ := read_bind (ih.pipe hls) h
  obtain ⟨extract, ls₉, hextract, hls, h⟩ := read_bind (ih.extraction hls) h
  obtain ⟨o₄, ls₁₀, hextract, hls, h⟩ := expect_bind hls hextract h
  cases h
  exact ⟨.foreach hsource hp hstart hupdate hextract, hls⟩

theorem label_sound (h : primary (n + 1) (⟨.keyword .label, o⟩ :: ls) = .ok (t, ls₁)) :
    Derives .primary (⟨.keyword .label, o⟩ :: ls) t ls₁ ∧ Spelled ls₁ := by
  rw [primary] at h
  obtain ⟨⟨name, ls₂⟩, hname, h⟩ := exists_of_bind_ok h
  obtain ⟨ls₃, hpipe, h⟩ := exists_of_bind_ok h
  obtain ⟨⟨body, ls₄⟩, hbody, h⟩ := exists_of_bind_ok h
  cases h
  obtain ⟨o₁, rfl⟩ := variableName_ok hname
  obtain ⟨o₂, rfl⟩ := expect_ok hpipe
  obtain ⟨ht, hls⟩ := spelled_cons.1 hls
  obtain ⟨hbody, hls⟩ := ih.pipe hls.tail hbody
  exact ⟨.label ht hbody, hls⟩

end

theorem primary_sound {t} (h : primary (n + 1) ls = .ok (t, ls₁)) : Derives .primary ls t ls₁ ∧ Spelled ls₁ := by
  have hprimary := h
  unfold primary at h
  split at h
  case h_1 o parts o₁ ls =>
    obtain ⟨ht, hls⟩ := spelled_cons.1 hls.tail
    obtain ⟨x, hx, h⟩ := exists_of_bind_ok h
    cases h
    exact ⟨.dotText (ih.string ht hx o₁ _), hls⟩
  case h_2 o o₁ ls =>
    obtain ⟨access, ls₂, haccess, hls, h⟩ := read_bind (ih.bracket hls.tail.tail) h
    cases access with
    | some i =>
      cases h
      exact ⟨.dotAccess haccess, hls⟩
    | none =>
      cases h
      exact ⟨.dotIterate haccess, hls⟩
  case h_3 o ls htext hbracket =>
    cases h
    exact ⟨.identity (fun parts => peek_ne (by simp) (htext parts)) (peek_ne (by simp) hbracket), hls.tail⟩
  case h_4 | h_5 | h_6 | h_10 =>
    cases h
    exact ⟨.leaf (spelled_cons.1 hls).1 rfl, hls.tail⟩
  case h_7 parts o ls =>
    obtain ⟨ht, hls⟩ := spelled_cons.1 hls
    obtain ⟨x, hx, h⟩ := exists_of_bind_ok h
    cases h
    exact ⟨.text (ih.string ht hx o _), hls⟩
  case h_8 name o parts o₁ ls =>
    obtain ⟨ht, hls⟩ := spelled_cons.1 hls
    obtain ⟨hparts, hls⟩ := spelled_cons.1 hls
    obtain ⟨x, hx, h⟩ := exists_of_bind_ok h
    cases h
    exact ⟨.formatText ht (ih.string hparts hx o₁ _), hls⟩
  case h_9 name o ls hnext =>
    cases h
    obtain ⟨ht, hls⟩ := spelled_cons.1 hls
    exact ⟨.format ht fun parts => peek_ne (by simp) (hnext parts), hls⟩
  case h_11 => exact call_sound ih hls.tail.tail (spelled_cons.1 hls).1 hprimary
  case h_12 name o ls hnext =>
    cases h
    obtain ⟨ht, hls⟩ := spelled_cons.1 hls
    exact ⟨.name ht (peek_ne (by simp) hnext), hls⟩
  case h_13 =>
    obtain ⟨q, ls₂, hq, hls, h⟩ := read_bind (ih.pipe hls.tail) h
    obtain ⟨o₁, ls₃, hq, hls, h⟩ := expect_bind hls hq h
    cases h
    exact ⟨.parentheses hq, hls⟩
  case h_14 =>
    cases h
    exact ⟨.emptyArray, hls.tail.tail⟩
  case h_15 =>
    obtain ⟨q, ls₂, hq, hls, h⟩ := read_bind (ih.pipe hls.tail) h
    obtain ⟨o₁, ls₃, hq, hls, h⟩ := expect_bind hls hq h
    cases h
    exact ⟨.array hq, hls⟩
  case h_16 => exact object_sound ih hls.tail hprimary
  case h_17 =>
    obtain ⟨t, ls₂, ht, hls, h⟩ := read_bind (ih.term hls.tail) h
    cases h
    exact ⟨.sign (.inl rfl) ht, hls⟩
  case h_18 =>
    obtain ⟨t, ls₂, ht, hls, h⟩ := read_bind (ih.term hls.tail) h
    cases h
    exact ⟨.sign (.inr rfl) ht, hls⟩
  case h_19 => exact conditional_sound ih hls.tail hprimary
  case h_20 => exact attempt_sound ih hls.tail hprimary
  case h_21 => exact reduce_sound ih hls.tail hprimary
  case h_22 => exact foreach_sound ih hls.tail hprimary
  case h_23 => exact label_sound ih hls.tail hprimary
  case h_24 =>
    obtain ⟨⟨name, ls₂⟩, hname, h⟩ := exists_of_bind_ok h
    cases h
    obtain ⟨o₁, rfl⟩ := variableName_ok hname
    obtain ⟨ht, hls⟩ := spelled_cons.1 hls.tail
    exact ⟨.break ht, hls⟩
  case h_25 => cases h

end

section
variable {n : Nat} (ih : Sound n)
include ih

theorem string_sound {parts x} (hne : parts ≠ []) (h : string (n + 1) parts = .ok x) (o : Nat) (ls : Lexemes) :
    Derives .string (⟨.str parts, o⟩ :: ls) x ls := by
  unfold string at h
  split at h
  · cases h
    exact .plainString
  · next hparts =>
    obtain ⟨qs, hqs, h⟩ := exists_of_bind_ok h
    cases h
    exact .string hne hparts (ih.fragments hqs)

theorem fragments_sound {parts qs} (h : fragments (n + 1) parts = .ok qs) :
    Derives (.fragments parts) [] (.ofList qs) [] := by
  unfold fragments at h
  split at h
  · contradiction
  · cases h
    exact .fragmentsEnd
  · next heq =>
    cases heq
    obtain ⟨qs, hqs, h⟩ := exists_of_bind_ok h
    cases h
    exact .literal (ih.fragments hqs)
  · next heq =>
    cases heq
    obtain ⟨q, hq, h⟩ := exists_of_bind_ok h
    obtain ⟨qs, hqs, h⟩ := exists_of_bind_ok h
    cases h
    obtain ⟨ls, ls₁, hscan, -, hq, hend⟩ := ih.whole hq
    exact .interpolation hscan hq hend (ih.fragments hqs)

theorem whole_sound {source base q} (h : whole (n + 1) source base = .ok q) :
    ∃ ls ls₁, Token.scan source base = .ok ls ∧ Spelled ls ∧ Derives .pipe ls q ls₁ ∧ peek ls₁ = .eof := by
  rw [whole] at h
  obtain ⟨ls, hls, h⟩ := exists_of_bind_ok h
  obtain ⟨⟨q, ls₁⟩, hq, h⟩ := exists_of_bind_ok h
  obtain ⟨_, hend, h⟩ := exists_of_bind_ok h
  cases h
  have hscan : Token.scan source base = .ok ls := by
    unfold scanned at hls
    split at hls <;> cases hls
    assumption
  have hend : peek ls₁ = .eof := by
    unfold expectEnd at hend
    split at hend
    · assumption
    · cases hend
  have hspelled : Spelled ls := Token.wellSpelled_scan hscan
  exact ⟨ls, ls₁, hscan, hspelled, (ih.pipe hspelled hq).1, hend⟩

/-- One more step keeps the productions to the rules. -/
theorem Sound.step : Sound (n + 1) where
  definition hls := definition_sound ih hls
  pipe hls := pipe_sound ih hls
  binary hls := binary_sound ih hls
  binaryRest hls := binaryRest_sound ih hls
  operand hls := operand_sound ih hls
  alternatives hls := alternatives_sound ih hls
  term hls := term_sound ih hls
  primary hls := primary_sound ih hls
  arguments hls := arguments_sound ih hls
  suffixes hls := suffixes_sound ih hls
  bracket hls := bracket_sound ih hls
  string := string_sound ih
  fragments := fragments_sound ih
  whole := whole_sound ih
  objectEntries hls := objectEntries_sound ih hls
  objectEntry hls := objectEntry_sound ih hls
  optionalValue hls := optionalValue_sound ih hls
  objectValue hls := objectValue_sound ih hls
  pattern hls := pattern_sound ih hls
  patternItems hls := patternItems_sound ih hls
  patternEntries hls := patternEntries_sound ih hls
  patternEntry hls := patternEntry_sound ih hls
  branches hls := branches_sound ih hls
  elseBranch hls := elseBranch_sound ih hls
  extraction hls := extraction_sound ih hls

end

/-- **What a production reads has a derivation**, and the lexemes behind it are still those of a source. -/
theorem sound : ∀ n, Sound n
  | 0 => by constructor <;> intros <;> contradiction
  | n + 1 => (sound n).step

theorem definitions_sound : ∀ {n : Nat} {ls : Lexemes} {ds}, Spelled ls → definitions n ls = .ok ds →
    ∃ ls₁, Derives .definitions ls (.ofList ds) ls₁ ∧ peek ls₁ = .eof
  | 0, _, _, _, h => by cases h
  | n + 1, ls, ds, hls, h => by
    unfold definitions at h
    split at h
    · next hend =>
      cases h
      exact ⟨ls, .definitionsEnd hend, hend⟩
    · obtain ⟨⟨d, ls₂⟩, hd, h⟩ := exists_of_bind_ok h
      obtain ⟨ds, hds, h⟩ := exists_of_bind_ok h
      cases h
      obtain ⟨hd, hls⟩ := (sound n).definition hls hd
      obtain ⟨ls₁, hds, hend⟩ := definitions_sound hls hds
      exact ⟨ls₁, .definitions hd hds, hend⟩
    · cases h
    · cases h
    · cases h

end Grammar

open Grammar

/-- A parsed query has a derivation from the tokens of its source. -/
theorem Query.derives_of_parse {source : String} {q : Query} (h : Query.parse source = .ok q) :
    ∃ ls ls₁, Token.scan source 0 = .ok ls ∧ Spelled ls ∧ Derives .pipe ls q ls₁ ∧ peek ls₁ = .eof := by
  unfold Query.parse at h
  split at h
  · next hwhole =>
    cases h
    exact (sound _).whole hwhole
  · cases h

/-- What holds definitions is cut into tokens, and these are read as the definitions. -/
theorem Definition.read_of_parseAll {source : String} {ds : List Definition}
    (h : Definition.parseAll source = .ok ds) :
    ∃ ls, Token.scan source 0 = .ok ls ∧ definitions (enoughSteps source) ls = .ok ds := by
  unfold Definition.parseAll at h
  cases hscan : Token.scan source 0 with
  | error e =>
    rw [hscan] at h
    cases h
  | ok ls =>
    rw [hscan, scanned] at h
    dsimp only at h
    split at h
    · next hds =>
      cases h
      exact ⟨ls, rfl, hds⟩
    · cases h

/-- Parsed definitions have a derivation from the tokens of their source. -/
theorem Definition.derives_of_parseAll {source : String} {ds : List Definition}
    (h : Definition.parseAll source = .ok ds) :
    ∃ ls ls₁, Token.scan source 0 = .ok ls ∧ Spelled ls ∧ Derives .definitions ls (.ofList ds) ls₁ ∧
      peek ls₁ = .eof := by
  obtain ⟨ls, hscan, hds⟩ := Definition.read_of_parseAll h
  have hspelled : Spelled ls := Token.wellSpelled_scan hscan
  obtain ⟨ls₁, hd, hend⟩ := definitions_sound hspelled hds
  exact ⟨ls, ls₁, hscan, hspelled, hd, hend⟩

end DefTable
