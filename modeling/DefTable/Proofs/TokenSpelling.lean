import DefTable.Proofs.Lookahead

/-!
# How tokens are spelled

What every token of a source looks like (`Token.WellSpelled`): a name is what cutting a text behind its name leaves
whole, a number likewise, and a reserved word is never an identifier. What was read as a token is read again in front of
anything that looks the same to it (`Token.readsAs_of_read`), and a token written in front of a blank is read back as it
is (`Token.readsAs_spelling`).
-/

namespace DefTable

open Text

namespace Token

/-! ## Tokens of a source -/

/-- A text that is all name. -/
def IsName (cs : List Char) : Prop :=
  cs ≠ [] ∧ splitName cs = (cs, [])

/-- A text that is a word: a name whose first character starts names. -/
def IsWord (cs : List Char) : Prop :=
  splitName cs = (cs, []) ∧ ∃ c ∈ cs.head?, isIdentStart c = true

/-- A text that is all number. -/
def IsNumber (cs : List Char) : Prop :=
  splitNumber cs = (cs, []) ∧ ((∃ c ∈ cs.head?, c.isDigit = true) ∨ ∃ d ds, cs = '.' :: d :: ds ∧ d.isDigit = true)

/-- A token that stands for itself: neither a string nor the end of a source. -/
def isPlain : Token → Bool
  | .str _ => false
  | .eof => false
  | _ => true

/-- What a token of a source looks like. Of a string it is only said that it has parts. -/
def WellSpelled : Token → Prop
  | .ident name => IsWord name.toList ∧ Keyword.ofText? name = none
  | .field name => IsWord name.toList
  | .variable name => ∃ cs, name.toList = '$' :: cs ∧ IsName cs
  | .format name => ∃ cs, name.toList = '@' :: cs ∧ IsName cs
  | .number digits => IsNumber digits.toList
  | .str parts => parts ≠ []
  | .op o => o ≠ .and ∧ o ≠ .or
  | _ => True

theorem isName_of_splitName {cs name rest : List Char} (h : splitName cs = (name, rest)) (hne : name ≠ []) :
    IsName name := by
  have hback : splitName (name ++ []) = (name, []) := splitName_append_of_none h rfl
  rw [List.append_nil] at hback
  exact ⟨hne, hback⟩

theorem isWord_of_splitName {c : Char} {cs name rest : List Char} (h : splitName (c :: cs) = (name, rest))
    (hc : isIdentStart c = true) : IsWord name := by
  have hname : name = c :: (splitName cs).1 := by
    rw [splitName_cons (isIdentContinue_of_isIdentStart hc)] at h
    exact (congrArg Prod.fst h).symm
  have hback : splitName (name ++ []) = (name, []) := splitName_append_of_none h rfl
  rw [List.append_nil] at hback
  exact ⟨hback, c, by rw [hname]; rfl, hc⟩

theorem isNumber_splitNumber {cs : List Char}
    (h : (∃ c ∈ cs.head?, c.isDigit = true) ∨ ∃ d ds, cs = '.' :: d :: ds ∧ d.isDigit = true) :
    IsNumber (splitNumber cs).1 := by
  have hback : splitNumber ((splitNumber cs).1 ++ []) = ((splitNumber cs).1, []) := splitNumber_ahead (.stops stops_nil)
  rw [List.append_nil] at hback
  refine ⟨hback, ?_⟩
  rcases h with ⟨c, hc, hd⟩ | ⟨d, ds, rfl, hd⟩
  · obtain ⟨ds, rfl⟩ := List.head?_eq_some_iff.1 hc
    refine .inl ⟨c, ?_, hd⟩
    simp [splitNumber, splitDigits_cons hd]
  · have hdot : ('.' : Char).isDigit = false := rfl
    have hne : d ≠ '.' := by
      rintro rfl
      cases hd
    refine .inr ⟨d, ?_⟩
    simp [splitNumber, splitDigits, splitFraction, hdot, hne, hd]

theorem wellSpelled_ofWord {word : String} (h : IsWord word.toList) : (ofWord word).WellSpelled := by
  unfold ofWord
  split
  · trivial
  · next hk => exact ⟨h, hk⟩

theorem wellSpelled_readName {make : String → Token} {cause sigil offset cs t next}
    (hmake : ∀ name, IsName name → (make (String.ofList (sigil :: name))).WellSpelled)
    (h : readName make cause sigil offset cs = .ok (t, next)) : t.WellSpelled := by
  unfold readName at h
  split at h
  · cases h
  · next name rest hne hsplit =>
    cases h
    exact hmake name (isName_of_splitName hsplit fun hnil => by simp_all)

theorem wellSpelled_readDot (offset : Nat) (cs : List Char) : (readDot offset cs).1.WellSpelled := by
  unfold readDot
  split
  · trivial
  · next c cs =>
    split
    · trivial
    · split
      · next hd =>
        simp only [WellSpelled, String.toList_ofList]
        exact isNumber_splitNumber (.inr ⟨c, cs, rfl, hd⟩)
      · split
        · next hs =>
          simp only [WellSpelled, String.toList_ofList]
          exact isWord_of_splitName rfl hs
        · trivial

theorem wellSpelled_sign? {c : Char} {t : Token} (h : sign? c = some t) : t.WellSpelled := by
  unfold sign? at h
  split at h <;> cases h <;> trivial

theorem partsOf_ne_nil (pieces : List Piece) : partsOf pieces ≠ [] := by
  unfold partsOf
  split
  · exact List.cons_ne_nil _ _
  · next h => exact h

/-- **Every token is well spelled.** -/
theorem wellSpelled_read {offset : Nat} {c : Char} {cs : List Char} {t next} (h : read offset c cs = .ok (t, next)) :
    t.WellSpelled := by
  unfold read at h
  split at h
  · have ht := wellSpelled_readDot offset cs
    rwa [Except.ok.inj h] at ht
  split at h
  · refine wellSpelled_readName (fun name hname => ?_) h
    exact ⟨name, String.toList_ofList, hname⟩
  split at h
  · refine wellSpelled_readName (fun name hname => ?_) h
    exact ⟨name, String.toList_ofList, hname⟩
  split at h
  · unfold readString at h
    split at h <;> cases h
    exact partsOf_ne_nil _
  split at h
  · next hd =>
    cases h
    simp only [WellSpelled, String.toList_ofList]
    exact isNumber_splitNumber (.inl ⟨c, rfl, hd⟩)
  split at h
  · next hs =>
    cases h
    refine wellSpelled_ofWord ?_
    rw [String.toList_ofList]
    exact isWord_of_splitName rfl hs
  split at h
  · next hs =>
    cases h
    exact wellSpelled_sign? hs
  split at h
  · cases h
    trivial
  · cases h
    trivial
  · split at h
    · next hop =>
      cases h
      exact splitOperator?_ne hop
    · cases h

theorem wellSpelled_scanFrom (cursor : Cursor) {ls : List Lexeme} (h : scanFrom cursor = .ok ls) :
    ∀ l ∈ ls, l.token.WellSpelled := by
  fun_induction scanFrom cursor generalizing ls with
  | case1 =>
    cases h
    intro l hl
    rw [List.mem_singleton.1 hl]
    trivial
  | case2 => cases h
  | case3 => cases h
  | case4 cursor offset c cs htrivia t next hread lexemes hrest ih =>
    cases h
    intro l hl
    rcases List.mem_cons.1 hl with rfl | hl
    · exact wellSpelled_read hread
    · exact ih hrest l hl

theorem wellSpelled_scan {source : String} {base : Nat} {ls : List Lexeme} (h : scan source base = .ok ls) :
    ∀ l ∈ ls, l.token.WellSpelled :=
  wellSpelled_scanFrom _ h

/-! ## Reading back -/

/-- How a token is written. A string is written part by part, and the end of a source not at all. -/
def spelling : Token → String
  | .ident name => name
  | .keyword k => k.text
  | .field name => "." ++ name
  | .variable name => name
  | .format name => name
  | .number digits => digits
  | .str _ => ""
  | .op o => o.text
  | .dot => "."
  | .dotDot => ".."
  | .leftParen => "("
  | .rightParen => ")"
  | .leftBracket => "["
  | .rightBracket => "]"
  | .leftBrace => "\x7b"
  | .rightBrace => "\x7d"
  | .colon => ":"
  | .semicolon => ";"
  | .question => "?"
  | .alternative => "?//"
  | .eof => ""

/-- In front of `rest`, a text is read as one token. -/
def ReadsAs (t : Token) (cs rest : List Char) : Prop :=
  ∃ c ds, cs = c :: ds ∧ isBlank c = false ∧ c ≠ '#' ∧
    ∀ offset, read offset c (ds ++ rest) = .ok (t, .behind offset cs rest)

theorem isDigit_of_isIdentStart {c : Char} (h : isIdentStart c = true) : c.isDigit = false := by
  rw [Bool.eq_false_iff]
  intro hd
  rw [Char.isDigit_iff_toNat] at hd
  simp only [isIdentStart, Bool.or_eq_true, isAlpha_iff_toNat, decide_eq_true_eq] at h
  rcases h with h | rfl
  · have hnine : ('9' : Char).toNat = 57 := rfl
    omega
  · exact absurd hd.2 (by decide)

theorem ne_of_apply_ne {p : Char → Bool} {c d : Char} (hc : p c = true) (hd : p d = false) : c ≠ d := by
  rintro rfl
  rw [hc] at hd
  cases hd

theorem not_isBlank {p : Char → Bool} {c : Char} (hc : p c = true) (hspace : p ' ' = false) (htab : p '\t' = false)
    (hfeed : p '\n' = false) (hreturn : p '\r' = false) : isBlank c = false := by
  rw [Bool.eq_false_iff]
  intro hb
  rcases eq_of_isBlank hb with rfl | rfl | rfl | rfl <;> simp_all

theorem read_word (offset : Nat) {c : Char} (hc : isIdentStart c = true) (cs : List Char) :
    read offset c cs = .ok (ofWord (String.ofList (splitName (c :: cs)).1),
      .behind offset (splitName (c :: cs)).1 (splitName (c :: cs)).2) := by
  have hdot : c ≠ '.' := ne_of_apply_ne hc rfl
  have hsigil : c ≠ '$' := ne_of_apply_ne hc rfl
  have hat : c ≠ '@' := ne_of_apply_ne hc rfl
  have hquote : c ≠ '"' := ne_of_apply_ne hc rfl
  unfold read
  rw [if_neg hdot, if_neg hsigil, if_neg hat, if_neg hquote, isDigit_of_isIdentStart hc, if_neg Bool.false_ne_true,
    if_pos hc]

theorem read_digit (offset : Nat) {c : Char} (hc : c.isDigit = true) (cs : List Char) :
    read offset c cs = .ok (.number (String.ofList (splitNumber (c :: cs)).1),
      .behind offset (splitNumber (c :: cs)).1 (splitNumber (c :: cs)).2) := by
  have hdot : c ≠ '.' := ne_of_apply_ne hc rfl
  have hsigil : c ≠ '$' := ne_of_apply_ne hc rfl
  have hat : c ≠ '@' := ne_of_apply_ne hc rfl
  have hquote : c ≠ '"' := ne_of_apply_ne hc rfl
  unfold read
  rw [if_neg hdot, if_neg hsigil, if_neg hat, if_neg hquote, if_pos hc]

theorem read_dot (offset : Nat) (cs : List Char) : read offset '.' cs = .ok (readDot offset cs) := rfl

theorem read_sigil {make : String → Token} {cause : SyntaxError.Cause} {sigil : Char} {offset : Nat}
    {name cs rest : List Char} (h : splitName cs = (name, rest)) (hne : name ≠ []) :
    readName make cause sigil offset cs =
      .ok (make (String.ofList (sigil :: name)), .behind offset (sigil :: name) rest) := by
  unfold readName
  rw [h]
  split
  · next heq => exact absurd (congrArg Prod.fst heq) hne
  · next heq =>
    cases heq
    rfl

theorem readsAs_word {cs rest : List Char} (hback : splitName (cs ++ rest) = (cs, rest))
    (hstart : ∃ c ∈ cs.head?, isIdentStart c = true) : ReadsAs (ofWord (String.ofList cs)) cs rest := by
  obtain ⟨c, hc, hs⟩ := hstart
  obtain ⟨ds, rfl⟩ := List.head?_eq_some_iff.1 hc
  refine ⟨c, ds, rfl, not_isBlank hs rfl rfl rfl rfl, ne_of_apply_ne hs rfl, fun offset => ?_⟩
  rw [read_word offset hs, ← List.cons_append, hback]

theorem readsAs_number {cs rest : List Char} (hback : splitNumber (cs ++ rest) = (cs, rest))
    (hstart : (∃ c ∈ cs.head?, c.isDigit = true) ∨ ∃ d ds, cs = '.' :: d :: ds ∧ d.isDigit = true) :
    ReadsAs (.number (String.ofList cs)) cs rest := by
  rcases hstart with ⟨c, hc, hd⟩ | ⟨d, ds, rfl, hd⟩
  · obtain ⟨ds, rfl⟩ := List.head?_eq_some_iff.1 hc
    refine ⟨c, ds, rfl, not_isBlank hd rfl rfl rfl rfl, ne_of_apply_ne hd rfl, fun offset => ?_⟩
    rw [read_digit offset hd, ← List.cons_append, hback]
  · have hdot : d ≠ '.' := ne_of_apply_ne hd rfl
    refine ⟨'.', d :: ds, rfl, rfl, by decide, fun offset => ?_⟩
    rw [List.cons_append, List.cons_append] at hback
    rw [read_dot, List.cons_append, readDot, if_neg hdot, if_pos hd, hback]

theorem readsAs_field {name rest : List Char} (hback : splitName (name ++ rest) = (name, rest))
    (hstart : ∃ c ∈ name.head?, isIdentStart c = true) : ReadsAs (.field (String.ofList name)) ('.' :: name) rest := by
  obtain ⟨c, hc, hs⟩ := hstart
  obtain ⟨ds, rfl⟩ := List.head?_eq_some_iff.1 hc
  have hdot : c ≠ '.' := ne_of_apply_ne hs rfl
  refine ⟨'.', c :: ds, rfl, rfl, by decide, fun offset => ?_⟩
  rw [read_dot, List.cons_append, readDot, if_neg hdot, isDigit_of_isIdentStart hs, if_neg Bool.false_ne_true,
    if_pos hs, ← List.cons_append, hback]
  simp only [Cursor.behind, byteLength_cons, Nat.add_assoc]
  rfl

theorem readsAs_sigil {make : String → Token} {cause : SyntaxError.Cause} {sigil : Char}
    (hread : ∀ offset cs, read offset sigil cs = readName make cause sigil offset cs) (hblank : isBlank sigil = false)
    (hcomment : sigil ≠ '#') {name rest : List Char} (hback : splitName (name ++ rest) = (name, rest))
    (hne : name ≠ []) : ReadsAs (make (String.ofList (sigil :: name))) (sigil :: name) rest :=
  ⟨sigil, name, rfl, hblank, hcomment, fun offset => by rw [hread, read_sigil hback hne]⟩

/-- A character that may start an operator and starts no other token. -/
theorem read_sign (offset : Nat) {c : Char} (cs : List Char)
    (hc : c = '/' ∨ c = '|' ∨ c = '+' ∨ c = '-' ∨ c = '*' ∨ c = '%' ∨ c = '=' ∨ c = '!' ∨ c = '<' ∨ c = '>') :
    read offset c cs =
      match splitOperator? (c :: cs) with
      | some (o, rest) => .ok (.op o, .behind offset o.text.toList rest)
      | none => .error ⟨.strayCharacter c, offset⟩ := by
  rcases hc with rfl | rfl | rfl | rfl | rfl | rfl | rfl | rfl | rfl | rfl <;> rfl

theorem read_operator {offset : Nat} {c : Char} {cs : List Char} {o : Operator} {rest : List Char}
    (h : splitOperator? (c :: cs) = some (o, rest)) :
    read offset c cs = .ok (.op o, .behind offset o.text.toList rest) := by
  have hc : c = '/' ∨ c = '|' ∨ c = '+' ∨ c = '-' ∨ c = '*' ∨ c = '%' ∨ c = '=' ∨ c = '!' ∨ c = '<' ∨ c = '>' := by
    unfold splitOperator? at h
    split at h <;> simp_all
  rw [read_sign offset cs hc, h]

theorem readsAs_operator {o : Operator} {rest : List Char}
    (hback : o = .comma ∨ splitOperator? (o.text.toList ++ rest) = some (o, rest)) :
    ReadsAs (.op o) o.text.toList rest := by
  rcases hback with rfl | hback
  · exact ⟨',', [], rfl, rfl, by decide, fun _ => rfl⟩
  · cases o <;> exact ⟨_, _, rfl, rfl, by decide, fun _ => read_operator hback⟩

/-- **A token in front of a blank is read back as it is.** -/
theorem readsAs_spelling {t : Token} (ht : t.WellSpelled) (hstr : ∀ parts, t ≠ .str parts) (heof : t ≠ .eof)
    {rest : List Char} (hr : Stops rest) : ReadsAs t t.spelling.toList rest := by
  have hname : ∀ {cs : List Char}, splitName cs = (cs, []) → splitName (cs ++ rest) = (cs, rest) :=
    fun h => splitName_append_of_none h (splitName_of_stops hr)
  cases t with
  | ident name =>
    have h := readsAs_word (hname ht.1.1) ht.1.2
    rwa [String.ofList_toList, ofWord, ht.2] at h
  | keyword k =>
    have hword : IsWord k.text.toList := by cases k <;> exact ⟨rfl, _, rfl, rfl⟩
    have h := readsAs_word (hname hword.1) hword.2
    rwa [String.ofList_toList, ofWord, Keyword.ofText?_text] at h
  | field name =>
    have h := readsAs_field (hname ht.1) ht.2
    rw [String.ofList_toList] at h
    rwa [spelling, String.toList_append]
  | «variable» name =>
    obtain ⟨cs, hcs, h⟩ := ht
    have h : ReadsAs (.variable (String.ofList ('$' :: cs))) ('$' :: cs) rest :=
      readsAs_sigil (fun _ _ => rfl) rfl (by decide) (hname h.2) h.1
    rwa [← hcs, String.ofList_toList] at h
  | format name =>
    obtain ⟨cs, hcs, h⟩ := ht
    have h : ReadsAs (.format (String.ofList ('@' :: cs))) ('@' :: cs) rest :=
      readsAs_sigil (fun _ _ => rfl) rfl (by decide) (hname h.2) h.1
    rwa [← hcs, String.ofList_toList] at h
  | number digits =>
    have hback : splitNumber ((splitNumber digits.toList).1 ++ rest) = ((splitNumber digits.toList).1, rest) :=
      splitNumber_ahead (.stops hr)
    rw [ht.1] at hback
    have h := readsAs_number hback ht.2
    rwa [String.ofList_toList] at h
  | str parts => exact absurd rfl (hstr parts)
  | op o => exact readsAs_operator (splitOperator?_of_stops ht hr)
  | dot =>
    refine ⟨'.', [], rfl, rfl, by decide, fun offset => ?_⟩
    rw [read_dot]
    rcases hr.cases with rfl | ⟨c, cs, rfl, rfl | rfl | rfl | rfl | rfl⟩ <;> rfl
  | question =>
    refine ⟨'?', [], rfl, rfl, by decide, fun offset => ?_⟩
    rcases hr.cases with rfl | ⟨c, cs, rfl, rfl | rfl | rfl | rfl | rfl⟩ <;> rfl
  | alternative => exact ⟨'?', ['/', '/'], rfl, rfl, by decide, fun offset => rfl⟩
  | eof => exact absurd rfl heof
  | dotDot => exact ⟨'.', ['.'], rfl, rfl, by decide, fun offset => rfl⟩
  | leftParen => exact ⟨_, [], rfl, rfl, by decide, fun offset => rfl⟩
  | rightParen => exact ⟨_, [], rfl, rfl, by decide, fun offset => rfl⟩
  | leftBracket => exact ⟨_, [], rfl, rfl, by decide, fun offset => rfl⟩
  | rightBracket => exact ⟨_, [], rfl, rfl, by decide, fun offset => rfl⟩
  | leftBrace => exact ⟨_, [], rfl, rfl, by decide, fun offset => rfl⟩
  | rightBrace => exact ⟨_, [], rfl, rfl, by decide, fun offset => rfl⟩
  | colon => exact ⟨_, [], rfl, rfl, by decide, fun offset => rfl⟩
  | semicolon => exact ⟨_, [], rfl, rfl, by decide, fun offset => rfl⟩

theorem spelling_ofWord (word : String) : (ofWord word).spelling = word := by
  unfold ofWord
  split
  · next h =>
    have hk := List.find?_some h
    exact eq_of_beq hk
  · rfl

theorem read_question (offset : Nat) {cs : List Char} (h : ∀ ds, cs ≠ '/' :: '/' :: ds) :
    read offset '?' cs = .ok (.question, ⟨offset + 1, cs⟩) := by
  simp [read, sign?, isIdentStart]

theorem readsAs_of_readDot {offset : Nat} {cs rest' : List Char} (hr : Ahead (readDot offset cs).2.rest rest') :
    '.' :: cs = (readDot offset cs).1.spelling.toList ++ (readDot offset cs).2.rest ∧
      ReadsAs (readDot offset cs).1 (readDot offset cs).1.spelling.toList rest' := by
  have hspelling : dot.spelling.toList = ['.'] := rfl
  have hdot : ∀ {rest : List Char}, (∀ offset, readDot offset rest = (.dot, ⟨offset + 1, rest⟩)) →
      ReadsAs .dot dot.spelling.toList rest := fun h =>
    ⟨'.', [], rfl, rfl, by decide, fun offset => by rw [read_dot, List.nil_append, h]; rfl⟩
  have hdotStops : ∀ {rest : List Char}, Stops rest → ∀ offset, readDot offset rest = (.dot, ⟨offset + 1, rest⟩) := by
    intro rest h offset
    rcases h.cases with rfl | ⟨c, cs, rfl, rfl | rfl | rfl | rfl | rfl⟩ <;> rfl
  unfold readDot at hr ⊢
  split
  · cases hr with
    | stops h => exact ⟨by rw [hspelling]; rfl, hdot (hdotStops h)⟩
  · next c cs =>
    dsimp only at hr
    by_cases hc : c = '.'
    · subst hc
      rw [if_pos rfl]
      have hspelling : dotDot.spelling.toList = ['.', '.'] := rfl
      have hreads : ReadsAs .dotDot dotDot.spelling.toList rest' :=
        ⟨'.', ['.'], rfl, rfl, by decide, fun _ => rfl⟩
      exact ⟨by rw [hspelling]; rfl, hreads⟩
    · rw [if_neg hc] at hr ⊢
      by_cases hd : c.isDigit = true
      · rw [if_pos hd] at hr ⊢
        dsimp only [spelling] at hr ⊢
        rw [String.toList_ofList]
        refine ⟨(splitNumber_append _).symm, readsAs_number (splitNumber_ahead hr) ?_⟩
        exact (isNumber_splitNumber (.inr ⟨c, cs, rfl, hd⟩)).2
      · rw [if_neg hd] at hr ⊢
        by_cases hs : isIdentStart c = true
        · rw [if_pos hs] at hr ⊢
          dsimp only at hr ⊢
          have hspelling : ∀ name, (field (String.ofList name)).spelling.toList = '.' :: name := fun name => by
            simp only [spelling, String.toList_append, String.toList_ofList]
            rfl
          rw [hspelling]
          refine ⟨?_, readsAs_field (splitName_ahead rfl hr) (isWord_of_splitName rfl hs).2⟩
          rw [List.cons_append, Cursor.behind, splitName_append]
        · rw [if_neg hs] at hr ⊢
          refine ⟨by rw [hspelling]; rfl, hdot ?_⟩
          rcases hr.head with h | h
          · exact hdotStops h
          · obtain ⟨ds, rfl⟩ := List.head?_eq_some_iff.1 h
            intro offset
            rw [readDot, if_neg hc, if_neg hd, if_neg hs]

/-- **What was read as a token is read again in front of anything that looks the same.** -/
theorem readsAs_of_read {offset : Nat} {c : Char} {cs rest' : List Char} {t : Token} {next : Cursor}
    (h : read offset c cs = .ok (t, next)) (hquote : c ≠ '"') (hr : Ahead next.rest rest') :
    c :: cs = t.spelling.toList ++ next.rest ∧ ReadsAs t t.spelling.toList rest' := by
  have hsigil : ∀ {make : String → Token} {cause : SyntaxError.Cause} {sigil : Char},
      (∀ offset cs, read offset sigil cs = readName make cause sigil offset cs) → isBlank sigil = false →
      sigil ≠ '#' → (∀ s, (make s).spelling = s) → readName make cause sigil offset cs = .ok (t, next) →
      sigil :: cs = t.spelling.toList ++ next.rest ∧ ReadsAs t t.spelling.toList rest' := by
    intro make cause sigil hread hblank hcomment hmake h
    unfold readName at h
    split at h
    · cases h
    · next name rest hne hsplit =>
      cases h
      rw [hmake, String.toList_ofList]
      refine ⟨by rw [List.cons_append, ← splitName_append cs, hsplit]; rfl, ?_⟩
      exact readsAs_sigil hread hblank hcomment (splitName_ahead hsplit hr) fun hnil => by simp_all
  unfold read at h
  split at h
  · next hc =>
    subst hc
    have hcut := Except.ok.inj h
    have hdot := readsAs_of_readDot (by rwa [hcut] : Ahead (readDot offset cs).2.rest rest')
    rwa [hcut] at hdot
  split at h
  · next hc =>
    subst hc
    exact hsigil (fun _ _ => rfl) rfl (by decide) (fun _ => rfl) h
  split at h
  · next hc =>
    subst hc
    exact hsigil (fun _ _ => rfl) rfl (by decide) (fun _ => rfl) h
  split at h
  · next hd =>
    cases h
    dsimp only [spelling]
    rw [String.toList_ofList]
    exact ⟨(splitNumber_append _).symm,
      readsAs_number (splitNumber_ahead hr) (isNumber_splitNumber (.inl ⟨c, rfl, hd⟩)).2⟩
  split at h
  · next hs =>
    cases h
    rw [spelling_ofWord, String.toList_ofList]
    exact ⟨(splitName_append _).symm, readsAs_word (splitName_ahead rfl hr) (isWord_of_splitName rfl hs).2⟩
  split at h
  · next hs =>
    cases h
    unfold sign? at hs
    split at hs <;> cases hs <;> exact ⟨rfl, _, [], rfl, rfl, by decide, fun _ => rfl⟩
  split at h
  · cases h
    exact ⟨rfl, '?', ['/', '/'], rfl, rfl, by decide, fun _ => rfl⟩
  · next hslashes =>
    cases h
    have hrest : ∀ ds, rest' ≠ '/' :: '/' :: ds := fun ds heq => by
      subst heq
      obtain ⟨cs, rfl, hcs⟩ := hr.char_inv rfl rfl
      obtain ⟨cs, rfl, -⟩ := hcs.char_inv rfl rfl
      exact hslashes cs rfl
    have hspelling : question.spelling.toList = ['?'] := rfl
    refine ⟨by rw [hspelling]; rfl, '?', [], rfl, rfl, by decide, fun offset => ?_⟩
    rw [List.nil_append]
    exact read_question offset hrest
  · split at h
    · next hop =>
      cases h
      exact ⟨(splitOperator?_append hop).symm, readsAs_operator (.inr (splitOperator?_ahead hop hr))⟩
    · cases h

theorem read_ne_eof {offset : Nat} {c : Char} {cs : List Char} {t : Token} {next : Cursor}
    (h : read offset c cs = .ok (t, next)) : t ≠ .eof := by
  by_cases hquote : c = '"'
  · subst hquote
    have h : readString offset cs = .ok (t, next) := h
    unfold readString at h
    split at h <;> cases h
    exact nofun
  · rintro rfl
    obtain ⟨-, d, ds, htext, -⟩ := readsAs_of_read h hquote (Ahead.append stops_nil next.rest)
    cases htext

/-! ## Strings, piece by piece -/

section
variable {quote offset : Nat}

theorem readPieces_escape {cs : List Char} {piece : Piece} {next last : Cursor} {pieces : List Piece}
    (hesc : readEscape quote offset cs = .ok (piece, next))
    (h : readPieces quote next.offset next.rest = .ok (pieces, last)) :
    readPieces quote offset ('\\' :: cs) = .ok (piece :: pieces, last) := by
  rw [readPieces]
  split
  · next heq =>
    rw [hesc] at heq
    cases heq
  · next heq =>
    rw [hesc] at heq
    cases heq
    rw [h]

theorem readPieces_char {c : Char} {cs : List Char} {last : Cursor} {pieces : List Piece} (hquote : c ≠ '"')
    (hback : c ≠ '\\') (h : readPieces quote (offset + c.utf8Size) cs = .ok (pieces, last)) :
    readPieces quote offset (c :: cs) = .ok (.char c :: pieces, last) := by
  rw [readPieces.eq_4 _ _ _ _ hquote hback]
  simp only [h]

end

end Token
end DefTable
