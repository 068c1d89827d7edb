import DefTable.Proofs.PrintedNames
import DefTable.Proofs.QuotedText
import DefTable.Target.Grammar

/-!
# Lexemes of pieces of text

What the scanner of the generated file's language makes of the pieces that a printed literal consists of: blanks,
brackets, signs, words and quoted texts (`scanAll_word`, `scanAll_quoted`).
-/

namespace DefTable.Target.Lexeme

open Text

/-! ## Blanks, brackets and signs -/

theorem skipBlanks_cons {c : Char} (cs : List Char) (h : c ≠ '/') :
    skipBlanks .space (c :: cs) = if isBlank c then skipBlanks .space cs else some (c :: cs) := by
  rw [skipBlanks]
  · exact fun _ hc => absurd hc h
  · exact fun _ hc => absurd hc h

theorem scanAll_skip : ∀ {cs : List Char} {o : Option (List Char)}, skipBlanks .space cs = o →
    scanAll cs =
      match o with
      | none => none
      | some [] => some []
      | some (c :: more) =>
        match read c more with
        | none => none
        | some (l, rest) => (scanAll rest).map (l :: ·) := by
  rintro cs _ rfl
  rw [scanAll]
  split
  · next h => rw [h]
  · next h => rw [h]
  · next h =>
    rw [h]
    split
    · next hr => simp only [hr]
    · next hr => simp only [hr]

@[simp] theorem scanAll_nil : scanAll [] = some [] :=
  scanAll_skip rfl

@[simp] theorem scanAll_blank (cs : List Char) : scanAll (' ' :: cs) = scanAll cs := by
  have h : skipBlanks .space (' ' :: cs) = skipBlanks .space cs := skipBlanks_cons cs (by decide)
  rw [scanAll_skip h, ← scanAll_skip rfl]

theorem scanAll_cons {c : Char} {cs rest : List Char} {l : Lexeme} (hc : c ≠ '/') (hb : isBlank c = false)
    (hr : read c cs = some (l, rest)) : scanAll (c :: cs) = (scanAll rest).map (l :: ·) := by
  have h : skipBlanks .space (c :: cs) = some (c :: cs) := by
    rw [skipBlanks_cons cs hc, hb]
    rfl
  rw [scanAll_skip h]
  simp only [hr]

theorem scanAll_bracket {c : Char} {l : Lexeme} (cs : List Char) (h : bracket? c = some l) :
    scanAll (c :: cs) = (scanAll cs).map (l :: ·) := by
  have hr : read c cs = some (l, cs) := by rw [read, h]
  refine scanAll_cons ?_ ?_ hr
  · rintro rfl
    cases h
  · unfold bracket? at h
    split at h
    any_goals decide
    cases h

theorem startsSign_cons {c : Char} (cs : List Char) (h : isSign c = false) : startsSign (c :: cs) = false := by
  unfold startsSign
  split
  · rfl
  · rfl
  · next heq =>
    cases heq
    exact h
  · rfl

/-- The signs of a printed literal: none of them starts anything else. -/
theorem scanAll_sign {c : Char} (cs : List Char) (h : c = ',' ∨ c = ':' ∨ c = '.' ∨ c = '!') :
    scanAll (c :: cs) = (scanAll cs).map (.sign c (startsSign cs) :: ·) := by
  rcases h with rfl | rfl | rfl | rfl <;> exact scanAll_cons (by decide) (by decide) rfl

/-! ## Words -/

/-- Whether a character makes the mark of a string of the word in front of it. -/
def isLoud (c : Char) : Bool :=
  c = '"' || c = '\x27' || c = '#'

/-- Whether a text does not continue a word in front of it, nor makes the mark of a string of it. -/
def Stops (cs : List Char) : Prop :=
  ∀ c ∈ cs.head?, isNameContinue c = false ∧ isLoud c = false

theorem stops_nil : Stops [] :=
  fun _ hc => nomatch hc

theorem stops_cons {c : Char} {cs : List Char} (hname : isNameContinue c = false) (hloud : isLoud c = false) :
    Stops (c :: cs) := by
  intro d hd
  obtain rfl : c = d := Option.some.inj hd
  exact ⟨hname, hloud⟩

theorem Stops.append {cs rest : List Char} (h : Stops cs) (hrest : Stops rest) : Stops (cs ++ rest) := by
  cases cs with
  | nil => exact hrest
  | cons c cs => exact h

/-- Whether no mark of a string stands behind the word at the start of a text. -/
def Quiet (cs : List Char) : Prop :=
  ∀ c ∈ (cs.dropWhile isWordChar).head?, isLoud c = false

theorem lt_of_isWordChar {c : Char} (h : isWordChar c = true) : c.toNat < 128 := by
  simp only [isWordChar, Char.isAlphanum, Bool.or_eq_true, isAlpha_iff_toNat, Char.isDigit_iff_toNat,
    decide_eq_true_eq] at h
  rcases h with (h | h) | rfl
  · omega
  · exact Nat.lt_of_le_of_lt h.2 (by decide)
  · decide

theorem of_ascii {P : Char → Prop} (h : ∀ n < 128, P (Char.ofNat n)) {c : Char} (hc : c.toNat < 128) : P c :=
  Char.ofNat_toNat c ▸ h c.toNat hc

theorem isWordChar_facts {c : Char} (h : isWordChar c = true) :
    isNameContinue c = true ∧ bracket? c = none ∧ isSign c = false ∧ isBlank c = false ∧ isLoud c = false ∧
      c ≠ '/' ∧ (c.isDigit = false → isWordStart c = true) :=
  of_ascii (P := fun c => isWordChar c = true → isNameContinue c = true ∧ bracket? c = none ∧ isSign c = false ∧
    isBlank c = false ∧ isLoud c = false ∧ c ≠ '/' ∧ (c.isDigit = false → isWordStart c = true))
    (by decide) (lt_of_isWordChar h) h

theorem ne_of_isLoud {c d : Char} (hc : isLoud c = false) (hd : isLoud d = true) : c ≠ d := by
  rintro rfl
  rw [hc] at hd
  cases hd

section Words

variable {c : Char} {cs rest : List Char}

theorem Stops.dropWhile_eq (hrest : Stops rest) {p : Char → Bool} (hp : ∀ c, p c = true → isNameContinue c = true) :
    rest.dropWhile p = rest := by
  cases rest with
  | nil => rfl
  | cons d ds =>
    refine List.dropWhile_cons_of_neg fun hd => ?_
    have hname := hp d hd
    rw [(hrest d rfl).1] at hname
    cases hname

theorem Stops.takeWhile_eq (hrest : Stops rest) : rest.takeWhile isNameContinue = [] := by
  cases rest with
  | nil => rfl
  | cons d ds => exact List.takeWhile_cons_of_neg (by simpa using (hrest d rfl).1)

theorem quiet_append (hcs : ∀ c ∈ cs, isWordChar c = true) (hrest : Stops rest) : Quiet (cs ++ rest) := by
  rw [Quiet, List.dropWhile_append_of_pos hcs, hrest.dropWhile_eq fun c hc => (isWordChar_facts hc).1]
  exact fun c hc => (hrest c hc).2

theorem Quiet.tail (h : Quiet (c :: cs)) (hc : isWordChar c = true) : Quiet cs := by
  rwa [Quiet, List.dropWhile_cons_of_pos hc] at h

theorem Quiet.head (h : Quiet (c :: cs)) : isLoud c = false := by
  by_cases hc : isWordChar c = true
  · exact (isWordChar_facts hc).2.2.2.2.1
  · rw [Quiet, List.dropWhile_cons_of_neg hc] at h
    exact h c rfl

theorem Quiet.rawString?_eq (h : Quiet cs) : rawString? cs = none := by
  cases cs with
  | nil => rfl
  | cons d ds =>
    have hd : (d :: ds).dropWhile (· = '#') = d :: ds :=
      List.dropWhile_cons_of_neg (by simpa using ne_of_isLoud h.head rfl)
    unfold rawString?
    rw [hd]
    split
    · next heq =>
      cases heq
      exact absurd rfl (ne_of_isLoud h.head rfl)
    · rfl

theorem Quiet.quotation?_eq (h : Quiet (c :: cs)) : quotation? c cs = none := by
  unfold quotation?
  split
  · exact absurd rfl (ne_of_isLoud h.head rfl)
  · exact absurd rfl (ne_of_isLoud h.head rfl)
  · exact (h.tail rfl).rawString?_eq
  · exact absurd rfl (ne_of_isLoud (h.tail rfl).head rfl)
  · exact absurd rfl (ne_of_isLoud (h.tail rfl).head rfl)
  · exact ((h.tail rfl).tail rfl).rawString?_eq
  · exact absurd rfl (ne_of_isLoud (h.tail rfl).head rfl)
  · exact ((h.tail rfl).tail rfl).rawString?_eq
  · rfl

theorem Quiet.no_mark (h : Quiet cs) : (stringMarks.any fun mark => mark.isPrefixOf cs) = false := by
  have hloud : ∀ mark ∈ stringMarks, (mark.dropWhile isWordChar).head?.any isLoud = true := by decide
  refine List.any_eq_false.2 fun mark hmark hp => ?_
  obtain ⟨more, rfl⟩ := List.isPrefixOf_iff_prefix.1 hp
  obtain ⟨d, hd, hl⟩ := (Option.any_eq_true _ _).1 (hloud mark hmark)
  refine ne_of_isLoud (h d ?_) hl rfl
  rw [List.dropWhile_append]
  split
  · next he =>
    rw [List.isEmpty_iff.1 he] at hd
    cases hd
  · rw [List.head?_append, hd]
    rfl

theorem plain?_word (hw : isPlainWord (c :: cs) = true) (hrest : Stops rest) :
    plain? c (cs ++ rest) = some (.word (String.ofList (c :: cs)), rest) := by
  simp only [isPlainWord, Bool.and_eq_true, Bool.not_eq_true', List.all_eq_true, List.forall_mem_cons] at hw
  obtain ⟨hdigit, hc, hcs⟩ := hw
  obtain ⟨-, -, hsign, -, hloud, hslash, hstart⟩ := isWordChar_facts hc
  have hquiet : Quiet (cs ++ rest) := quiet_append hcs hrest
  have hname : ∀ d ∈ cs, isNameContinue d = true := fun d hd => (isWordChar_facts (hcs d hd)).1
  have hat : wordAt (cs ++ rest) = cs := by
    rw [wordAt, List.takeWhile_append_of_pos hname, hrest.takeWhile_eq, List.append_nil]
  have hafter : afterWord (cs ++ rest) = rest := by
    rw [afterWord, List.dropWhile_append_of_pos hname, hrest.dropWhile_eq fun _ => id]
  have hmarks := Quiet.no_mark (quiet_append (List.forall_mem_cons.2 ⟨hc, hcs⟩) hrest)
  have hword : word? c (cs ++ rest) = some (.word (String.ofList (c :: cs)), rest) := by
    unfold word?
    split
    · next heq =>
      rw [heq] at hquiet
      exact absurd rfl (ne_of_isLoud hquiet.head rfl)
    · rw [if_pos (hstart hdigit), hat, hafter]
  rw [List.cons_append] at hmarks
  have hdocument : document? c (cs ++ rest) = none := by
    unfold document?
    split
    · exact absurd rfl hslash
    · exact absurd rfl hslash
    · rfl
  rw [plain?, hdocument, hsign]
  dsimp only
  rw [if_neg Bool.false_ne_true, if_neg (ne_of_isLoud hloud rfl), hmarks, if_neg Bool.false_ne_true,
    hword]

end Words

/-- **A word is one lexeme.** -/
theorem scanAll_word {w rest : List Char} (hw : isPlainWord w = true) (hrest : Stops rest) :
    scanAll (w ++ rest) = (scanAll rest).map (.word (String.ofList w) :: ·) := by
  cases w with
  | nil => cases hw
  | cons c cs =>
    have h : ∀ d ∈ c :: cs, isWordChar d = true := List.all_eq_true.1 (all_of_isPlainWord hw)
    have hdigit : c.isDigit = false := Bool.not_eq_true' _ ▸ (Bool.and_eq_true_iff.1 hw).1
    obtain ⟨-, hbracket, -, hblank, -, hslash, -⟩ := isWordChar_facts (h c List.mem_cons_self)
    have hnumber : number? c (cs ++ rest) = none := by rw [number?, hdigit]; rfl
    have hquotation : quotation? c (cs ++ rest) = none := (quiet_append h hrest).quotation?_eq
    have hr : read c (cs ++ rest) = some (.word (String.ofList (c :: cs)), rest) := by
      rw [read, hbracket, hquotation, hnumber]
      exact plain?_word hw hrest
    exact scanAll_cons hslash hblank hr

/-! ## Quoted texts -/

theorem stringRest_digit (count value : Nat) {d : Nat} (hd : d < 16) (hcount : count < 6) (more : List Char) :
    stringRest (.codePoint count value) (d.digitChar :: more) =
      stringRest (.codePoint (count + 1) (value * 16 + d)) more := by
  have hne : d.digitChar ≠ '}' ∧ d.digitChar ≠ '_' := by
    revert d
    decide
  have hstep : InString.step d.digitChar (.codePoint count value) =
      some (.codePoint (count + 1) (value * 16 + d)) := by
    rw [InString.step, if_neg hne.1, if_neg hne.2, hexValue?_digitChar d hd]
    exact if_pos hcount
  rw [stringRest, hstep]

theorem stringRest_toDigits (n : Nat) (more : List Char) (h : (Nat.toDigits 16 n).length ≤ 6) :
    stringRest (.codePoint 0 0) (Nat.toDigits 16 n ++ more) =
      stringRest (.codePoint (Nat.toDigits 16 n).length n) more := by
  revert more h
  refine toDigits_sixteen_induct (P := fun n ds => ∀ more, ds.length ≤ 6 → stringRest (.codePoint 0 0) (ds ++ more) =
    stringRest (.codePoint ds.length n) more) (fun d hd more _ => ?_) (fun n d hd ih more h => ?_) n
  · rw [List.singleton_append, stringRest_digit 0 0 hd (by decide), Nat.zero_mul, Nat.zero_add, Nat.zero_add,
      List.length_singleton]
  · rw [List.length_append, List.length_singleton] at h
    rw [List.append_assoc, ih _ (by omega), List.singleton_append, stringRest_digit _ n hd h, List.length_append,
      List.length_singleton]

theorem stringRest_escape (c : Char) (more : List Char) :
    stringRest .plain (escape '"' c ++ more) = stringRest .plain more := by
  unfold escape
  split
  any_goals rfl
  next hreturn _ hbackslash =>
  split
  · next hc =>
    rw [hc]
    rfl
  · next hc =>
    split
    · rw [List.append_assoc, List.append_assoc]
      have hdigits : 0 < (Nat.toDigits 16 c.toNat).length := Nat.length_toDigits_pos
      have hvalid : c.toNat.isValidChar := c.valid
      calc stringRest .plain (['\\', 'u', '\x7b'] ++ (Nat.toDigits 16 c.toNat ++ (['\x7d'] ++ more)))
          = stringRest (.codePoint 0 0) (Nat.toDigits 16 c.toNat ++ (['\x7d'] ++ more)) := rfl
        _ = stringRest (.codePoint _ c.toNat) ('\x7d' :: more) := stringRest_toDigits _ _ (length_toDigits_le c)
        _ = stringRest .plain more := by
          rw [stringRest, InString.step, if_pos rfl, if_pos ⟨hdigits, hvalid⟩]
    · have hstep : InString.step c .plain = some .plain := by
        rw [InString.step, InString.afterPlain, if_neg hc, if_neg hbackslash, if_neg hreturn]
      rw [List.singleton_append, stringRest, hstep]

/-- **A quoted text is one lexeme, whatever it holds.** -/
theorem scanAll_quoted (s : String) {rest : List Char} (hrest : Stops rest) :
    scanAll ((quoted s).toList ++ rest) = (scanAll rest).map (.quotation :: ·) := by
  have h : ∀ cs : List Char, stringRest .plain (cs.flatMap (escape '"') ++ '"' :: rest) = some rest := by
    intro cs
    induction cs with
    | nil => rfl
    | cons c cs ih => rw [List.flatMap_cons, List.append_assoc, stringRest_escape, ih]
  have hsuffix : afterSuffix rest = rest := by
    rw [afterSuffix, afterWord, hrest.dropWhile_eq fun _ => id, ite_self]
  rw [quoted, String.toList_ofList, enclose, List.cons_append, List.cons_append, List.append_assoc,
    List.singleton_append]
  refine scanAll_cons (by decide) (by decide) ?_
  have hq : quotation? '"' (s.toList.flatMap (escape '"') ++ '"' :: rest) = some rest := h s.toList
  have hbracket : bracket? '"' = none := rfl
  rw [read, hbracket, hq]
  exact congrArg (fun r => some (quotation, r)) hsuffix

end DefTable.Target.Lexeme

/-! ## Identifiers and paths -/

namespace DefTable.Target

open DefTable.Target.Lexeme

theorem afterByteOrderMark_word {w rest : List Char} (hw : isPlainWord w = true) :
    afterByteOrderMark (w ++ rest) = w ++ rest := by
  cases w with
  | nil => cases hw
  | cons c cs =>
    have hc : isWordChar c = true := List.all_eq_true.1 (all_of_isPlainWord hw) c List.mem_cons_self
    rw [List.cons_append]
    unfold afterByteOrderMark
    split
    · next heq =>
      cases heq
      cases hc
    · rfl

theorem isIdentifier_of_isName {w : String} (hw : isPlainWord w.toList = true) (hn : isName w = true) :
    isIdentifier w = true := by
  have hall : scanAll (w.toList ++ []) = some [.word w] := by
    rw [scanAll_word hw stops_nil, scanAll_nil, String.ofList_toList]
    rfl
  have hmark : afterByteOrderMark (w.toList ++ []) = w.toList ++ [] := afterByteOrderMark_word hw
  have hscan : scan w = some [.word w] := by
    rw [List.append_nil] at hmark hall
    rw [scan, hmark, hall]
    rfl
  rw [isIdentifier, hscan]
  exact hn

theorem scanAll_colons {w rest : List Char} (hw : isPlainWord w = true) :
    scanAll (':' :: ':' :: (w ++ rest)) = (scanAll (w ++ rest)).map ([.sign ':' true, .sign ':' false] ++ ·) := by
  cases w with
  | nil => cases hw
  | cons c cs =>
    have hc : isWordChar c = true := List.all_eq_true.1 (all_of_isPlainWord hw) c List.mem_cons_self
    have hsign : startsSign (c :: cs ++ rest) = false := startsSign_cons _ (isWordChar_facts hc).2.2.1
    rw [scanAll_sign _ (.inr (.inl rfl)), scanAll_sign _ (.inr (.inl rfl)), hsign, Option.map_map]
    rfl

theorem pathWords_not_contains {w : String} (hn : isName w = true) : pathWords.contains w = false := by
  have h : ∀ v ∈ pathWords, isName v = false := by decide
  refine Bool.eq_false_iff.2 fun hc => ?_
  rw [h w (List.contains_iff_mem.1 hc)] at hn
  cases hn

theorem segments?_word {w : String} (hn : isName w = true) (n : Nat) : segments? false (n + 2) [.word w] = some [] := by
  rw [segments?, segment?, pathWords_not_contains hn, hn]
  rfl

theorem segments?_cons {w v : String} (hn : isName w = true) (n : Nat) (ls : List Lexeme) :
    segments? false (n + 2) (.word w :: .sign ':' true :: .sign ':' false :: .word v :: ls) =
      segments? false n (.word v :: ls) := by
  have h : segment? false (n + 1) (.word w :: .sign ':' true :: .sign ':' false :: .word v :: ls) =
      some (.sign ':' true :: .sign ':' false :: .word v :: ls) := by
    rw [segment?, pathWords_not_contains hn, hn]
    rfl
  rw [segments?, h, Option.bind_some]
  rfl

/-- The lexemes of a name in the module of the node types. -/
def nodePathLexemes (w : String) : List Lexeme :=
  [.word "jqdefs_core", .sign ':' true, .sign ':' false, .word "ast", .sign ':' true, .sign ':' false, .word w]

theorem scan_nodePath {w : String} (hw : isPlainWord w.toList = true) :
    scan (nodePath w) = some (nodePathLexemes w) := by
  have hcrate : isPlainWord "jqdefs_core".toList = true := by decide
  have hmodule : isPlainWord "ast".toList = true := by decide
  have hstop : ∀ cs : List Char, Stops (':' :: cs) := fun cs => stops_cons (by decide) (by decide)
  have htext : (nodePath w).toList =
      "jqdefs_core".toList ++ ':' :: ':' :: ("ast".toList ++ ':' :: ':' :: (w.toList ++ [])) := by
    rw [toList_nodePath, List.append_nil]
    rfl
  rw [scan, htext, afterByteOrderMark_word hcrate, scanAll_word hcrate (hstop _), scanAll_colons hmodule,
    scanAll_word hmodule (hstop _), scanAll_colons hw, scanAll_word hw stops_nil, scanAll_nil]
  simp only [String.ofList_toList, Option.map_some]
  rfl

theorem isPath_nodePath {w : String} (hw : isPlainWord w.toList = true) (hn : isName w = true) :
    isPath (nodePath w) = true := by
  have hcrate : isName "jqdefs_core" = true := by decide
  have hmodule : isName "ast" = true := by decide
  have hsegments : segments? false 255 (nodePathLexemes w) = some [] := by
    rw [nodePathLexemes, segments?_cons hcrate, segments?_cons hmodule, segments?_word hn]
  have hsteps : enoughSteps (nodePathLexemes w) = 255 + 1 := rfl
  rw [isPath, isWhole, scan_nodePath hw, Option.any_some, hsteps, path?]
  exact beq_iff_eq.2 hsegments

end DefTable.Target
