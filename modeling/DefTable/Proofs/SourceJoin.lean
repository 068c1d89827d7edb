import DefTable.Proofs.OffsetShift
import DefTable.Proofs.TokenSpelling

/-!
# Two sources, one line after the other

A source that is cut into tokens is cut into the same ones with another source on the lines below, where the tokens of
the other one take the place of the end (`Token.scanFrom_lineFeed`). Every reader moves its offset by the bytes it takes
(`Cursor.finish`), so that the second source begins where the first one and the line feed end.
-/

namespace DefTable

open Text

/-! ## The end of a source -/

/-- The offset of the end of a source. -/
def Cursor.finish (c : Cursor) : Nat :=
  c.offset + byteLength c.rest

theorem Cursor.finish_mk (offset : Nat) (rest : List Char) : finish ⟨offset, rest⟩ = offset + byteLength rest := rfl

theorem Cursor.finish_behind (offset : Nat) (text rest : List Char) :
    (behind offset text rest).finish = offset + byteLength (text ++ rest) := by
  rw [finish, behind, byteLength_append, Nat.add_assoc]

namespace Token

theorem finish_skipTrivia : ∀ (inComment : Bool) (offset : Nat) (cs : List Char),
    (skipTrivia inComment offset cs).finish = offset + byteLength cs
  | _, _, [] => rfl
  | inComment, offset, c :: cs => by
    unfold skipTrivia
    rw [byteLength_cons, ← Nat.add_assoc]
    split
    · exact finish_skipTrivia _ _ cs
    · split
      · exact finish_skipTrivia _ _ cs
      · split
        · exact finish_skipTrivia _ _ cs
        · rw [Cursor.finish, byteLength_cons, Nat.add_assoc]

theorem finish_skipEnclosed : ∀ (cs : List Char) (es : List Enclosure) (offset : Nat) {text : List Char}
    {next : Cursor}, skipEnclosed es offset cs = .ok (text, next) → next.finish = offset + byteLength cs
  | [], _, _, _, _, h => by cases h
  | c :: cs, es, offset, text, next, h => by
    unfold skipEnclosed at h
    rw [byteLength_cons, ← Nat.add_assoc]
    split at h
    · cases h
      rfl
    · split at h
      · next h' =>
        cases h
        exact finish_skipEnclosed cs _ _ h'
      · cases h

theorem utf8Size_of_hexValue? {c : Char} {n : Nat} (h : hexValue? c = some n) : c.utf8Size = 1 := by
  have hle : c.val ≤ 0x7f := by
    unfold hexValue? at h
    split at h
    · next hd =>
      simp only [Char.isDigit, Bool.and_eq_true, decide_eq_true_eq] at hd
      exact UInt32.le_trans hd.2 (by decide)
    · split at h
      · next hd => exact UInt32.le_trans hd.2 (by decide)
      · split at h
        · next hd => exact UInt32.le_trans hd.2 (by decide)
        · cases h
  exact if_pos hle

theorem hex4?_eq_some {cs rest : List Char} {n : Nat} (h : hex4? cs = some (n, rest)) :
    ∃ a b c d, cs = a :: b :: c :: d :: rest ∧ (∀ x ∈ [a, b, c, d], (hexValue? x).isSome = true) ∧
      ∀ rest', hex4? (a :: b :: c :: d :: rest') = some (n, rest') := by
  unfold hex4? at h
  split at h
  · next a b c d rest =>
    split at h
    · next ha hb hc hd =>
      cases h
      refine ⟨a, b, c, d, rfl, by simp [ha, hb, hc, hd], fun rest' => ?_⟩
      rw [hex4?, ha, hb, hc, hd]
    · cases h
  · cases h

theorem byteLength_hex4? {cs rest : List Char} {n : Nat} (h : hex4? cs = some (n, rest)) :
    byteLength cs = 4 + byteLength rest := by
  obtain ⟨a, b, c, d, rfl, hhex, -⟩ := hex4?_eq_some h
  have hsize : ∀ x ∈ [a, b, c, d], x.utf8Size = 1 := fun x hx => by
    obtain ⟨m, hm⟩ := Option.isSome_iff_exists.1 (hhex x hx)
    exact utf8Size_of_hexValue? hm
  simp only [List.forall_mem_cons] at hsize
  simp only [byteLength_cons, hsize]
  omega

theorem finish_readUnicode {start offset : Nat} {cs : List Char} {c : Char} {next : Cursor}
    (h : readUnicode start offset cs = .ok (c, next)) : next.finish = offset + byteLength cs := by
  have hu : ('\\' : Char).utf8Size = 1 ∧ ('u' : Char).utf8Size = 1 := by decide
  unfold readUnicode at h
  split at h
  · cases h
  · next hhigh =>
    rw [byteLength_hex4? hhigh]
    split at h
    · split at h
      · split at h
        · cases h
        · next hlow =>
          cases h
          rw [byteLength_cons, byteLength_cons, byteLength_hex4? hlow, hu.1, hu.2, Cursor.finish_mk]
          omega
      · cases h
        rw [Cursor.finish_mk, Nat.add_assoc]
    · cases h
      rw [Cursor.finish_mk, Nat.add_assoc]

theorem utf8Size_of_shortEscape? {c d : Char} (h : shortEscape? c = some d) : c.utf8Size = 1 := by
  unfold shortEscape? at h
  split at h <;> first | rfl | cases h

theorem finish_readEscape {quote start : Nat} {cs : List Char} {piece : Piece} {next : Cursor}
    (h : readEscape quote start cs = .ok (piece, next)) : next.finish = start + byteLength ('\\' :: cs) := by
  have hback : ('\\' : Char).utf8Size = 1 ∧ ('u' : Char).utf8Size = 1 ∧ ('(' : Char).utf8Size = 1 := by decide
  rw [byteLength_cons, hback.1]
  unfold readEscape at h
  split at h
  · cases h
  · split at h
    · next h' =>
      cases h
      rw [finish_readUnicode h', byteLength_cons, hback.2.1]
      omega
    · cases h
  · split at h
    · next h' =>
      cases h
      rw [finish_skipEnclosed _ _ _ h', byteLength_cons, hback.2.2]
      omega
    · cases h
  · split at h
    · next hshort =>
      cases h
      rw [Cursor.finish_mk, byteLength_cons, utf8Size_of_shortEscape? hshort]
      omega
    · cases h

theorem finish_readPieces (quote offset : Nat) (cs : List Char) {pieces : List Piece} {next : Cursor}
    (h : readPieces quote offset cs = .ok (pieces, next)) : next.finish = offset + byteLength cs := by
  fun_induction readPieces quote offset cs generalizing pieces next with
  | case1 => cases h
  | case2 offset cs =>
    cases h
    have hquote : ('"' : Char).utf8Size = 1 := by decide
    rw [Cursor.finish, byteLength_cons, hquote, Nat.add_assoc]
  | case3 => cases h
  | case4 => cases h
  | case5 offset cs piece next' hesc pieces' last hrest ih =>
    cases h
    rw [ih hrest, ← finish_readEscape hesc, Cursor.finish]
  | case6 => cases h
  | case7 offset c cs _ _ pieces' last hrest ih =>
    cases h
    rw [ih hrest, byteLength_cons, Nat.add_assoc]

theorem finish_readDot (offset : Nat) (cs : List Char) :
    (readDot offset cs).2.finish = offset + byteLength ('.' :: cs) := by
  have hdot : ('.' : Char).utf8Size = 1 := by decide
  unfold readDot
  split
  · rw [Cursor.finish, byteLength_cons, hdot, Nat.add_assoc]
  · next c cs =>
    split
    · next hc =>
      subst hc
      rw [Cursor.finish_mk, byteLength_cons, byteLength_cons, hdot]
      omega
    · split
      · rw [Cursor.finish_behind, splitNumber_append]
      · split
        · rw [Cursor.finish_behind, splitName_append, byteLength_cons '.', hdot, Nat.add_assoc]
        · rw [Cursor.finish, byteLength_cons '.', hdot, Nat.add_assoc]

theorem finish_readName {make : String → Token} {cause : SyntaxError.Cause} {sigil : Char} {offset : Nat}
    {cs : List Char} {t : Token} {next : Cursor} (h : readName make cause sigil offset cs = .ok (t, next)) :
    next.finish = offset + byteLength (sigil :: cs) := by
  have hcut := splitName_append cs
  unfold readName at h
  split at h
  · cases h
  · next hsplit =>
    cases h
    rw [hsplit] at hcut
    rw [Cursor.finish_behind, List.cons_append, hcut]

/-- Every reader ends the source where it ended. -/
theorem finish_read {offset : Nat} {c : Char} {cs : List Char} {t : Token} {next : Cursor}
    (h : read offset c cs = .ok (t, next)) : next.finish = offset + byteLength (c :: cs) := by
  unfold read at h
  split at h
  · next hc =>
    subst hc
    rw [← finish_readDot offset cs, Except.ok.inj h]
  split at h
  · next hc =>
    subst hc
    exact finish_readName h
  split at h
  · next hc =>
    subst hc
    exact finish_readName h
  split at h
  · next hc =>
    subst hc
    unfold readString at h
    have hquote : ('"' : Char).utf8Size = 1 := by decide
    split at h
    · next h' =>
      cases h
      rw [finish_readPieces _ _ _ h', byteLength_cons, hquote, Nat.add_assoc]
    · cases h
  split at h
  · have hnext : Cursor.behind offset (splitNumber (c :: cs)).1 (splitNumber (c :: cs)).2 = next :=
      congrArg Prod.snd (Except.ok.inj h)
    rw [← hnext, Cursor.finish_behind, splitNumber_append]
  split at h
  · have hnext : Cursor.behind offset (splitName (c :: cs)).1 (splitName (c :: cs)).2 = next :=
      congrArg Prod.snd (Except.ok.inj h)
    rw [← hnext, Cursor.finish_behind, splitName_append]
  split at h
  · next hs =>
    cases h
    have hsize : c.utf8Size = 1 := by
      unfold sign? at hs
      split at hs <;> first | rfl | cases hs
    rw [Cursor.finish, byteLength_cons, hsize, Nat.add_assoc]
  split at h
  · cases h
    have hsize : ('?' : Char).utf8Size = 1 ∧ ('/' : Char).utf8Size = 1 := by decide
    simp only [Cursor.finish_mk, byteLength_cons, hsize]
    omega
  · cases h
    have hsize : ('?' : Char).utf8Size = 1 := by decide
    rw [Cursor.finish, byteLength_cons, hsize, Nat.add_assoc]
  · split at h
    · next hop =>
      cases h
      rw [Cursor.finish_behind, splitOperator?_append hop]
    · cases h

/-! ## Texts in front of another -/

theorem skipEnclosed_append (tail : List Char) : ∀ (cs : List Char) (es : List Enclosure) (offset : Nat)
    {text : List Char} {next : Cursor}, skipEnclosed es offset cs = .ok (text, next) →
    skipEnclosed es offset (cs ++ tail) = .ok (text, ⟨next.offset, next.rest ++ tail⟩)
  | [], _, _, _, _, h => by cases h
  | c :: cs, es, offset, text, next, h => by
    rw [List.cons_append]
    unfold skipEnclosed at h ⊢
    split at h
    · cases h
      rfl
    · split at h
      · next h' =>
        cases h
        rw [skipEnclosed_append tail cs _ _ h']
      · cases h

section
variable {tail : List Char} (ht : Stops tail)
include ht

theorem readUnicode_append {start offset : Nat} {cs : List Char} {c : Char} {next : Cursor}
    (h : readUnicode start offset cs = .ok (c, next)) :
    readUnicode start offset (cs ++ tail) = .ok (c, ⟨next.offset, next.rest ++ tail⟩) := by
  have hback : ∀ {rest : List Char}, (∀ cs, rest ≠ '\\' :: 'u' :: cs) → ∀ cs, rest ++ tail ≠ '\\' :: 'u' :: cs := by
    intro rest hrest cs heq
    rcases ht.cases with rfl | ⟨d, ds, rfl, hd⟩
    · exact hrest cs (by simpa using heq)
    · obtain _ | ⟨a, _ | ⟨b, rest⟩⟩ := rest
      · cases heq
        simp at hd
      · cases heq
        simp at hd
      · cases heq
        exact hrest _ rfl
  unfold readUnicode at h
  split at h
  · cases h
  · next high rest hhigh =>
    obtain ⟨a, b, c, d, rfl, -, hhigh'⟩ := hex4?_eq_some hhigh
    unfold readUnicode
    simp only [List.cons_append, hhigh']
    split at h
    · next hsurrogate =>
      rw [if_pos hsurrogate]
      split at h
      · next cs' =>
        split at h
        · cases h
        · next low rest' hlow =>
          obtain ⟨a, b, c, d, rfl, -, hlow'⟩ := hex4?_eq_some hlow
          cases h
          simp only [List.cons_append, hlow']
      · next hrest =>
        cases h
        split
        · next heq => exact absurd heq (hback hrest _)
        · rfl
    · next hsurrogate =>
      cases h
      rw [if_neg hsurrogate]

theorem readEscape_append {quote start : Nat} {cs : List Char} {piece : Piece} {next : Cursor}
    (h : readEscape quote start cs = .ok (piece, next)) :
    readEscape quote start (cs ++ tail) = .ok (piece, ⟨next.offset, next.rest ++ tail⟩) := by
  unfold readEscape at h
  split at h
  · cases h
  · split at h
    · next h' =>
      cases h
      rw [List.cons_append, readEscape, readUnicode_append ht h']
    · cases h
  · split at h
    · next h' =>
      cases h
      rw [List.cons_append, readEscape, skipEnclosed_append tail _ _ _ h']
    · cases h
  · next c cs hu hparen =>
    split at h
    · next hshort =>
      cases h
      rw [List.cons_append, readEscape.eq_4 _ _ _ _ hu hparen, hshort]
    · cases h

theorem readPieces_append (quote offset : Nat) (cs : List Char) {pieces : List Piece} {next : Cursor}
    (h : readPieces quote offset cs = .ok (pieces, next)) :
    readPieces quote offset (cs ++ tail) = .ok (pieces, ⟨next.offset, next.rest ++ tail⟩) := by
  fun_induction readPieces quote offset cs generalizing pieces next with
  | case1 => cases h
  | case2 offset cs =>
    cases h
    rw [List.cons_append, readPieces]
  | case3 => cases h
  | case4 => cases h
  | case5 offset cs piece next' hesc pieces' last hrest ih =>
    cases h
    rw [List.cons_append, readPieces, readEscape_append ht hesc]
    simp only [ih hrest]
  | case6 => cases h
  | case7 offset c cs hquote hback pieces' last hrest ih =>
    cases h
    rw [List.cons_append, readPieces.eq_4 _ _ _ _ hquote hback, ih hrest]

/-- What was read as a token is read as the same token in front of what stops. -/
theorem read_append {offset : Nat} {c : Char} {cs : List Char} {t : Token} {next : Cursor}
    (h : read offset c cs = .ok (t, next)) :
    read offset c (cs ++ tail) = .ok (t, ⟨next.offset, next.rest ++ tail⟩) := by
  by_cases hquote : c = '"'
  · subst hquote
    have h : readString offset cs = .ok (t, next) := h
    show readString offset (cs ++ tail) = _
    unfold readString at h ⊢
    split at h
    · next h' =>
      cases h
      rw [readPieces_append ht _ _ _ h']
    · cases h
  · obtain ⟨hcs, d, ds, htext, -, -, hread⟩ := readsAs_of_read h hquote (Ahead.append ht next.rest)
    have hfinish := finish_read h
    rw [hcs, byteLength_append, ← Nat.add_assoc, Cursor.finish, Nat.add_right_cancel_iff] at hfinish
    rw [htext, List.cons_append] at hcs
    cases hcs
    rw [List.append_assoc, hread, Cursor.behind, hfinish]

end

end Token

/-! ## Tokens in front of others -/

namespace Grammar

/-- The tokens of a source in front of others, which take the place of its end. -/
def inFrontOf : Lexemes → Lexemes → Lexemes
  | [], tail => tail
  | ⟨.eof, _⟩ :: _, tail => tail
  | l :: ls, tail => l :: inFrontOf ls tail

theorem inFrontOf_cons {t : Token} (ht : t ≠ .eof) (o : Nat) (ls tail : Lexemes) :
    inFrontOf (⟨t, o⟩ :: ls) tail = ⟨t, o⟩ :: inFrontOf ls tail :=
  inFrontOf.eq_3 _ _ _ fun _ heq => ht (congrArg Lexeme.token heq)

end Grammar

namespace Token

open Grammar

theorem skipTrivia_lineFeed (cs : List Char) : ∀ {inComment : Bool} {offset : Nat} {trivia : List Char},
    (skipTrivia inComment offset trivia).rest = [] →
    skipTrivia inComment offset (trivia ++ '\n' :: cs) = skipTrivia false (offset + byteLength trivia + 1) cs
  | inComment, offset, [], _ => by
    rw [List.nil_append, skipTrivia]
    cases inComment <;> rfl
  | inComment, offset, c :: trivia, h => by
    unfold skipTrivia at h
    rw [List.cons_append, skipTrivia, byteLength_cons, ← Nat.add_assoc]
    split at h
    · next hcomment => rw [if_pos hcomment, skipTrivia_lineFeed cs h]
    · next hcomment =>
      rw [if_neg hcomment]
      split at h
      · next hblank => rw [if_pos hblank, skipTrivia_lineFeed cs h]
      · next hblank =>
        rw [if_neg hblank]
        split at h
        · next hsign => rw [if_pos hsign, skipTrivia_lineFeed cs h]
        · cases h

theorem skipTrivia_append (tail : List Char) : ∀ {inComment : Bool} {offset o : Nat} {cs ds : List Char} {d : Char},
    skipTrivia inComment offset cs = ⟨o, d :: ds⟩ → skipTrivia inComment offset (cs ++ tail) = ⟨o, d :: (ds ++ tail)⟩
  | _, _, _, [], _, _, h => by cases h
  | inComment, offset, o, c :: cs, ds, d, h => by
    unfold skipTrivia at h
    rw [List.cons_append, skipTrivia]
    split at h
    · next hcomment => rw [if_pos hcomment, skipTrivia_append tail h]
    · next hcomment =>
      rw [if_neg hcomment]
      split at h
      · next hblank => rw [if_pos hblank, skipTrivia_append tail h]
      · next hblank =>
        rw [if_neg hblank]
        split at h
        · next hsign => rw [if_pos hsign, skipTrivia_append tail h]
        · next hsign =>
          cases h
          rw [if_neg hsign]

/-- **With a source on the lines below, a source is cut into the same tokens and those of the other one.** -/
theorem scanFrom_lineFeed {cursor : Cursor} {ls : Lexemes} (h : scanFrom cursor = .ok ls) (cs : List Char) :
    scanFrom ⟨cursor.offset, cursor.rest ++ '\n' :: cs⟩ = (scanFrom ⟨cursor.finish + 1, cs⟩).map (inFrontOf ls) := by
  fun_induction scanFrom cursor generalizing ls with
  | case1 cursor offset htrivia =>
    cases h
    have hskip := skipTrivia_lineFeed cs (congrArg Cursor.rest htrivia)
    rw [scanFrom_eq, scanFrom_eq ⟨cursor.finish + 1, cs⟩]
    simp only [hskip]
    rw [Cursor.finish]
    split
    · rfl
    · split
      · rfl
      · next r _ =>
        cases scanFrom r <;> rfl
  | case2 => cases h
  | case3 => cases h
  | case4 cursor offset c ds htrivia t next hread rest hrest ih =>
    cases h
    have hstops : Stops ('\n' :: cs) := by
      rintro d ⟨⟩
      exact .inl rfl
    have hfinish : next.finish = cursor.finish := by
      have hskip := finish_skipTrivia false cursor.offset cursor.rest
      rw [htrivia] at hskip
      rw [finish_read hread]
      exact hskip
    rw [scanFrom_eq]
    simp only [skipTrivia_append _ htrivia, read_append hstops hread]
    rw [ih hrest, hfinish]
    cases scanFrom ⟨cursor.finish + 1, cs⟩ with
    | error e => rfl
    | ok tail => simp only [Except.map, inFrontOf_cons (read_ne_eof hread)]

end Token

end DefTable
