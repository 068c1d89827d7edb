import DefTable.Proofs.Spacing

/-!
# Cutting a spaced source into tokens

A source with more blanks and comments between its tokens is cut into the same tokens (`Spaced.scanFrom`): strings have
the same characters, and interpolations have the same source or one that is spaced itself (`respacing`).
-/

namespace DefTable

open Text Token Grammar

/-! ## Parts of strings -/

namespace Grammar.Change

/-- Corresponding pieces of a string. -/
inductive PieceAlike (δ : Change) : Piece → Piece → Prop where
  | char (c : Char) : PieceAlike δ (.char c) (.char c)
  | interpolation {source source' : String} {o o' : Nat} (h : δ.nested source o source' o') :
      PieceAlike δ (.interpolation source o) (.interpolation source' o')

variable {δ : Change}

theorem literalPart_alike (collected : List Char) :
    List.Forall₂ δ.Part (literalPart collected) (literalPart collected) := by
  unfold literalPart
  split
  · exact .nil
  · exact .cons (.literal _) .nil

theorem gather_alike {pieces pieces' : List Piece} (h : List.Forall₂ δ.PieceAlike pieces pieces') :
    ∀ collected : List Char, List.Forall₂ δ.Part (gather collected pieces) (gather collected pieces') := by
  induction h with
  | nil => exact literalPart_alike
  | cons hpiece _ ih =>
    intro collected
    cases hpiece with
    | char c => exact ih _
    | interpolation h => exact List.rel_append (literalPart_alike collected) (.cons (.interpolation h) (ih []))

theorem partsOf_alike {pieces pieces' : List Piece} (h : List.Forall₂ δ.PieceAlike pieces pieces') :
    List.Forall₂ δ.Part (partsOf pieces) (partsOf pieces') := by
  have hgather := gather_alike h []
  unfold partsOf
  generalize gather [] pieces = parts at hgather ⊢
  generalize gather [] pieces' = parts' at hgather ⊢
  cases hgather with
  | nil => exact .cons (.literal _) .nil
  | cons hpart hrest => exact .cons hpart hrest

end Grammar.Change

/-- What blanks and comments between tokens may change: all offsets, and the sources of interpolations that are cut into
tokens, by blanks and comments again. -/
def respacing : Change where
  moves _ _ := True
  nested source _ source' _ :=
    source' = source ∨ (∃ base ls, scan source base = .ok ls) ∧ Spaced .tokens source.toList source'.toList

namespace Spaced

/-! ## Where tokens start -/

/-- A string may stay as it is in front of what is spaced. -/
theorem of_body {text rest rest' : List Char} (h : StringBody text) (hrest : Spaced .tokens rest rest') :
    Spaced .parts (text ++ '"' :: rest) (text ++ '"' :: rest') := by
  induction h with
  | nil => exact .done hrest
  | char hquote hback _ ih => exact .char hquote hback ih
  | escape hc _ ih => exact .escape hc ih
  | @interpolation source cs hsource _ ih =>
    obtain ⟨offset', hskip⟩ := skip_interpolation hsource 0 0 (cs ++ '"' :: rest)
    have hkeep := Spaced.keep hskip ih
    simpa only [List.cons_append, List.append_assoc] using hkeep

/-- In front of a token that is read, and behind it. -/
theorem of_read {offset : Nat} {c : Char} {cs : List Char} {t : Token} {next : Cursor}
    (h : Token.read offset c cs = .ok (t, next)) :
    ∃ text, c :: cs = text ++ next.rest ∧ ∀ {trivia gap rest' : List Char}, IsGap trivia → IsGap gap →
      Spaced .tokens next.rest rest' → Spaced .tokens (trivia ++ c :: cs) (trivia ++ (gap ++ (text ++ rest'))) := by
  by_cases hquote : c = '"'
  · subst hquote
    obtain ⟨text, hcs, hbody, -⟩ := StringBody.of_readString (h : readString offset cs = .ok (t, next))
    refine ⟨'"' :: (text ++ ['"']), by simp [hcs], fun htrivia hgap h => ?_⟩
    have hquote := Spaced.quote htrivia hgap (of_body hbody h)
    rw [hcs]
    simpa only [List.cons_append, List.append_assoc, List.nil_append] using hquote
  · have hahead := Ahead.append stops_nil next.rest
    rw [List.append_nil] at hahead
    obtain ⟨htext, hreads⟩ := readsAs_of_read h hquote hahead
    have hplain : t.isPlain = true := by
      obtain ⟨_, _, hspelling, -⟩ := hreads
      cases t <;> first | rfl | cases hspelling
    refine ⟨_, htext, fun htrivia hgap h => ?_⟩
    rw [htext]
    exact .token htrivia hgap hplain hreads h

/-- Every source that is cut into tokens is spaced when nothing is put in. -/
theorem refl (cursor : Cursor) {ls : Lexemes} (h : Token.scanFrom cursor = .ok ls) :
    Spaced .tokens cursor.rest cursor.rest := by
  fun_induction Token.scanFrom cursor generalizing ls with
  | case1 cursor offset htrivia =>
    have hfinish := Spaced.finish (skipTrivia_eq_nil htrivia) .nil
    rwa [List.append_nil] at hfinish
  | case2 => cases h
  | case3 => cases h
  | case4 cursor offset c cs htrivia t next hread ls₁ hrest ih =>
    obtain ⟨trivia, hcs, hisGap⟩ := exists_gap htrivia
    rw [if_neg Bool.false_ne_true] at hisGap
    obtain ⟨text, htext, hspaced⟩ := of_read hread
    have hsame := hspaced hisGap .nil (ih hrest)
    rwa [List.nil_append, ← htext, ← hcs] at hsame

/-- **Wherever a token starts, blanks and comments can be put in**, also in front of the end. -/
theorem in_front (cursor : Cursor) {ls : Lexemes} (h : Token.scanFrom cursor = .ok ls) {l : Lexeme} (hl : l ∈ ls)
    {gap : List Char} (hgap : IsGap gap) :
    ∃ before behind, cursor.rest = before ++ behind ∧ l.offset = cursor.offset + byteLength before ∧
      Spaced .tokens cursor.rest (before ++ (gap ++ behind)) := by
  fun_induction Token.scanFrom cursor generalizing ls with
  | case1 cursor offset htrivia =>
    cases h
    obtain rfl := List.mem_singleton.1 hl
    have hfinish := finish_skipTrivia false cursor.offset cursor.rest
    rw [htrivia, Cursor.finish_mk, byteLength_nil, Nat.add_zero] at hfinish
    refine ⟨cursor.rest, [], (List.append_nil _).symm, hfinish, ?_⟩
    rw [List.append_nil]
    exact .finish (skipTrivia_eq_nil htrivia) hgap
  | case2 => cases h
  | case3 => cases h
  | case4 cursor offset c cs htrivia t next hread ls₁ hrest ih =>
    cases h
    obtain ⟨trivia, hcs, hisGap⟩ := exists_gap htrivia
    rw [if_neg Bool.false_ne_true] at hisGap
    obtain ⟨text, htext, hspaced⟩ := of_read hread
    have hfinish := finish_skipTrivia false cursor.offset cursor.rest
    rw [htrivia, Cursor.finish_mk, hcs, byteLength_append] at hfinish
    rw [hcs]
    rcases List.mem_cons.1 hl with rfl | hl
    · refine ⟨trivia, c :: cs, rfl, by dsimp only; omega, ?_⟩
      have hsame := hspaced hisGap hgap (refl next hrest)
      rwa [← htext] at hsame
    · obtain ⟨before, behind, hnext, hoffset, h⟩ := ih hrest hl
      refine ⟨trivia ++ (text ++ before), behind, ?_, ?_, ?_⟩
      · rw [htext, hnext]
        simp only [List.append_assoc]
      · have hread := finish_read hread
        rw [Cursor.finish, htext, byteLength_append] at hread
        rw [htext] at hfinish
        simp only [byteLength_append] at hfinish ⊢
        omega
      · have hmore := hspaced hisGap .nil h
        rw [List.nil_append] at hmore
        simpa only [List.append_assoc] using hmore

/-! ## Strings -/

theorem char_inv {c : Char} {cs cs' : List Char} (h : Spaced .parts (c :: cs) cs') (hquote : c ≠ '"')
    (hback : c ≠ '\\') : ∃ ds, cs' = c :: ds ∧ Spaced .parts cs ds := by
  cases h with
  | done => exact absurd rfl hquote
  | char _ _ h => exact ⟨_, rfl, h⟩
  | escape => exact absurd rfl hback
  | splice => exact absurd rfl hback
  | keep => exact absurd rfl hback

theorem hex_inv {c : Char} {cs cs' : List Char} (h : Spaced .parts (c :: cs) cs')
    (hc : (hexValue? c).isSome = true) : ∃ ds, cs' = c :: ds ∧ Spaced .parts cs ds := by
  refine h.char_inv ?_ ?_
  · rintro rfl
    cases hc
  · rintro rfl
    cases hc

theorem hex4? {cs cs' rest : List Char} {n : Nat} (h : Spaced .parts cs cs') (hhex : Token.hex4? cs = some (n, rest)) :
    ∃ rest', Token.hex4? cs' = some (n, rest') ∧ Spaced .parts rest rest' := by
  obtain ⟨a, b, c, d, rfl, hall, hagain⟩ := hex4?_eq_some hhex
  simp only [List.forall_mem_cons] at hall
  obtain ⟨ha, hb, hc, hd, -⟩ := hall
  obtain ⟨_, rfl, h₁⟩ := h.hex_inv ha
  obtain ⟨_, rfl, h₂⟩ := h₁.hex_inv hb
  obtain ⟨_, rfl, h₃⟩ := h₂.hex_inv hc
  obtain ⟨rest', rfl, h₄⟩ := h₃.hex_inv hd
  exact ⟨rest', hagain rest', h₄⟩

theorem readUnicode {cs cs' : List Char} {start offset : Nat} {c : Char} {next : Cursor} (h : Spaced .parts cs cs')
    (hread : Token.readUnicode start offset cs = .ok (c, next)) (start' offset' : Nat) :
    ∃ next', Token.readUnicode start' offset' cs' = .ok (c, next') ∧ Spaced .parts next.rest next'.rest := by
  unfold Token.readUnicode at hread
  split at hread
  · cases hread
  · next high rest hhigh =>
    obtain ⟨rest', hhigh', hrest⟩ := h.hex4? hhigh
    unfold Token.readUnicode
    rw [hhigh']
    dsimp only
    split at hread
    · next hsurrogate =>
      rw [if_pos hsurrogate]
      split at hread
      · next cs₁ =>
        cases hrest with
        | char _ hback => exact absurd rfl hback
        | escape _ hrest =>
          split at hread
          · cases hread
          · next low rest₁ hlow =>
            obtain ⟨rest₁', hlow', hrest₁⟩ := hrest.hex4? hlow
            cases hread
            simp only [hlow']
            exact ⟨_, rfl, hrest₁⟩
      · next hnot =>
        cases hread
        split
        · next cs₁ =>
          -- the spaced text goes on with an escape only where the other one does
          cases hrest with
          | char _ hback => exact absurd rfl hback
          | escape => exact absurd rfl (hnot _)
        · exact ⟨_, rfl, hrest⟩
    · next hsurrogate =>
      rw [if_neg hsurrogate]
      cases hread
      exact ⟨_, rfl, hrest⟩

theorem readEscape_other {c : Char} (hu : c ≠ 'u') (hc : c ≠ '(') (quote start : Nat) (cs : List Char) :
    Token.readEscape quote start (c :: cs) =
      match shortEscape? c with
      | some d => .ok (.char d, ⟨start + 2, cs⟩)
      | none => .error ⟨.unknownEscape c, start⟩ :=
  Token.readEscape.eq_4 _ _ _ _ hu hc

theorem readEscape {c : Char} {cs cs' : List Char} {quote start : Nat} {piece : Piece} {next : Cursor} (hc : c ≠ '(')
    (h : Spaced .parts cs cs') (hread : Token.readEscape quote start (c :: cs) = .ok (piece, next))
    (quote' start' : Nat) : (∃ d, piece = .char d) ∧
      ∃ next', Token.readEscape quote' start' (c :: cs') = .ok (piece, next') ∧ Spaced .parts next.rest next'.rest := by
  by_cases hu : c = 'u'
  · subst hu
    rw [Token.readEscape] at hread ⊢
    split at hread
    · next d next₁ hunicode =>
      cases hread
      obtain ⟨next', hunicode', hnext⟩ := h.readUnicode hunicode start' (start' + 2)
      rw [hunicode']
      exact ⟨⟨d, rfl⟩, next', rfl, hnext⟩
    · cases hread
  · rw [readEscape_other hu hc] at hread ⊢
    split at hread
    · next d hd =>
      cases hread
      exact ⟨⟨d, rfl⟩, _, rfl, h⟩
    · cases hread

theorem readPieces {quote offset : Nat} {cs : List Char} {pieces : List Piece} {next : Cursor}
    (hread : Token.readPieces quote offset cs = .ok (pieces, next)) :
    ∀ {cs' : List Char}, Spaced .parts cs cs' → ∀ quote' offset', ∃ pieces' next',
      Token.readPieces quote' offset' cs' = .ok (pieces', next') ∧
        List.Forall₂ respacing.PieceAlike pieces pieces' ∧ Spaced .tokens next.rest next'.rest := by
  fun_induction Token.readPieces quote offset cs generalizing pieces next with
  | case1 => cases hread
  | case2 offset cs =>
    cases hread
    intro cs' h quote' offset'
    cases h with
    | done h => exact ⟨[], _, by rw [Token.readPieces], .nil, h⟩
    | char hquote => exact absurd rfl hquote
  | case3 => cases hread
  | case4 => cases hread
  | case5 offset cs piece next₁ hesc pieces₁ last hrest ih =>
    cases hread
    intro cs' h quote' offset'
    cases h with
    | char _ hback => exact absurd rfl hback
    | escape hc h =>
      obtain ⟨⟨d, rfl⟩, next', hesc', hnext⟩ := h.readEscape hc hesc quote' offset'
      obtain ⟨pieces', last', hread', hpieces, hlast⟩ := ih hrest hnext quote' next'.offset
      exact ⟨_, _, readPieces_escape hesc' hread', .cons (.char d) hpieces, hlast⟩
    | @splice source source' cs cs' start o base nextSource ls hskip hscan hsource h =>
      have hinside := (interpolation_of_skipEnclosed hskip).2
      obtain ⟨o₁, hesc₁⟩ := readEscape_interpolation hinside quote offset cs
      rw [hesc₁] at hesc
      cases hesc
      obtain ⟨o₂, hesc₂⟩ := readEscape_interpolation (hsource.after hinside) quote' offset' cs'
      obtain ⟨pieces', last', hread', hpieces, hlast⟩ := ih hrest h quote' o₂
      have hnested : respacing.nested (String.ofList source) (offset + 2) (String.ofList source') (offset' + 2) := by
        refine .inr ⟨⟨base, ls, hscan⟩, ?_⟩
        rwa [String.toList_ofList, String.toList_ofList]
      exact ⟨_, _, readPieces_escape hesc₂ hread', .cons (.interpolation hnested) hpieces, hlast⟩
    | @keep source cs cs' start o nextSource hskip h =>
      have hinside := (interpolation_of_skipEnclosed hskip).2
      obtain ⟨o₁, hesc₁⟩ := readEscape_interpolation hinside quote offset cs
      rw [hesc₁] at hesc
      cases hesc
      obtain ⟨o₂, hesc₂⟩ := readEscape_interpolation hinside quote' offset' cs'
      obtain ⟨pieces', last', hread', hpieces, hlast⟩ := ih hrest h quote' o₂
      exact ⟨_, _, readPieces_escape hesc₂ hread', .cons (.interpolation (.inl rfl)) hpieces, hlast⟩
  | case6 => cases hread
  | case7 offset c cs hquote hback pieces₁ last hrest ih =>
    cases hread
    intro cs' h quote' offset'
    obtain ⟨ds, rfl, hds⟩ := h.char_inv hquote hback
    obtain ⟨pieces', last', hread', hpieces, hlast⟩ := ih hrest hds quote' (offset' + c.utf8Size)
    exact ⟨_, _, readPieces_char hquote hback hread', .cons (.char c) hpieces, hlast⟩

/-! ## Tokens -/

/-- **With more blanks and comments between them, the same tokens are read.** -/
theorem scanFrom : ∀ {cs cs' : List Char}, Spaced .tokens cs cs' → ∀ {offset : Nat} {ls : Lexemes},
    Token.scanFrom ⟨offset, cs⟩ = .ok ls → ∀ offset' : Nat,
    ∃ ls', Token.scanFrom ⟨offset', cs'⟩ = .ok ls' ∧ respacing.Alike ls ls'
  | _, _, @finish trivia gap htrivia hgap, offset, ls, hscan, offset' => by
    obtain ⟨o, hfinish⟩ := scanFrom_finish htrivia offset
    rw [hfinish] at hscan
    cases hscan
    obtain ⟨o', hfinish'⟩ := scanFrom_finish (skipTrivia_append_gap hgap htrivia) offset'
    exact ⟨_, hfinish', .finish trivial⟩
  | _, _, @token trivia gap text rest rest' t htrivia hgap ht hread h, offset, ls, hscan, offset' => by
    obtain ⟨o, o₁, htoken⟩ := scanFrom_token htrivia hread offset
    rw [htoken] at hscan
    obtain ⟨ls₁, hrest, rfl⟩ := exists_of_map_ok hscan
    obtain ⟨-, -, hread'⟩ := hread.again ht h.ahead
    obtain ⟨o', o₁', htoken'⟩ := scanFrom_token (htrivia.append hgap) hread' offset'
    obtain ⟨ls₁', hrest', halike⟩ := h.scanFrom hrest o₁'
    refine ⟨⟨t, o'⟩ :: ls₁', ?_, .plain ht trivial halike⟩
    rw [← List.append_assoc, htoken', hrest']
    rfl
  | _, _, @quote trivia gap cs cs' htrivia hgap h, offset, ls, hscan, offset' => by
    obtain ⟨o, hquote⟩ := scanFrom_quote htrivia offset cs
    rw [hquote] at hscan
    unfold readString at hscan
    cases hpieces : Token.readPieces o (o + 1) cs with
    | error e =>
      rw [hpieces] at hscan
      cases hscan
    | ok r =>
      obtain ⟨pieces, next⟩ := r
      rw [hpieces] at hscan
      obtain ⟨ls₁, hrest, rfl⟩ := exists_of_map_ok hscan
      obtain ⟨o', hquote'⟩ := scanFrom_quote (htrivia.append hgap) offset' cs'
      obtain ⟨pieces', next', hpieces', halike, hnext⟩ := h.readPieces hpieces o' (o' + 1)
      have hshorter := length_readPieces_lt _ _ _ hpieces
      obtain ⟨ls₁', hrest', hls⟩ := hnext.scanFrom hrest next'.offset
      refine ⟨⟨.str (partsOf pieces'), o'⟩ :: ls₁', ?_, .string (Change.partsOf_alike halike) trivial hls⟩
      rw [← List.append_assoc, hquote', readString, hpieces']
      exact congrArg (Except.map _) hrest'
termination_by cs => cs.length
decreasing_by
  · obtain ⟨c, ds, rfl, -⟩ := hread
    simp only [List.length_append, List.length_cons]
    omega
  · simp only [List.length_append, List.length_cons]
    omega

end Spaced

end DefTable
