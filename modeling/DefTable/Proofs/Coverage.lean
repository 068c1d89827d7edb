import DefTable.Proofs.PrintedScan
import DefTable.Proofs.Spacing

/-!
# Tokens cover their source

A source that is cut into tokens is made of blanks, comments and the lexemes of its tokens, without a gap or an overlap
(`Token.Covers`). Each lexeme begins at the offset of its token, spells it, and is cut into this token alone when
nothing stands around it (`Token.IsLexeme`).
-/

namespace DefTable

open Text

namespace Token

/-! ## Blanks and comments -/

/-- Blanks and comments, of which the last one may be `unfinished`: no line feed ends it. -/
inductive IsTrivia : (unfinished : Bool) → List Char → Prop where
  | gap {cs : List Char} (h : IsGap cs) : IsTrivia false cs
  | comment {cs text : List Char} (h : IsGap cs) (htext : '\n' ∉ text) : IsTrivia true (cs ++ '#' :: text)

theorem IsTrivia.prepend {gap cs : List Char} {unfinished : Bool} (hgap : IsGap gap) (h : IsTrivia unfinished cs) :
    IsTrivia unfinished (gap ++ cs) := by
  cases h with
  | gap h => exact .gap (hgap.append h)
  | comment h htext =>
    rw [← List.append_assoc]
    exact .comment (hgap.append h) htext

/-- What is skipped to the end of a source is blanks and comments. -/
theorem exists_trivia : ∀ {offset o : Nat} {cs : List Char}, skipTrivia false offset cs = ⟨o, []⟩ →
    ∃ unfinished, IsTrivia unfinished cs
  | _, _, [], _ => ⟨false, .gap .nil⟩
  | offset, o, c :: cs, h => by
    rw [skipTrivia, if_neg Bool.false_ne_true] at h
    split at h
    · next hblank =>
      obtain ⟨unfinished, ih⟩ := exists_trivia h
      exact ⟨unfinished, ih.prepend (.blank hblank .nil)⟩
    · split at h
      · next hc =>
        subst hc
        by_cases hfeed : '\n' ∈ cs
        · -- the comment ends at the first line feed
          obtain ⟨text, rest, rfl, htext⟩ := List.eq_append_cons_of_mem hfeed
          obtain ⟨offset', hcomment⟩ := skipTrivia_comment rest (offset + ('#' : Char).utf8Size) htext
          rw [hcomment] at h
          obtain ⟨unfinished, ih⟩ := exists_trivia h
          have htrivia := ih.prepend (.comment htext .nil)
          rw [List.cons_append, List.append_assoc, List.singleton_append] at htrivia
          exact ⟨unfinished, htrivia⟩
        · exact ⟨true, .comment .nil hfeed⟩
      · cases h
termination_by _ _ cs => cs.length

/-! ## Lexemes -/

/-- How a token stands in a source: as it is spelled, and a string from its first quote to its last one. -/
def SpelledAs : Token → List Char → Prop
  | .str _, text => ∃ body, text = '"' :: (body ++ ['"']) ∧ StringBody body
  | t, text => text = t.spelling.toList

/-- A text that starts at an offset is the lexeme of a token. -/
structure IsLexeme (t : Token) (offset : Nat) (text : List Char) : Prop where
  ne_nil : text ≠ []
  spelled : t.SpelledAs text
  /-- By itself, the lexeme is cut into its token. -/
  alone : scan (String.ofList text) offset = .ok [⟨t, offset⟩, ⟨.eof, offset + byteLength text⟩]

/-- What is read as a token is its lexeme, in front of the rest. -/
theorem lexeme_of_read {offset : Nat} {c : Char} {cs : List Char} {t : Token} {next : Cursor}
    (h : read offset c cs = .ok (t, next)) : ∃ text, c :: cs = text ++ next.rest ∧ IsLexeme t offset text := by
  by_cases hquote : c = '"'
  · subst hquote
    have hstring : readString offset cs = .ok (t, next) := h
    obtain ⟨body, rfl, hbody, hagain⟩ := StringBody.of_readString hstring
    have hread : read offset '"' (body ++ ['"']) = .ok (t, ⟨next.offset, []⟩) := hagain []
    have halone := scanFrom_cons rfl (by decide) hread (scanFrom_nil next.offset)
    have hoffset := finish_read hread
    rw [Cursor.finish_mk, byteLength_nil, Nat.add_zero] at hoffset
    unfold readString at hstring
    split at hstring
    · cases hstring
      refine ⟨'"' :: (body ++ ['"']), by simp, List.cons_ne_nil _ _, ⟨body, rfl, hbody⟩, ?_⟩
      rw [scan, String.toList_ofList, halone, hoffset]
    · cases hstring
  · have hahead : Ahead next.rest [] := .stops stops_nil
    obtain ⟨hcs, d, ds, htext, hblank, hcomment, hread⟩ := readsAs_of_read h hquote hahead
    refine ⟨t.spelling.toList, hcs, by rw [htext]; exact List.cons_ne_nil _ _, ?_, ?_⟩
    · cases t with
      | str => cases htext
      | _ => rfl
    · have hread := hread offset
      rw [List.append_nil] at hread
      have halone := scanFrom_cons hblank hcomment hread (scanFrom_nil (offset + byteLength t.spelling.toList))
      rw [← htext] at halone
      rw [scan, String.toList_ofList, halone]

/-- What is read moves the offset by the bytes it takes. -/
theorem offset_of_read {offset : Nat} {c : Char} {cs text : List Char} {t : Token} {next : Cursor}
    (h : read offset c cs = .ok (t, next)) (hcs : c :: cs = text ++ next.rest) :
    next.offset = offset + byteLength text := by
  have hfinish := finish_read h
  rw [hcs, Cursor.finish, byteLength_append] at hfinish
  omega

/-- What is skipped in front of a token is blanks and comments. -/
theorem gap_of_skipTrivia {offset o : Nat} {cs ds : List Char} {c : Char}
    (h : skipTrivia false offset cs = ⟨o, c :: ds⟩) :
    ∃ gap, cs = gap ++ c :: ds ∧ IsGap gap ∧ o = offset + byteLength gap := by
  obtain ⟨gap, rfl, hgap⟩ := exists_gap h
  rw [if_neg Bool.false_ne_true] at hgap
  refine ⟨gap, rfl, hgap, ?_⟩
  have hfinish := finish_skipTrivia false offset (gap ++ c :: ds)
  rw [h, Cursor.finish_mk, byteLength_append] at hfinish
  omega

theorem IsLexeme.byteLength_pos {t : Token} {offset : Nat} {text : List Char} (h : IsLexeme t offset text) :
    0 < byteLength text := by
  obtain ⟨c, cs, rfl⟩ := List.exists_cons_of_ne_nil h.ne_nil
  have := c.utf8Size_pos
  rw [byteLength_cons]
  omega

theorem IsLexeme.wellSpelled {t : Token} {offset : Nat} {text : List Char} (h : IsLexeme t offset text) :
    t.WellSpelled :=
  wellSpelled_scan h.alone ⟨t, offset⟩ List.mem_cons_self

theorem IsLexeme.ne_eof {t : Token} {offset : Nat} {text : List Char} (h : IsLexeme t offset text) : t ≠ .eof := by
  rintro rfl
  exact h.ne_nil h.spelled

/-! ## Sources -/

/-- A text that starts at an offset is made of the lexemes of the given tokens, each of them at its offset, with blanks
and comments around them. The comment in front of the end may be `unfinished`. -/
inductive Covers : (unfinished : Bool) → Nat → List Char → List Lexeme → Prop where
  | finish {unfinished : Bool} {offset : Nat} {trivia : List Char} (h : IsTrivia unfinished trivia) :
      Covers unfinished offset trivia [⟨.eof, offset + byteLength trivia⟩]
  | lexeme {unfinished : Bool} {offset : Nat} {gap text rest : List Char} {t : Token} {ls : List Lexeme}
      (hgap : IsGap gap) (htext : IsLexeme t (offset + byteLength gap) text)
      (h : Covers unfinished (offset + byteLength gap + byteLength text) rest ls) :
      Covers unfinished offset (gap ++ (text ++ rest)) (⟨t, offset + byteLength gap⟩ :: ls)

namespace Covers

theorem of_scanFrom (cursor : Cursor) {ls : List Lexeme} (h : scanFrom cursor = .ok ls) :
    ∃ unfinished, Covers unfinished cursor.offset cursor.rest ls := by
  fun_induction scanFrom cursor generalizing ls with
  | case1 cursor offset htrivia =>
    cases h
    obtain ⟨unfinished, h⟩ := exists_trivia htrivia
    have hoffset := finish_skipTrivia false cursor.offset cursor.rest
    rw [htrivia, Cursor.finish_mk, byteLength_nil, Nat.add_zero] at hoffset
    rw [hoffset]
    exact ⟨unfinished, .finish h⟩
  | case2 => cases h
  | case3 => cases h
  | case4 cursor offset c cs htrivia t next hread ls₁ hrest ih =>
    cases h
    obtain ⟨gap, hcursor, hgap, rfl⟩ := gap_of_skipTrivia htrivia
    obtain ⟨text, hcs, htext⟩ := lexeme_of_read hread
    obtain ⟨unfinished, ih⟩ := ih hrest
    rw [hcursor, hcs]
    rw [offset_of_read hread hcs] at ih
    exact ⟨unfinished, .lexeme hgap htext ih⟩

variable {unfinished : Bool} {offset : Nat} {cs : List Char} {ls : List Lexeme}

/-- The end of the source comes last and only once. -/
theorem ends (h : Covers unfinished offset cs ls) :
    ∃ front, ls = front ++ [⟨.eof, offset + byteLength cs⟩] ∧ ∀ l ∈ front, l.token ≠ .eof := by
  induction h with
  | finish h => exact ⟨[], rfl, nofun⟩
  | @lexeme offset gap text rest t ls hgap htext _ ih =>
    obtain ⟨front, rfl, hfront⟩ := ih
    refine ⟨⟨t, offset + byteLength gap⟩ :: front, ?_, List.forall_mem_cons.2 ⟨htext.ne_eof, hfront⟩⟩
    simp only [byteLength_append, Nat.add_assoc, List.cons_append]

theorem le_offset (h : Covers unfinished offset cs ls) : ∀ l ∈ ls, offset ≤ l.offset := by
  induction h with
  | finish h =>
    intro l hl
    rw [List.mem_singleton.1 hl]
    exact Nat.le_add_right _ _
  | lexeme hgap htext _ ih =>
    refine List.forall_mem_cons.2 ⟨Nat.le_add_right _ _, fun l hl => ?_⟩
    have := ih l hl
    omega

/-- Every token starts behind the one before it. -/
theorem increasing (h : Covers unfinished offset cs ls) : ls.Pairwise fun l l' => l.offset < l'.offset := by
  induction h with
  | finish h => exact List.pairwise_singleton _ _
  | lexeme hgap htext h ih =>
    refine List.pairwise_cons.2 ⟨fun l hl => ?_, ih⟩
    have hpos := htext.byteLength_pos
    have hle := h.le_offset l hl
    dsimp only
    omega

end Covers

section
variable {source : String} {base : Nat} {ls : List Lexeme}

theorem covers_of_scan (h : scan source base = .ok ls) : ∃ unfinished, Covers unfinished base source.toList ls :=
  Covers.of_scanFrom ⟨base, source.toList⟩ h

theorem increasing_of_scan (h : scan source base = .ok ls) : ls.Pairwise fun l l' => l.offset < l'.offset := by
  obtain ⟨_, hcovers⟩ := covers_of_scan h
  exact hcovers.increasing

/-- The end of a source comes last and only once. -/
theorem end_of_scan (h : scan source base = .ok ls) :
    ∃ front, ls = front ++ [⟨.eof, base + byteLength source.toList⟩] ∧ ∀ l ∈ front, l.token ≠ .eof := by
  obtain ⟨_, hcovers⟩ := covers_of_scan h
  exact hcovers.ends

end

/-- **The tokens of a source cover it.** Between their lexemes there are only blanks and comments; they stand in the
order of their offsets; and the one end of the source comes last, behind all of its bytes. -/
theorem scan_covers {source : String} {base : Nat} {ls : List Lexeme} (h : scan source base = .ok ls) :
    (∃ unfinished, Covers unfinished base source.toList ls) ∧ (ls.Pairwise fun l l' => l.offset < l'.offset) ∧
      ∃ front, ls = front ++ [⟨.eof, base + byteLength source.toList⟩] ∧ ∀ l ∈ front, l.token ≠ .eof := by
  obtain ⟨unfinished, hcovers⟩ := Covers.of_scanFrom ⟨base, source.toList⟩ h
  exact ⟨⟨unfinished, hcovers⟩, hcovers.increasing, hcovers.ends⟩

/-- Lexemes with nothing between them, and a comment that no line feed ends. -/
theorem scan_covers_adjacent :
    ∃ unfinished, Covers unfinished 7 "f\"\\(.)\"1..# end".toList
      [⟨.ident "f", 7⟩, ⟨.str [.interpolation "." 11], 8⟩, ⟨.number "1", 14⟩, ⟨.dotDot, 15⟩, ⟨.eof, 22⟩] := by
  have hscan : (scan "f\"\\(.)\"1..# end" 7).toOption =
      some [⟨.ident "f", 7⟩, ⟨.str [.interpolation "." 11], 8⟩, ⟨.number "1", 14⟩, ⟨.dotDot, 15⟩, ⟨.eof, 22⟩] := by
    decide +kernel
  exact (scan_covers (Grammar.ok_of_toOption hscan)).1

end Token
end DefTable
