import DefTable.Proofs.StringBodies
import DefTable.Proofs.Correspondence

/-!
# Blanks and comments between tokens

`Spaced` says that a source comes from another one by blanks and complete comments in front of its tokens, also in front
of the end and of the tokens of interpolations. To what stands in front of it, a spaced text looks as it did
(`Spaced.ahead`), and an interpolation is skipped to the same parenthesis (`Spaced.after`), so the same tokens are read.
-/

namespace DefTable

open Text Token

/-! ## Gaps -/

namespace Token

/-- Blanks, and comments with the line feeds that end them. -/
inductive IsGap : List Char → Prop where
  | nil : IsGap []
  | blank {c : Char} {cs : List Char} (hc : isBlank c = true) (h : IsGap cs) : IsGap (c :: cs)
  | comment {text cs : List Char} (htext : '\n' ∉ text) (h : IsGap cs) : IsGap ('#' :: (text ++ '\n' :: cs))

theorem IsGap.append {as bs : List Char} (ha : IsGap as) (hb : IsGap bs) : IsGap (as ++ bs) := by
  induction ha with
  | nil => exact hb
  | blank hc _ ih => exact .blank hc ih
  | comment htext _ ih =>
    rw [List.cons_append, List.append_assoc, List.cons_append]
    exact .comment htext ih

/-- What starts with a gap stops what stands in front of it. -/
theorem IsGap.eq_nil_or_stops {gap : List Char} (h : IsGap gap) (rest : List Char) :
    gap = [] ∨ Stops (gap ++ rest) := by
  cases h with
  | nil => exact .inl rfl
  | blank hc =>
    refine .inr ?_
    rintro _ ⟨⟩
    exact .inl hc
  | comment =>
    refine .inr ?_
    rintro _ ⟨⟩
    exact .inr rfl

theorem skipTrivia_comment (rest : List Char) : ∀ {text : List Char} (offset : Nat), '\n' ∉ text →
    ∃ offset', skipTrivia true offset (text ++ '\n' :: rest) = skipTrivia false offset' rest
  | [], offset, _ => ⟨offset + 1, rfl⟩
  | c :: text, offset, h => by
    obtain ⟨hc, htext⟩ := not_or.1 (mt List.mem_cons.2 h)
    have hcomment : (c != '\n') = true := by simpa [bne] using Ne.symm hc
    rw [List.cons_append, skipTrivia, if_pos rfl, hcomment]
    exact skipTrivia_comment rest _ htext

theorem IsGap.skipTrivia {gap : List Char} (h : IsGap gap) (rest : List Char) (offset : Nat) :
    ∃ offset', skipTrivia false offset (gap ++ rest) = Token.skipTrivia false offset' rest := by
  induction h generalizing offset with
  | nil => exact ⟨offset, rfl⟩
  | blank hc _ ih =>
    obtain ⟨offset', ih⟩ := ih (offset + _)
    exact ⟨offset', by rw [List.cons_append, Token.skipTrivia, if_neg Bool.false_ne_true, if_pos hc, ih]⟩
  | @comment text cs htext _ ih =>
    obtain ⟨offset₁, hcomment⟩ := skipTrivia_comment (cs ++ rest) (offset + 1) htext
    obtain ⟨offset', ih⟩ := ih offset₁
    refine ⟨offset', ?_⟩
    rw [List.cons_append, List.append_assoc, List.cons_append, Token.skipTrivia, if_neg Bool.false_ne_true,
      if_neg (by decide), if_pos rfl]
    exact hcomment.trans ih

/-- In a comment that nothing has ended, a gap is nothing but more of it, and what comes behind it. -/
theorem IsGap.skipTrivia_eq_nil {gap : List Char} (h : IsGap gap) :
    ∀ (inComment : Bool) (offset : Nat), (Token.skipTrivia inComment offset gap).rest = [] := by
  induction h with
  | nil => exact fun _ _ => rfl
  | @blank c cs hc _ ih =>
    intro inComment offset
    cases inComment with
    | true =>
      rw [Token.skipTrivia, if_pos rfl]
      exact ih _ _
    | false =>
      rw [Token.skipTrivia, if_neg Bool.false_ne_true, if_pos hc]
      exact ih _ _
  | @comment text cs htext _ ih =>
    intro inComment offset
    obtain ⟨offset', hcomment⟩ := skipTrivia_comment cs (offset + 1) htext
    have hbehind : (Token.skipTrivia true (offset + 1) (text ++ '\n' :: cs)).rest = [] := by
      rw [hcomment]
      exact ih _ _
    cases inComment with
    | true => exact hbehind
    | false => exact hbehind

theorem skipTrivia_append_gap {gap : List Char} (hgap : IsGap gap) : ∀ {inComment : Bool} {offset : Nat}
    {trivia : List Char}, (Token.skipTrivia inComment offset trivia).rest = [] →
    (Token.skipTrivia inComment offset (trivia ++ gap)).rest = []
  | inComment, offset, [], _ => hgap.skipTrivia_eq_nil inComment offset
  | inComment, offset, c :: trivia, h => by
    unfold Token.skipTrivia at h
    rw [List.cons_append, Token.skipTrivia]
    split at h
    · next hcomment =>
      rw [if_pos hcomment]
      exact skipTrivia_append_gap hgap h
    · next hcomment =>
      rw [if_neg hcomment]
      split at h
      · next hblank =>
        rw [if_pos hblank]
        exact skipTrivia_append_gap hgap h
      · next hblank =>
        rw [if_neg hblank]
        split at h
        · next hsign =>
          rw [if_pos hsign]
          exact skipTrivia_append_gap hgap h
        · cases h

theorem IsGap.comment_inv {gap : List Char} (h : IsGap ('#' :: gap)) :
    ∃ text cs, gap = text ++ '\n' :: cs ∧ '\n' ∉ text ∧ IsGap cs := by
  cases h with
  | blank hc => cases hc
  | comment htext h => exact ⟨_, _, rfl, htext, h⟩

/-- All that stands in front of a token is a gap. -/
theorem exists_gap : ∀ {inComment : Bool} {offset o : Nat} {cs ds : List Char} {c : Char},
    Token.skipTrivia inComment offset cs = ⟨o, c :: ds⟩ →
    ∃ gap, cs = gap ++ c :: ds ∧ IsGap (if inComment then '#' :: gap else gap)
  | _, _, _, [], _, _, h => by cases h
  | true, offset, o, d :: cs, ds, c, h => by
    rw [Token.skipTrivia, if_pos rfl] at h
    obtain ⟨gap, rfl, hgap⟩ := exists_gap h
    refine ⟨d :: gap, rfl, ?_⟩
    by_cases hd : d = '\n'
    · subst hd
      have hnone : '\n' ∉ ([] : List Char) := List.not_mem_nil
      exact .comment hnone hgap
    · have hcomment : (d != '\n') = true := by simpa [bne] using hd
      rw [hcomment, if_pos rfl] at hgap
      obtain ⟨text, cs, rfl, htext, hcs⟩ := hgap.comment_inv
      have hmem : '\n' ∉ d :: text := by
        rintro (_ | ⟨_, hmem⟩)
        · exact hd rfl
        · exact htext hmem
      exact .comment hmem hcs
  | false, offset, o, d :: cs, ds, c, h => by
    rw [Token.skipTrivia, if_neg Bool.false_ne_true] at h
    split at h
    · next hblank =>
      obtain ⟨gap, rfl, hgap⟩ := exists_gap h
      exact ⟨d :: gap, rfl, .blank hblank hgap⟩
    · split at h
      · next hd =>
        subst hd
        obtain ⟨gap, rfl, hgap⟩ := exists_gap h
        exact ⟨'#' :: gap, rfl, hgap⟩
      · cases h
        exact ⟨[], rfl, .nil⟩

section
open Enclosure

/-- A comment goes on to its line feed. -/
theorem after_comment (below : List Enclosure) : ∀ {text : List Char}, '\n' ∉ text →
    after (.comment :: below) text = .comment :: below
  | [], _ => rfl
  | c :: text, h => by
    obtain ⟨hc, htext⟩ := not_or.1 (mt List.mem_cons.2 h)
    have hstep : step 0 c (.comment :: below) = .comment :: below := if_neg (Ne.symm hc)
    rw [after_cons, hstep, after_comment below htext]

theorem after_isGap {gap : List Char} (h : IsGap gap) (d : Nat) (below : List Enclosure) :
    after (.interpolation d 0 :: below) gap = .interpolation d 0 :: below := by
  induction h with
  | nil => rfl
  | @blank c cs hc _ ih =>
    have hstep : step 0 c (.interpolation d 0 :: below) = .interpolation d 0 :: below := by
      rcases eq_of_isBlank hc with rfl | rfl | rfl | rfl <;> rfl
    rw [after_cons, hstep, ih]
  | @comment text cs htext _ ih =>
    have hopen : step 0 '#' (.interpolation d 0 :: below) = .comment :: .interpolation d 0 :: below := rfl
    have hclose : step 0 '\n' (.comment :: .interpolation d 0 :: below) = .interpolation d 0 :: below := rfl
    rw [after_cons, hopen, after_append, after_comment _ htext, after_cons, hclose, ih]

end

/-! ## Tokens in front of a gap -/

/-- A name has no dot in it. -/
theorem no_dot_of_splitName {cs : List Char} (h : splitName cs = (cs, [])) : ∀ c ∈ cs, c ≠ '.' := by
  have hmem : ∀ c ∈ (splitName cs).1, c ≠ '.' := by
    rintro c hc rfl
    rcases mem_splitName hc with hdot | hdot <;> cases hdot
  rwa [h] at hmem

/-- What is read as a token is read so in front of anything that looks the same. -/
theorem ReadsAs.again {t : Token} {text rest rest' : List Char} (ht : t.isPlain = true) (h : ReadsAs t text rest)
    (hr : Ahead rest rest') : text = t.spelling.toList ∧ t.WellSpelled ∧ ReadsAs t text rest' := by
  obtain ⟨c, ds, rfl, -, -, hread⟩ := h
  have hquote : c ≠ '"' := by
    rintro rfl
    have hstring : readString 0 (ds ++ rest) = .ok (t, _) := hread 0
    unfold readString at hstring
    split at hstring <;> cases hstring
    cases ht
  obtain ⟨htext, hagain⟩ := readsAs_of_read (hread 0) hquote hr
  have htext : c :: ds = t.spelling.toList := List.append_cancel_right htext
  rw [← htext] at hagain
  exact ⟨htext, wellSpelled_read (hread 0), hagain⟩

theorem ReadsAs.ahead {t : Token} {text rest rest' : List Char} (ht : t.isPlain = true) (h : ReadsAs t text rest)
    (hr : Ahead rest rest') : Ahead (text ++ rest) (text ++ rest') := by
  obtain ⟨rfl, hspelled, -⟩ := h.again ht hr
  have hall : ∀ {s : String}, s.toList.all (· != '.') = true → Ahead (s.toList ++ rest) (s.toList ++ rest') := by
    intro s hs
    refine hr.prepend fun c hc => ?_
    simpa using List.all_eq_true.1 hs c hc
  cases t with
  | ident name => exact hr.prepend (no_dot_of_splitName hspelled.1.1)
  | keyword k => cases k <;> exact hall rfl
  | field name =>
    obtain ⟨hname, c, hc, hstart⟩ := hspelled
    have hrest := hr.prepend (no_dot_of_splitName hname)
    obtain ⟨cs, hcs⟩ := List.head?_eq_some_iff.1 hc
    have hdot : c ≠ '.' := by
      rintro rfl
      cases hstart
    rw [spelling, String.toList_append, List.append_assoc, List.append_assoc]
    refine .char (fun _ => ?_) hrest
    rw [hcs]
    simpa using hdot
  | «variable» name | format name =>
    obtain ⟨cs, hname, -, hcs⟩ := hspelled
    rw [spelling, hname]
    exact .char (fun hdot => absurd hdot (by decide)) (hr.prepend (no_dot_of_splitName hcs))
  | number digits =>
    rcases hspelled.2 with ⟨c, hc, hd⟩ | ⟨d, ds, hdigits, hd⟩
    · obtain ⟨cs, hcs⟩ := List.head?_eq_some_iff.1 hc
      rw [spelling, hcs]
      exact .digit hd
    · have hdot : d ≠ '.' := by
        rintro rfl
        cases hd
      rw [spelling, hdigits]
      exact .char (fun _ => by simpa using hdot) (.digit hd)
  | dot =>
    refine .char (fun _ hhead => ?_) hr
    obtain ⟨cs, rfl⟩ := List.head?_eq_some_iff.1 hhead
    obtain ⟨c, ds, htext, -, -, hread⟩ := h
    cases htext
    cases hread 0
  | dotDot => exact .dots
  | op o => cases o <;> exact hall rfl
  | str => cases ht
  | eof => cases ht
  | _ => exact hall rfl

/-! ## Tokens behind a gap -/

theorem skipTrivia_eq_nil {cs : List Char} {offset o : Nat} (h : skipTrivia false offset cs = ⟨o, []⟩) :
    (skipTrivia false 0 cs).rest = [] := by
  have hshift := skipTrivia_shift (k := offset) false 0 cs
  rw [Nat.zero_add, h] at hshift
  exact (congrArg Cursor.rest hshift).symm

theorem exists_of_map_ok {ε α β : Type} {x : Except ε α} {f : α → β} {b : β} (h : x.map f = .ok b) :
    ∃ a, x = .ok a ∧ f a = b := by
  cases x with
  | error e => cases h
  | ok a => exact ⟨a, rfl, Except.ok.inj h⟩

theorem scanFrom_finish {trivia : List Char} (h : (skipTrivia false 0 trivia).rest = []) (offset : Nat) :
    ∃ o, scanFrom ⟨offset, trivia⟩ = .ok [⟨.eof, o⟩] := by
  have hshift := skipTrivia_shift (k := offset) false 0 trivia
  rw [Nat.zero_add] at hshift
  refine ⟨(skipTrivia false 0 trivia).offset + offset, ?_⟩
  rw [scanFrom_eq]
  simp only [hshift, Cursor.shift, h]

/-- A source without tokens is blanks and comments. -/
theorem skipTrivia_of_scanFrom {cursor : Cursor} {o : Nat} (h : scanFrom cursor = .ok [⟨.eof, o⟩]) :
    (skipTrivia false 0 cursor.rest).rest = [] := by
  rw [scanFrom_eq] at h
  cases hskip : skipTrivia false cursor.offset cursor.rest with
  | mk offset cs =>
    cases cs with
    | nil => exact skipTrivia_eq_nil hskip
    | cons c cs =>
      simp only [hskip] at h
      split at h
      · cases h
      · next hread =>
        obtain ⟨ls, -, hls⟩ := exists_of_map_ok h
        cases hls
        exact absurd rfl (read_ne_eof hread)

theorem scanFrom_token {gap text rest : List Char} {t : Token} (hgap : IsGap gap) (hread : ReadsAs t text rest)
    (offset : Nat) : ∃ o o₁, scanFrom ⟨offset, gap ++ (text ++ rest)⟩ =
      (scanFrom ⟨o₁, rest⟩).map (⟨t, o⟩ :: ·) := by
  obtain ⟨c, ds, rfl, hblank, hcomment, hread⟩ := hread
  obtain ⟨o, hskip⟩ := hgap.skipTrivia (c :: ds ++ rest) offset
  have hstop : skipTrivia false o (c :: ds ++ rest) = ⟨o, c :: (ds ++ rest)⟩ := by
    rw [List.cons_append, skipTrivia, if_neg Bool.false_ne_true, hblank, if_neg Bool.false_ne_true,
      if_neg hcomment]
  refine ⟨o, o + byteLength (c :: ds), ?_⟩
  rw [scanFrom_eq]
  simp only [hskip, hstop, hread]
  rfl

theorem scanFrom_quote {gap : List Char} (hgap : IsGap gap) (offset : Nat) (cs : List Char) :
    ∃ o, scanFrom ⟨offset, gap ++ '"' :: cs⟩ =
      match readString o cs with
      | .error e => .error e
      | .ok (t, next) => (scanFrom next).map (⟨t, o⟩ :: ·) := by
  obtain ⟨o, hskip⟩ := hgap.skipTrivia ('"' :: cs) offset
  have hstop : skipTrivia false o ('"' :: cs) = ⟨o, '"' :: cs⟩ := rfl
  refine ⟨o, ?_⟩
  rw [scanFrom_eq]
  simp only [hskip, hstop]
  rfl

end Token

/-! ## Spaced sources -/

/-- Blanks and comments have been put in front of tokens of a source, here from the start of a token or from inside of a
string to its end. -/
inductive Spaced : Level → List Char → List Char → Prop where
  /-- In front of the end. A comment may have been there that nothing ends. -/
  | finish {trivia gap : List Char} (htrivia : (skipTrivia false 0 trivia).rest = []) (hgap : IsGap gap) :
      Spaced .tokens trivia (trivia ++ gap)
  | token {trivia gap text rest rest' : List Char} {t : Token} (htrivia : IsGap trivia) (hgap : IsGap gap)
      (ht : t.isPlain = true) (hread : ReadsAs t text rest) (h : Spaced .tokens rest rest') :
      Spaced .tokens (trivia ++ (text ++ rest)) (trivia ++ (gap ++ (text ++ rest')))
  | quote {trivia gap cs cs' : List Char} (htrivia : IsGap trivia) (hgap : IsGap gap) (h : Spaced .parts cs cs') :
      Spaced .tokens (trivia ++ '"' :: cs) (trivia ++ (gap ++ '"' :: cs'))
  | done {cs cs' : List Char} (h : Spaced .tokens cs cs') : Spaced .parts ('"' :: cs) ('"' :: cs')
  | char {c : Char} {cs cs' : List Char} (hquote : c ≠ '"') (hback : c ≠ '\\') (h : Spaced .parts cs cs') :
      Spaced .parts (c :: cs) (c :: cs')
  | escape {c : Char} {cs cs' : List Char} (hc : c ≠ '(') (h : Spaced .parts cs cs') :
      Spaced .parts ('\\' :: c :: cs) ('\\' :: c :: cs')
  /-- An interpolation whose source is cut into tokens, with blanks and comments in front of these. -/
  | splice {source source' cs cs' : List Char} {start offset base : Nat} {next : Cursor} {ls : List Lexeme}
      (hskip : skipEnclosed [.interpolation 0 start] offset (source ++ ')' :: cs) = .ok (source, next))
      (hscan : scan (String.ofList source) base = .ok ls) (hsource : Spaced .tokens source source')
      (h : Spaced .parts cs cs') :
      Spaced .parts ('\\' :: '(' :: (source ++ ')' :: cs)) ('\\' :: '(' :: (source' ++ ')' :: cs'))
  /-- An interpolation that is left as it is. -/
  | keep {source cs cs' : List Char} {start offset : Nat} {next : Cursor}
      (hskip : skipEnclosed [.interpolation 0 start] offset (source ++ ')' :: cs) = .ok (source, next))
      (h : Spaced .parts cs cs') :
      Spaced .parts ('\\' :: '(' :: (source ++ ')' :: cs)) ('\\' :: '(' :: (source ++ ')' :: cs'))

namespace Spaced

/-! ## What a spaced text looks like -/

theorem ahead {l : Level} {cs cs' : List Char} (h : Spaced l cs cs') :
    match l with
    | .tokens => Ahead cs cs'
    | .parts => True := by
  induction h with
  | @finish trivia gap htrivia hgap =>
    obtain - | ⟨c, trivia⟩ := trivia
    · rcases hgap.eq_nil_or_stops [] with rfl | hstops
      · exact .stops stops_nil
      · rw [List.append_nil] at hstops
        exact .stops hstops
    · refine .stops ?_
      rintro _ ⟨⟩
      unfold skipTrivia at htrivia
      rw [if_neg Bool.false_ne_true] at htrivia
      split at htrivia
      · next hblank => exact .inl hblank
      · split at htrivia
        · next hcomment => exact .inr hcomment
        · cases htrivia
  | @token trivia gap text rest rest' t htrivia hgap ht hread h ih =>
    rcases htrivia.eq_nil_or_stops (gap ++ (text ++ rest')) with rfl | hstops
    · rcases hgap.eq_nil_or_stops (text ++ rest') with rfl | hstops
      · have hahead : Ahead (text ++ rest) (text ++ rest') := hread.ahead ht ih
        exact hahead
      · exact .stops hstops
    · exact .stops hstops
  | @quote trivia gap cs cs' htrivia hgap h ih =>
    rcases htrivia.eq_nil_or_stops (gap ++ '"' :: cs') with rfl | hstops
    · rcases hgap.eq_nil_or_stops ('"' :: cs') with rfl | hstops
      · exact .quote
      · exact .stops hstops
    · exact .stops hstops
  | _ => trivial

open Enclosure in
/-- An interpolation is skipped to the same parenthesis. -/
theorem after {l : Level} {cs cs' : List Char} (h : Spaced l cs cs') :
    match l with
    | .tokens => ∀ {d d'}, after [.interpolation d 0] cs = [.interpolation d' 0] →
        after [.interpolation d 0] cs' = [.interpolation d' 0]
    | .parts => ∀ {d d'}, after [.string 0, .interpolation d 0] cs = [.interpolation d' 0] →
        after [.string 0, .interpolation d 0] cs' = [.interpolation d' 0] := by
  induction h with
  | @finish trivia gap htrivia hgap =>
    intro d d' h
    rw [after_append, h, after_isGap hgap]
  | @token trivia gap text rest rest' t htrivia hgap ht hread h ih =>
    intro d d' h
    obtain ⟨rfl, hspelled, -⟩ := hread.again ht (Ahead.append stops_nil rest)
    rw [after_append, after_isGap htrivia, after_append, after_token hspelled] at h
    rw [after_append, after_isGap htrivia, after_append, after_isGap hgap, after_append, after_token hspelled]
    cases hnest : Wording.nest d t with
    | none =>
      rw [hnest] at h
      rw [nil_after] at h
      cases h
    | some d₁ =>
      rw [hnest] at h
      exact ih h
  | @quote trivia gap cs cs' htrivia hgap h ih =>
    intro d d' h
    have hopen : step 0 '"' [.interpolation d 0] = [.string 0, .interpolation d 0] := rfl
    rw [after_append, after_isGap htrivia, after_cons, hopen] at h
    rw [after_append, after_isGap htrivia, after_append, after_isGap hgap, after_cons, hopen]
    exact ih h
  | done h ih => exact fun h => ih h
  | @char c cs cs' hquote hback h ih =>
    intro d d' h
    have hstep : step 0 c [.string 0, .interpolation d 0] = [.string 0, .interpolation d 0] := by simp [step]
    rw [after_cons, hstep] at h ⊢
    exact ih h
  | @escape c cs cs' hc h ih =>
    intro d d' h
    have hstep : step 0 c [.escape 0, .string 0, .interpolation d 0] = [.string 0, .interpolation d 0] := if_neg hc
    have hback : step 0 '\\' [.string 0, .interpolation d 0] = [.escape 0, .string 0, .interpolation d 0] := rfl
    rw [after_cons, hback, after_cons, hstep] at h ⊢
    exact ih h
  | @splice source source' cs cs' start offset base next ls hskip hscan hsource h ihsource ih =>
    intro d d' h
    have hinside := (interpolation_of_skipEnclosed hskip).2
    rw [after_splice hinside] at h
    rw [after_splice (ihsource hinside)]
    exact ih h
  | keep hskip h ih =>
    intro d d' h
    rw [after_splice (interpolation_of_skipEnclosed hskip).2] at h ⊢
    exact ih h

end Spaced

end DefTable
