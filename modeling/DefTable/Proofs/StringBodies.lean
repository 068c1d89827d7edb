import DefTable.Proofs.Enclosures
import DefTable.Proofs.SourceJoin

/-!
# Inside of strings

What stands between the quotes of a string that is read (`Token.StringBody`): characters, escapes, and interpolations
that are skipped to their own parentheses. While an interpolation around it is skipped, such a string leads from its
first quote to its last one (`Token.StringBody.after`); and it is read again as the same wherever it stands between
quotes (`Token.StringBody.of_readPieces`).
-/

namespace DefTable

open Text

namespace Token

open Enclosure

/-! ## Code point escapes -/

/-- Whether a text starts with a code point escape. -/
def startsCodePoint (cs : List Char) : Bool :=
  cs.take 2 == ['\\', 'u']

theorem startsCodePoint_iff {cs : List Char} : startsCodePoint cs = true ↔ ∃ ds, cs = '\\' :: 'u' :: ds := by
  rcases cs with - | ⟨a, - | ⟨b, cs⟩⟩ <;> simp [startsCodePoint]

/-- Whether a code point escape comes next is seen in what stands in front of a quote. -/
theorem startsCodePoint_quote (text rest rest' : List Char) :
    startsCodePoint (text ++ '"' :: rest) = startsCodePoint (text ++ '"' :: rest') := by
  rcases text with - | ⟨a, - | ⟨b, text⟩⟩ <;> simp [startsCodePoint]

section
variable {cs rest : List Char} {n : Nat} (h : hex4? cs = some (n, rest))
include h

theorem readUnicode_other (hn : ¬ (0xD800 ≤ n ∧ n < 0xDC00)) (start offset : Nat) :
    readUnicode start offset cs = .ok (charOrReplacement n, ⟨offset + 4, rest⟩) := by
  rw [readUnicode, h]
  exact if_neg hn

/-- A high surrogate in front of no other escape is replaced by itself. -/
theorem readUnicode_high (hn : 0xD800 ≤ n ∧ n < 0xDC00) (hrest : startsCodePoint rest = false) (start offset : Nat) :
    readUnicode start offset cs = .ok ('\uFFFD', ⟨offset + 4, rest⟩) := by
  rw [readUnicode, h]
  simp only [if_pos hn]
  split
  · cases hrest
  · rfl

/-- A high surrogate takes the escape behind it along. -/
theorem readUnicode_both {m : Nat} {ds rest' : List Char} (hn : 0xD800 ≤ n ∧ n < 0xDC00)
    (hrest : rest = '\\' :: 'u' :: ds) (hds : hex4? ds = some (m, rest')) (start offset : Nat) :
    readUnicode start offset cs =
      .ok (if 0xDC00 ≤ m ∧ m < 0xE000 then surrogatePair n m else '\uFFFD', ⟨offset + 10, rest'⟩) := by
  subst hrest
  rw [readUnicode, h]
  simp only [if_pos hn, hds]

end

/-! ## Bodies of strings -/

/-- What can stand between the quotes of a string. -/
inductive StringBody : List Char → Prop where
  | nil : StringBody []
  | char {c : Char} {cs : List Char} (hquote : c ≠ '"') (hback : c ≠ '\\') (h : StringBody cs) : StringBody (c :: cs)
  | escape {c : Char} {cs : List Char} (hc : c ≠ '(') (h : StringBody cs) : StringBody ('\\' :: c :: cs)
  | interpolation {source cs : List Char} (hsource : after [.interpolation 0 0] source = [.interpolation 0 0])
      (h : StringBody cs) : StringBody ('\\' :: '(' :: (source ++ ')' :: cs))

namespace StringBody

theorem append {as bs : List Char} (ha : StringBody as) (hb : StringBody bs) : StringBody (as ++ bs) := by
  induction ha with
  | nil => exact hb
  | char hquote hback _ ih => exact .char hquote hback ih
  | escape hc _ ih => exact .escape hc ih
  | @interpolation source cs hsource _ ih =>
    rw [List.cons_append, List.cons_append, List.append_assoc, List.cons_append]
    exact .interpolation hsource ih

/-! ## What is read -/

theorem of_hex4? {cs rest : List Char} {n : Nat} (h : hex4? cs = some (n, rest)) :
    ∃ text, cs = text ++ rest ∧ StringBody text ∧ ∀ rest', hex4? (text ++ rest') = some (n, rest') := by
  obtain ⟨a, b, c, d, rfl, hall, hagain⟩ := hex4?_eq_some h
  have hchar : ∀ {cs}, (∀ x ∈ cs, (hexValue? x).isSome = true) → StringBody cs := by
    intro cs hcs
    induction cs with
    | nil => exact .nil
    | cons x cs ih =>
      obtain ⟨hx, hcs⟩ := List.forall_mem_cons.1 hcs
      refine .char ?_ ?_ (ih hcs)
      · rintro rfl
        cases hx
      · rintro rfl
        cases hx
  exact ⟨[a, b, c, d], rfl, hchar hall, hagain⟩

/-- A code point escape is read again in front of anything that starts with another one just when the text behind it
did. -/
theorem of_readUnicode {start offset : Nat} {cs : List Char} {c : Char} {next : Cursor}
    (h : readUnicode start offset cs = .ok (c, next)) : ∃ text, cs = text ++ next.rest ∧ StringBody text ∧
      ∀ rest, startsCodePoint rest = startsCodePoint next.rest →
        readUnicode start offset (text ++ rest) = .ok (c, ⟨next.offset, rest⟩) := by
  unfold readUnicode at h
  split at h
  · cases h
  · next n tail hhigh =>
    obtain ⟨high, rfl, hbody, hagain⟩ := of_hex4? hhigh
    split at h
    · next hsurrogate =>
      split at h
      · split at h
        · cases h
        · next hlow =>
          cases h
          obtain ⟨low, rfl, htext, hlowAgain⟩ := of_hex4? hlow
          refine ⟨high ++ ('\\' :: 'u' :: low), ?_, hbody.append (.escape (by decide) htext), fun rest _ => ?_⟩
          · rw [List.append_assoc]
            rfl
          · rw [List.append_assoc]
            exact readUnicode_both (hagain _) hsurrogate rfl (hlowAgain rest) start offset
      · next hrest =>
        cases h
        have hstops : startsCodePoint tail = false := by
          rw [Bool.eq_false_iff, Ne, startsCodePoint_iff]
          exact fun ⟨ds, hds⟩ => hrest ds hds
        exact ⟨high, rfl, hbody, fun rest' hstarts =>
          readUnicode_high (hagain rest') hsurrogate (hstarts.trans hstops) start offset⟩
    · next hsurrogate =>
      cases h
      exact ⟨high, rfl, hbody, fun rest _ => readUnicode_other (hagain rest) hsurrogate start offset⟩

/-- An interpolation is skipped again in front of anything. -/
theorem skipEnclosed_again {start offset : Nat} {cs text : List Char} {next : Cursor}
    (h : skipEnclosed [.interpolation 0 start] offset cs = .ok (text, next)) (rest : List Char) :
    skipEnclosed [.interpolation 0 start] offset (text ++ ')' :: rest) = .ok (text, ⟨next.offset, rest⟩) := by
  obtain ⟨rfl, hinside⟩ := interpolation_of_skipEnclosed h
  obtain ⟨offset', hagain⟩ := skip_interpolation hinside start offset rest
  have hoffset : offset' = next.offset := by
    have hfinish := finish_skipEnclosed _ _ _ h
    have hfinish' := finish_skipEnclosed _ _ _ hagain
    simp only [Cursor.finish, byteLength_append, byteLength_cons] at hfinish hfinish'
    omega
  rw [hagain, hoffset]

theorem of_readEscape {quote start : Nat} {cs : List Char} {piece : Piece} {next : Cursor}
    (h : readEscape quote start cs = .ok (piece, next)) :
    ∃ text, cs = text ++ next.rest ∧ StringBody ('\\' :: text) ∧
      ∀ quote' rest, startsCodePoint rest = startsCodePoint next.rest →
        readEscape quote' start (text ++ rest) = .ok (piece, ⟨next.offset, rest⟩) := by
  unfold readEscape at h
  split at h
  · cases h
  · split at h
    · next hunicode =>
      cases h
      obtain ⟨text, rfl, htext, hagain⟩ := of_readUnicode hunicode
      refine ⟨'u' :: text, rfl, .escape (by decide) htext, fun quote' rest hrest => ?_⟩
      rw [List.cons_append, readEscape, hagain rest hrest]
    · cases h
  · split at h
    · next source last hskip =>
      cases h
      have hagain := skipEnclosed_again hskip
      obtain ⟨rfl, hsource⟩ := interpolation_of_skipEnclosed hskip
      refine ⟨'(' :: (source ++ [')']), by simp, .interpolation hsource .nil, fun quote' rest _ => ?_⟩
      rw [List.cons_append, List.append_assoc, List.singleton_append, readEscape, hagain]
    · cases h
  · next c cs hu hparen =>
    split at h
    · next hshort =>
      cases h
      refine ⟨[c], rfl, .escape hparen .nil, fun quote' rest _ => ?_⟩
      rw [List.singleton_append, readEscape.eq_4 _ _ _ _ hu hparen, hshort]
    · cases h

/-- What is read between quotes is read again wherever it stands between quotes. -/
theorem of_readPieces {quote offset : Nat} {cs : List Char} {pieces : List Piece} {next : Cursor}
    (h : readPieces quote offset cs = .ok (pieces, next)) :
    ∃ text, cs = text ++ '"' :: next.rest ∧ StringBody text ∧
      ∀ quote' rest, readPieces quote' offset (text ++ '"' :: rest) = .ok (pieces, ⟨next.offset, rest⟩) := by
  fun_induction readPieces quote offset cs generalizing pieces next with
  | case1 => cases h
  | case2 =>
    cases h
    exact ⟨[], rfl, .nil, fun _ _ => by rw [List.nil_append, readPieces]⟩
  | case3 => cases h
  | case4 => cases h
  | case5 offset cs piece next₁ hesc pieces₁ last hrest ih =>
    cases h
    obtain ⟨text₁, hcs, htext₁, hesc'⟩ := of_readEscape hesc
    obtain ⟨text, hnext, htext, hread⟩ := ih hrest
    refine ⟨'\\' :: (text₁ ++ text), by rw [hcs, hnext]; simp, htext₁.append htext, fun quote' rest => ?_⟩
    have hstarts : startsCodePoint (text ++ '"' :: rest) = startsCodePoint next₁.rest := by
      rw [hnext]
      exact startsCodePoint_quote text rest _
    rw [List.cons_append, List.append_assoc]
    exact readPieces_escape (hesc' quote' _ hstarts) (hread quote' rest)
  | case6 => cases h
  | case7 offset c cs hquote hback pieces₁ last hrest ih =>
    cases h
    obtain ⟨text, rfl, htext, hread⟩ := ih hrest
    exact ⟨c :: text, rfl, .char hquote hback htext, fun quote' rest => readPieces_char hquote hback (hread quote' rest)⟩

theorem of_readString {quote : Nat} {cs : List Char} {t : Token} {next : Cursor}
    (h : readString quote cs = .ok (t, next)) : ∃ text, cs = text ++ '"' :: next.rest ∧ StringBody text ∧
      ∀ rest, readString quote (text ++ '"' :: rest) = .ok (t, ⟨next.offset, rest⟩) := by
  unfold readString at h
  split at h
  · next hpieces =>
    cases h
    obtain ⟨text, hcs, htext, hagain⟩ := of_readPieces hpieces
    exact ⟨text, hcs, htext, fun rest => by rw [readString, hagain]⟩
  · cases h

end StringBody

/-- An interpolation is read as the text between its own parentheses. -/
theorem readEscape_interpolation {source : List Char}
    (h : Enclosure.after [.interpolation 0 0] source = [.interpolation 0 0]) (quote start : Nat) (cs : List Char) :
    ∃ offset', readEscape quote start ('(' :: (source ++ ')' :: cs)) =
      .ok (.interpolation (String.ofList source) (start + 2), ⟨offset', cs⟩) := by
  obtain ⟨offset', hskip⟩ := skip_interpolation h start (start + 2) cs
  exact ⟨offset', by rw [readEscape, hskip]⟩

/-! ## What is skipped -/

/-- An interpolation leads back into its string. -/
theorem after_splice {source cs : List Char} {below : List Enclosure}
    (h : after [.interpolation 0 0] source = [.interpolation 0 0]) :
    after (.string 0 :: below) ('\\' :: '(' :: (source ++ ')' :: cs)) = after (.string 0 :: below) cs := by
  have hback : step 0 '\\' (.string 0 :: below) = .escape 0 :: .string 0 :: below := rfl
  have hopen : step 0 '(' (.escape 0 :: .string 0 :: below) = [.interpolation 0 0] ++ .string 0 :: below := rfl
  have hclose : step 0 ')' ([.interpolation 0 0] ++ .string 0 :: below) = .string 0 :: below := rfl
  have hne : after [.interpolation 0 0] source ≠ [] := by
    rw [h]
    exact List.cons_ne_nil _ _
  rw [after_cons, hback, after_cons, hopen, after_append, after_below _ hne, h, after_cons, hclose]

theorem StringBody.after {cs : List Char} (h : StringBody cs) (below : List Enclosure) :
    Enclosure.after (.string 0 :: below) cs = .string 0 :: below := by
  induction h with
  | nil => rfl
  | @char c cs hquote hback _ ih =>
    have hstep : step 0 c (.string 0 :: below) = .string 0 :: below := by simp [step]
    rw [after_cons, hstep, ih]
  | @escape c cs hc _ ih =>
    have hback : step 0 '\\' (.string 0 :: below) = .escape 0 :: .string 0 :: below := rfl
    have hstep : step 0 c (.escape 0 :: .string 0 :: below) = .string 0 :: below := if_neg hc
    rw [after_cons, hback, after_cons, hstep, ih]
  | interpolation hsource _ ih => rw [after_splice hsource, ih]

/-- A string leads from its first quote to its last one. -/
theorem StringBody.after_quoted {cs : List Char} (h : StringBody cs) (d : Nat) (below : List Enclosure)
    (rest : List Char) :
    Enclosure.after (.interpolation d 0 :: below) ('"' :: (cs ++ '"' :: rest)) =
      Enclosure.after (.interpolation d 0 :: below) rest := by
  have hopen : step 0 '"' (.interpolation d 0 :: below) = .string 0 :: .interpolation d 0 :: below := rfl
  have hclose : step 0 '"' (.string 0 :: .interpolation d 0 :: below) = .interpolation d 0 :: below := rfl
  rw [after_cons, hopen, after_append, h.after, after_cons, hclose]

end Token
end DefTable
