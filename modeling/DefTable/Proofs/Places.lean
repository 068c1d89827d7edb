import DefTable.Proofs.Concatenation
import DefTable.Proofs.Coverage

/-!
# Places in a text

A byte offset between two characters of a text, or at one of its ends, is a place in it (`Text.IsPlace`). Line and
column of a place lead back to it (`Position.front?_foldl_next`). What cannot be cut into tokens has its fault at a
place, however many interpolations and strings were open there (`Token.placed_scanFrom`).
-/

namespace DefTable

namespace Text

/-- A byte offset between two characters of a text, or at one of its ends. -/
def IsPlace (text : List Char) (o : Nat) : Prop :=
  ∃ front back, text = front ++ back ∧ o = byteLength front

/-- A part of a text that stands in it at a byte offset. -/
def Stands (text : List Char) (o : Nat) (part : List Char) : Prop :=
  ∃ front back, text = front ++ (part ++ back) ∧ o = byteLength front

/-- At one offset a text is cut in one way. -/
theorem eq_of_byteLength_eq {as as' bs bs' : List Char} (h : as ++ bs = as' ++ bs')
    (hlength : byteLength as = byteLength as') : as = as' ∧ bs = bs' := by
  induction as generalizing as' with
  | nil =>
    cases as' with
    | nil => exact ⟨rfl, h⟩
    | cons c as' =>
      have := c.utf8Size_pos
      simp only [byteLength_nil, byteLength_cons] at hlength
      omega
  | cons c as ih =>
    cases as' with
    | nil =>
      have := c.utf8Size_pos
      simp only [byteLength_nil, byteLength_cons] at hlength
      omega
    | cons c' as' =>
      obtain ⟨rfl, hrest⟩ := List.cons.inj h
      obtain ⟨rfl, rfl⟩ := ih hrest (Nat.add_left_cancel hlength)
      exact ⟨rfl, rfl⟩

namespace Stands

variable {text part cs ds : List Char} {o : Nat}

theorem isPlace (h : Stands text o part) : IsPlace text o := by
  obtain ⟨front, back, htext, ho⟩ := h
  exact ⟨front, part ++ back, htext, ho⟩

theorem left (h : Stands text o (cs ++ ds)) : Stands text o cs := by
  obtain ⟨front, back, rfl, ho⟩ := h
  exact ⟨front, ds ++ back, by rw [List.append_assoc], ho⟩

theorem right (h : Stands text o (cs ++ ds)) : Stands text (o + byteLength cs) ds := by
  obtain ⟨front, back, rfl, rfl⟩ := h
  exact ⟨front ++ cs, back, by simp, (byteLength_append front cs).symm⟩

theorem tail {c : Char} (h : Stands text o (c :: cs)) : Stands text (o + c.utf8Size) cs := by
  have hone : Stands text o ([c] ++ cs) := h
  exact hone.right

/-- What stands at an offset is what is behind it. -/
theorem isPrefix (h : Stands text o part) {front back : List Char} (htext : text = front ++ back)
    (ho : o = byteLength front) : part <+: back := by
  obtain ⟨front', back', htext', ho'⟩ := h
  obtain ⟨-, rfl⟩ := eq_of_byteLength_eq (htext.symm.trans htext') (ho.symm.trans ho')
  exact List.prefix_append part back'

end Stands

end Text

open Text

/-! ## Lines and columns -/

namespace Position

/-- What is passed until a number of line feeds are behind, and what is left then. -/
def passLines : Nat → List Char → Option (List Char × List Char)
  | 0, cs => some ([], cs)
  | _ + 1, [] => none
  | n + 1, c :: cs => (passLines (if c = '\n' then n else n + 1) cs).map fun p => (c :: p.1, p.2)

/-- A number of characters, if there are so many up to the end of the line. -/
def passColumns : Nat → List Char → Option (List Char)
  | 0, _ => some []
  | _ + 1, [] => none
  | n + 1, c :: cs => if c = '\n' then none else (passColumns n cs).map (c :: ·)

/-- What stands in front of a line and column of a text: as many line feeds are passed as there are lines above it, and
then as many characters as there are columns to the left, none of them a line feed. -/
def front? (p : Position) (text : List Char) : Option (List Char) :=
  (passLines (p.line - 1) text).bind fun above => (passColumns (p.column - 1) above.2).map (above.1 ++ ·)

theorem passLines_lineFeed (cs rest : List Char) :
    passLines (cs.count '\n' + 1) (cs ++ '\n' :: rest) = some (cs ++ ['\n'], rest) := by
  induction cs with
  | nil => simp [passLines]
  | cons c cs ih =>
    by_cases hc : c = '\n'
    · subst hc
      rw [List.count_cons_self, List.cons_append, passLines, if_pos rfl, ih]
      rfl
    · rw [List.count_cons_of_ne hc, List.cons_append, passLines, if_neg hc, ih]
      rfl

theorem passColumns_append {cs : List Char} (h : '\n' ∉ cs) (rest : List Char) :
    passColumns cs.length (cs ++ rest) = some cs := by
  induction cs with
  | nil => rfl
  | cons c cs ih =>
    obtain ⟨hc, hcs⟩ := List.ne_and_not_mem_of_not_mem_cons h
    rw [List.length_cons, List.cons_append, passColumns, if_neg (Ne.symm hc), ih hcs]
    rfl

/-- The column counts the characters behind the last line feed. -/
theorem foldl_next_inLine {cs : List Char} (h : '\n' ∉ cs) (p : Position) :
    cs.foldl next p = ⟨p.line, p.column + cs.length⟩ := by
  induction cs generalizing p with
  | nil => rfl
  | cons c cs ih =>
    obtain ⟨hc, hcs⟩ := List.ne_and_not_mem_of_not_mem_cons h
    rw [List.foldl_cons, ih hcs, next, if_neg (Ne.symm hc), List.length_cons, Nat.add_comm cs.length, ← Nat.add_assoc]

/-- What is above a line, and what is to the left in it. -/
theorem exists_lines (front : List Char) :
    '\n' ∉ front ∨ ∃ above left, front = above ++ '\n' :: left ∧ '\n' ∉ left := by
  induction front with
  | nil => exact .inl List.not_mem_nil
  | cons c cs ih =>
    rcases ih with h | ⟨above, left, rfl, hleft⟩
    · by_cases hc : c = '\n'
      · subst hc
        exact .inr ⟨[], cs, rfl, h⟩
      · exact .inl (List.not_mem_cons_of_ne_of_not_mem (Ne.symm hc) h)
    · exact .inr ⟨c :: above, left, rfl, hleft⟩

theorem foldl_next_lineFeed (cs : List Char) :
    (cs ++ ['\n']).foldl next start = ⟨cs.count '\n' + 1 + 1, 1⟩ := by
  rw [List.foldl_append, List.foldl_cons, List.foldl_nil, next, if_pos rfl, line_foldl_next, start, Nat.add_comm 1]

/-- **Line and column of a place lead back to it.** -/
theorem front?_foldl_next (front back : List Char) :
    (front.foldl next start).front? (front ++ back) = some front := by
  rcases exists_lines front with h | ⟨above, left, rfl, hleft⟩
  · rw [foldl_next_inLine h, front?]
    simp only [start, Nat.sub_self, passLines, Option.bind_some, Nat.add_sub_cancel_left]
    rw [passColumns_append h]
    rfl
  · have hsplit : above ++ '\n' :: left = (above ++ ['\n']) ++ left := by simp
    have htext : above ++ '\n' :: left ++ back = above ++ '\n' :: (left ++ back) := by simp
    rw [front?, htext, hsplit, List.foldl_append, foldl_next_lineFeed, foldl_next_inLine hleft]
    simp only [Nat.add_sub_cancel, Nat.add_sub_cancel_left, passLines_lineFeed, Option.bind_some,
      passColumns_append hleft, Option.map_some]

theorem ofOffset_front (front back : List Char) {source : String} (h : source.toList = front ++ back) :
    ofOffset source (byteLength front) = front.foldl next start := by
  have hadvance := advance_append 0 back start front
  rw [Nat.add_zero, advance] at hadvance
  rw [ofOffset, h, hadvance]

theorem one_le_foldl_next (p : Position) (hline : 1 ≤ p.line) (hcolumn : 1 ≤ p.column) (cs : List Char) :
    1 ≤ (cs.foldl next p).line ∧ 1 ≤ (cs.foldl next p).column := by
  induction cs generalizing p with
  | nil => exact ⟨hline, hcolumn⟩
  | cons c cs ih =>
    rw [List.foldl_cons]
    unfold next
    split
    · exact ih _ (Nat.le_succ_of_le hline) (Nat.le_refl 1)
    · exact ih _ hline (Nat.le_succ_of_le hcolumn)

end Position

/-! ## Faults of tokens -/

/-- Whether the cause of a fault is a token. -/
def SyntaxError.Cause.isUnexpected : SyntaxError.Cause → Bool
  | .unexpected _ _ => true
  | _ => false

namespace Token

variable {text : List Char}

/-- A fault at a place in a text, which is not that of an unexpected token. -/
def PlacedFault (text : List Char) (e : SyntaxError) : Prop :=
  IsPlace text e.offset ∧ e.cause.isUnexpected = false

namespace Enclosure

/-- An enclosure that starts at a place in a text. -/
def Placed (text : List Char) : Enclosure → Prop
  | .interpolation _ start => IsPlace text start
  | .string start => IsPlace text start
  | .escape start => IsPlace text start
  | .comment => True

theorem placed_step {es : List Enclosure} {offset : Nat} (h : ∀ e ∈ es, e.Placed text) (ho : IsPlace text offset)
    (c : Char) : ∀ e ∈ step offset c es, e.Placed text := by
  cases es with
  | nil => exact nofun
  | cons e below =>
    obtain ⟨he, hbelow⟩ := List.forall_mem_cons.1 h
    unfold step
    cases e <;> dsimp only <;> split <;> simp_all [Placed]

theorem placed_unterminated : ∀ es : List Enclosure, Based es → (∀ e ∈ es, e.Placed text) →
    PlacedFault text (unterminated es)
  | .interpolation _ _ :: _, _, h => ⟨(List.forall_mem_cons.1 h).1, rfl⟩
  | .string _ :: _, _, h => ⟨(List.forall_mem_cons.1 h).1, rfl⟩
  | .escape _ :: e :: es, hbased, h => placed_unterminated (e :: es) hbased (List.forall_mem_cons.1 h).2
  | .comment :: e :: es, hbased, h => placed_unterminated (e :: es) hbased (List.forall_mem_cons.1 h).2

end Enclosure

theorem placed_skipEnclosed : ∀ {cs : List Char} {es : List Enclosure} {offset : Nat} {e : SyntaxError},
    Enclosure.Based es → (∀ e ∈ es, e.Placed text) → Stands text offset cs → skipEnclosed es offset cs = .error e →
    PlacedFault text e
  | [], es, offset, e, hbased, hes, _, h => by
    cases h
    exact Enclosure.placed_unterminated es hbased hes
  | c :: cs, es, offset, e, hbased, hes, hstands, h => by
    unfold skipEnclosed at h
    split at h
    · cases h
    · next hne =>
      split at h
      · cases h
      · next hskip =>
        cases h
        have hinner := (hbased.step offset c).resolve_left hne
        exact placed_skipEnclosed hinner (Enclosure.placed_step hes hstands.isPlace c) hstands.tail hskip

theorem placed_readUnicode {start offset : Nat} {cs : List Char} {e : SyntaxError} (hstart : IsPlace text start)
    (h : readUnicode start offset cs = .error e) : PlacedFault text e := by
  unfold readUnicode at h
  split at h
  · cases h
    exact ⟨hstart, rfl⟩
  · split at h
    · split at h
      · split at h
        · cases h
          exact ⟨hstart, rfl⟩
        · cases h
      · cases h
    · cases h

theorem placed_readEscape {quote start : Nat} {cs : List Char} {e : SyntaxError} (hquote : IsPlace text quote)
    (hstands : Stands text start ('\\' :: cs)) (h : readEscape quote start cs = .error e) : PlacedFault text e := by
  unfold readEscape at h
  split at h
  · cases h
    exact ⟨hquote, rfl⟩
  · split at h
    · cases h
    · next hunicode =>
      cases h
      exact placed_readUnicode hstands.isPlace hunicode
  · split at h
    · cases h
    · next hskip =>
      cases h
      have hinner : Stands text (start + 2) _ := hstands.tail.tail
      have hbased : Enclosure.Based [.interpolation 0 start] := trivial
      have hplaced : ∀ e ∈ [Enclosure.interpolation 0 start], e.Placed text :=
        List.forall_mem_singleton.2 hstands.isPlace
      exact placed_skipEnclosed hbased hplaced hinner hskip
  · split at h
    · cases h
    · cases h
      exact ⟨hstands.isPlace, rfl⟩

theorem stands_readEscape {quote start : Nat} {cs : List Char} {piece : Piece} {next : Cursor}
    (hstands : Stands text start ('\\' :: cs)) (h : readEscape quote start cs = .ok (piece, next)) :
    Stands text next.offset next.rest := by
  obtain ⟨body, rfl, -⟩ := StringBody.of_readEscape h
  have hoffset : next.offset = start + byteLength ('\\' :: body) := by
    have hfinish := finish_readEscape h
    rw [← List.cons_append, byteLength_append, Cursor.finish] at hfinish
    omega
  rw [hoffset]
  have hboth : Stands text start (('\\' :: body) ++ next.rest) := hstands
  exact hboth.right

theorem placed_readPieces {quote offset : Nat} {cs : List Char} {e : SyntaxError} (hquote : IsPlace text quote)
    (hstands : Stands text offset cs) (h : readPieces quote offset cs = .error e) : PlacedFault text e := by
  fun_induction readPieces quote offset cs with
  | case1 =>
    cases h
    exact ⟨hquote, rfl⟩
  | case2 => cases h
  | case3 offset cs e' hesc =>
    cases h
    exact placed_readEscape hquote hstands hesc
  | case4 offset cs piece next hesc e' hrest ih =>
    cases h
    exact ih (stands_readEscape hstands hesc) hrest
  | case5 => cases h
  | case6 offset c cs _ _ e' hrest ih =>
    cases h
    exact ih hstands.tail hrest
  | case7 => cases h

theorem placed_read {offset : Nat} {c : Char} {cs : List Char} {e : SyntaxError}
    (hstands : Stands text offset (c :: cs)) (h : read offset c cs = .error e) : PlacedFault text e := by
  have hname : ∀ {make : String → Token} {cause : SyntaxError.Cause} {sigil : Char},
      readName make cause sigil offset cs = .error e → cause.isUnexpected = false →
      PlacedFault text e := by
    intro make cause sigil h hcause
    unfold readName at h
    split at h
    · cases h
      exact ⟨hstands.isPlace, hcause⟩
    · cases h
  unfold read at h
  split at h
  · cases h
  split at h
  · exact hname h rfl
  split at h
  · exact hname h rfl
  split at h
  · next hc =>
    subst hc
    unfold readString at h
    split at h
    · cases h
    · next hpieces =>
      cases h
      exact placed_readPieces hstands.isPlace hstands.tail hpieces
  split at h
  · cases h
  split at h
  · cases h
  split at h
  · cases h
  split at h
  · cases h
  · cases h
  · split at h
    · cases h
    · cases h
      exact ⟨hstands.isPlace, rfl⟩

/-- What is skipped in front of a token. -/
theorem stands_skipTrivia {offset o : Nat} {cs ds : List Char} {c : Char} (hstands : Stands text offset cs)
    (h : skipTrivia false offset cs = ⟨o, c :: ds⟩) : Stands text o (c :: ds) := by
  obtain ⟨gap, rfl, -, rfl⟩ := gap_of_skipTrivia h
  exact hstands.right

theorem stands_read {offset : Nat} {c : Char} {cs : List Char} {t : Token} {next : Cursor}
    (hstands : Stands text offset (c :: cs)) (h : read offset c cs = .ok (t, next)) :
    Stands text next.offset next.rest := by
  obtain ⟨lexeme, hcs, -⟩ := lexeme_of_read h
  rw [offset_of_read h hcs]
  rw [hcs] at hstands
  exact hstands.right

/-- **A fault of the tokens of a source is at a place in the text that the source is a part of.** -/
theorem placed_scanFrom {cursor : Cursor} {e : SyntaxError} (hstands : Stands text cursor.offset cursor.rest)
    (h : scanFrom cursor = .error e) : PlacedFault text e := by
  fun_induction scanFrom cursor with
  | case1 => cases h
  | case2 cursor offset c cs htrivia e' hread =>
    cases h
    exact placed_read (stands_skipTrivia hstands htrivia) hread
  | case3 cursor offset c cs htrivia t next hread e' hrest ih =>
    cases h
    exact ih (stands_read (stands_skipTrivia hstands htrivia) hread) hrest
  | case4 => cases h

theorem placed_scan {source : String} {base : Nat} {e : SyntaxError} (hstands : Stands text base source.toList)
    (h : scan source base = .error e) : PlacedFault text e := by
  have hcursor : Stands text (Cursor.mk base source.toList).offset (Cursor.mk base source.toList).rest := hstands
  exact placed_scanFrom hcursor h

end Token
end DefTable
