import DefTable.Token.Scan

/-!
# Scanning at another offset

Where a source begins shows in the offsets of its tokens and of its fault, and nowhere else: with its first byte moved
by `k`, a source is cut into the same tokens, and all offsets are moved by `k` (`Token.scan_shift`).
-/

namespace DefTable

open Text

/-! ## Moving offsets -/

variable (k : Nat)

def SyntaxError.shift (e : SyntaxError) : SyntaxError :=
  ⟨e.cause, e.offset + k⟩

def StringPart.shift : StringPart → StringPart
  | .literal s => .literal s
  | .interpolation source offset => .interpolation source (offset + k)

def Cursor.shift (c : Cursor) : Cursor :=
  ⟨c.offset + k, c.rest⟩

namespace Token

/-- A token with its nested sources moved. -/
def shift : Token → Token
  | .str parts => .str (parts.map (StringPart.shift k))
  | t => t

def Enclosure.shift : Enclosure → Enclosure
  | .interpolation opened start => .interpolation opened (start + k)
  | .string start => .string (start + k)
  | .escape start => .escape (start + k)
  | .comment => .comment

def Piece.shift : Piece → Piece
  | .char c => .char c
  | .interpolation source offset => .interpolation source (offset + k)

end Token

def Lexeme.shift (l : Lexeme) : Lexeme :=
  ⟨l.token.shift k, l.offset + k⟩

/-- A result with its fault moved, and its value by a function. -/
def shiftResult {α : Type} (f : α → α) : Except SyntaxError α → Except SyntaxError α
  | .ok a => .ok (f a)
  | .error e => .error (e.shift k)

variable {k}

theorem StringPart.shift_zero (part : StringPart) : part.shift 0 = part := by
  cases part <;> rfl

theorem Token.Piece.shift_zero (piece : Piece) : piece.shift 0 = piece := by
  cases piece <;> rfl

theorem Lexeme.shift_zero (l : Lexeme) : l.shift 0 = l := by
  obtain ⟨t, o⟩ := l
  cases t with
  | str parts => rw [shift, Token.shift, List.map_id'' StringPart.shift_zero, Nat.add_zero]
  | _ => rfl

theorem Cursor.behind_shift (offset : Nat) (text rest : List Char) :
    Cursor.behind (offset + k) text rest = (Cursor.behind offset text rest).shift k := by
  rw [behind, behind, shift, Nat.add_right_comm]

namespace Token

/-! ## Blanks and interpolations -/

theorem skipTrivia_shift : ∀ (inComment : Bool) (offset : Nat) (cs : List Char),
    skipTrivia inComment (offset + k) cs = (skipTrivia inComment offset cs).shift k
  | _, _, [] => rfl
  | inComment, offset, c :: cs => by
    unfold skipTrivia
    rw [Nat.add_right_comm offset k, skipTrivia_shift, skipTrivia_shift false, skipTrivia_shift true]
    split
    · rfl
    · split
      · rfl
      · split <;> rfl

namespace Enclosure

theorem step_shift (offset : Nat) (c : Char) (es : List Enclosure) :
    step (offset + k) c (es.map (shift k)) = (step offset c es).map (shift k) := by
  cases es with
  | nil => rfl
  | cons e below =>
    cases e with
    | interpolation opened start | string start =>
      rw [List.map_cons, shift]
      unfold step
      dsimp only
      split <;> rfl
    | escape start | comment =>
      rw [List.map_cons, shift, step, step]
      split <;> rfl

/-- Enclosures around which there is an interpolation. -/
def Based : List Enclosure → Prop
  | [] => False
  | [.interpolation _ _] => True
  | _ :: below => Based below

theorem Based.cons {e : Enclosure} {es : List Enclosure} (h : Based es) : Based (e :: es) := by
  cases es with
  | nil => exact h.elim
  | cons => cases e <;> exact h

theorem Based.step {es : List Enclosure} (h : Based es) (offset : Nat) (c : Char) :
    step offset c es = [] ∨ Based (step offset c es) := by
  obtain - | ⟨e, below⟩ := es
  · exact h.elim
  by_cases hbelow : Based below
  · -- what is pushed lands on an enclosure that stays
    right
    unfold Enclosure.step
    cases e <;> dsimp only <;> split <;> first | exact hbelow | exact hbelow.cons
  · obtain ⟨d, start, rfl, rfl⟩ : ∃ d start, e = .interpolation d start ∧ below = [] := by
      cases below with
      | nil => cases e <;> first | exact ⟨_, _, rfl, rfl⟩ | exact h.elim
      | cons => cases e <;> exact absurd h hbelow
    unfold Enclosure.step
    dsimp only
    split <;> first | exact .inl rfl | exact .inr trivial

theorem unterminated_shift : ∀ es : List Enclosure, Based es →
    unterminated (es.map (shift k)) = (unterminated es).shift k
  | [], h => h.elim
  | .interpolation _ _ :: _, _ => rfl
  | .string _ :: _, _ => rfl
  | .escape _ :: [], h => h.elim
  | .comment :: [], h => h.elim
  | .escape _ :: e :: es, h => unterminated_shift (e :: es) h
  | .comment :: e :: es, h => unterminated_shift (e :: es) h

end Enclosure

/-- A skipped text with what comes after it, moved. -/
def shiftRest {α : Type} (k : Nat) (p : α × Cursor) : α × Cursor :=
  (p.1, p.2.shift k)

theorem skipEnclosed_shift : ∀ (cs : List Char) {es : List Enclosure} (offset : Nat), Enclosure.Based es →
    skipEnclosed (es.map (.shift k)) (offset + k) cs = shiftResult k (shiftRest k) (skipEnclosed es offset cs)
  | [], es, _, hes => by rw [skipEnclosed, skipEnclosed, Enclosure.unterminated_shift es hes, shiftResult]
  | c :: cs, es, offset, hes => by
    rw [skipEnclosed, skipEnclosed, Enclosure.step_shift, Nat.add_right_comm]
    rcases hes.step offset c with hstep | hstep
    · rw [hstep]
      rfl
    · have ih := skipEnclosed_shift cs (offset + c.utf8Size) hstep
      cases hinner : Enclosure.step offset c es with
      | nil => rw [hinner] at hstep; exact hstep.elim
      | cons e inner =>
        rw [hinner, List.map_cons] at ih
        simp only [List.map_cons, ih]
        cases skipEnclosed (e :: inner) (offset + c.utf8Size) cs <;> rfl

/-! ## Strings -/

theorem readUnicode_shift (start offset : Nat) (cs : List Char) :
    readUnicode (start + k) (offset + k) cs = shiftResult k (shiftRest k) (readUnicode start offset cs) := by
  unfold readUnicode
  split
  · rfl
  · split
    · split
      · split
        · rfl
        · rw [Nat.add_right_comm]
          rfl
      · rw [Nat.add_right_comm]
        rfl
    · rw [Nat.add_right_comm]
      rfl

/-- A piece with what comes after it, moved. -/
def shiftPiece (k : Nat) (p : Piece × Cursor) : Piece × Cursor :=
  (p.1.shift k, p.2.shift k)

theorem readEscape_shift (quote start : Nat) (cs : List Char) :
    readEscape (quote + k) (start + k) cs = shiftResult k (shiftPiece k) (readEscape quote start cs) := by
  have hstart : start + k + 2 = start + 2 + k := Nat.add_right_comm _ _ _
  unfold readEscape
  split
  · rfl
  · rw [hstart, readUnicode_shift]
    cases readUnicode start (start + 2) _ <;> rfl
  · next cs =>
    have hbased : Enclosure.Based [.interpolation 0 start] := trivial
    have hskip := skipEnclosed_shift (k := k) cs (start + 2) hbased
    rw [List.map_singleton, Enclosure.shift] at hskip
    rw [hstart, hskip]
    cases skipEnclosed [.interpolation 0 start] (start + 2) cs <;> rfl
  · rw [hstart]
    split <;> rfl

theorem Piece.shift_injective : Function.Injective (Piece.shift k) := by
  rintro (c | ⟨source, offset⟩) (c' | ⟨source', offset'⟩) h <;> simp_all [Piece.shift]

/-- Pieces with what comes after them, moved. -/
def shiftPieces (k : Nat) (p : List Piece × Cursor) : List Piece × Cursor :=
  (p.1.map (.shift k), p.2.shift k)

theorem readPieces_shift (quote offset : Nat) (cs : List Char) :
    readPieces (quote + k) (offset + k) cs = shiftResult k (shiftPieces k) (readPieces quote offset cs) := by
  fun_induction readPieces quote offset cs with
  | case1 => rw [readPieces]; rfl
  | case2 offset cs =>
    rw [readPieces, Nat.add_right_comm]
    rfl
  | case3 offset cs e hesc =>
    rw [readPieces, readEscape_shift, hesc]
    rfl
  | case4 offset cs piece next hesc e hrest ih =>
    rw [hrest] at ih
    rw [readPieces, readEscape_shift, hesc]
    simp only [shiftResult, shiftPiece, Cursor.shift] at ih ⊢
    rw [ih]
  | case5 offset cs piece next hesc pieces last hrest ih =>
    rw [hrest] at ih
    rw [readPieces, readEscape_shift, hesc]
    simp only [shiftResult, shiftPiece, Cursor.shift] at ih ⊢
    rw [ih]
    rfl
  | case6 offset c cs hquote hback e hrest ih | case7 offset c cs hquote hback pieces last hrest ih =>
    rw [hrest] at ih
    rw [readPieces.eq_4 _ _ _ _ hquote hback, Nat.add_right_comm, ih]
    rfl

theorem literalPart_shift (collected : List Char) : (literalPart collected).map (.shift k) = literalPart collected := by
  unfold literalPart
  split <;> rfl

theorem gather_shift : ∀ (pieces : List Piece) (collected : List Char),
    gather collected (pieces.map (.shift k)) = (gather collected pieces).map (.shift k)
  | [], collected => (literalPart_shift collected).symm
  | .char c :: pieces, collected => gather_shift pieces (c :: collected)
  | .interpolation source offset :: pieces, collected => by
    rw [List.map_cons, Piece.shift, gather, gather, gather_shift pieces, List.map_append, literalPart_shift]
    rfl

theorem partsOf_shift (pieces : List Piece) :
    partsOf (pieces.map (.shift k)) = (partsOf pieces).map (.shift k) := by
  unfold partsOf
  rw [gather_shift]
  cases gather [] pieces <;> rfl

/-- A token with what comes after it, moved. -/
def shiftToken (k : Nat) (p : Token × Cursor) : Token × Cursor :=
  (p.1.shift k, p.2.shift k)

theorem readString_shift (quote : Nat) (cs : List Char) :
    readString (quote + k) cs = shiftResult k (shiftToken k) (readString quote cs) := by
  unfold readString
  rw [Nat.add_right_comm, readPieces_shift]
  cases readPieces quote (quote + 1) cs with
  | error e => rfl
  | ok r => simp only [shiftResult, shiftPieces, shiftToken, shift, partsOf_shift]

/-! ## Tokens -/

theorem readName_shift {make : String → Token} (hmake : ∀ s, (make s).shift k = make s) (cause : SyntaxError.Cause)
    (sigil : Char) (offset : Nat) (cs : List Char) :
    readName make cause sigil (offset + k) cs = shiftResult k (shiftToken k) (readName make cause sigil offset cs) := by
  unfold readName
  split
  · rfl
  · simp only [shiftResult, shiftToken, hmake, Cursor.behind_shift]

theorem readDot_shift (offset : Nat) (cs : List Char) :
    readDot (offset + k) cs = shiftToken k (readDot offset cs) := by
  unfold readDot
  rw [Nat.add_right_comm offset k 1, Nat.add_right_comm offset k 2]
  split
  · rfl
  · split
    · rfl
    · split
      · simp only [shiftToken, shift, Cursor.behind_shift]
      · split
        · simp only [shiftToken, shift, Cursor.behind_shift]
        · rfl

theorem ofWord_shift (word : String) : (ofWord word).shift k = ofWord word := by
  unfold ofWord
  split <;> rfl

theorem sign?_shift {c : Char} {t : Token} (h : sign? c = some t) : t.shift k = t := by
  unfold sign? at h
  split at h <;> cases h <;> rfl

theorem read_shift (offset : Nat) (c : Char) (cs : List Char) :
    read (offset + k) c cs = shiftResult k (shiftToken k) (read offset c cs) := by
  unfold read
  split
  · rw [readDot_shift]
    rfl
  split
  · exact readName_shift (fun _ => rfl) _ _ _ _
  split
  · exact readName_shift (fun _ => rfl) _ _ _ _
  split
  · exact readString_shift _ _
  split
  · simp only [shiftResult, shiftToken, shift, Cursor.behind_shift]
  split
  · simp only [shiftResult, shiftToken, ofWord_shift, Cursor.behind_shift]
  split
  · next t ht =>
    simp only [shiftResult, shiftToken, sign?_shift ht, Cursor.shift, Nat.add_right_comm]
  split
  · simp only [shiftResult, shiftToken, shift, Cursor.shift, Nat.add_right_comm]
  · simp only [shiftResult, shiftToken, shift, Cursor.shift, Nat.add_right_comm]
  · split
    · simp only [shiftResult, shiftToken, shift, Cursor.behind_shift]
    · rfl

/-- The tokens from a cursor on are the first one and those behind it. -/
theorem scanFrom_eq (cursor : Cursor) :
    scanFrom cursor =
      match skipTrivia false cursor.offset cursor.rest with
      | ⟨offset, []⟩ => .ok [⟨.eof, offset⟩]
      | ⟨offset, c :: cs⟩ =>
        match read offset c cs with
        | .error e => .error e
        | .ok (t, next) => (scanFrom next).map (⟨t, offset⟩ :: ·) := by
  rw [scanFrom]
  split
  · next htrivia => rw [htrivia]
  · next htrivia =>
    rw [htrivia]
    dsimp only
    split
    · next hread => rw [hread]
    · next next hread =>
      rw [hread]
      dsimp only
      cases scanFrom next <;> rfl

theorem scanFrom_shift (cursor : Cursor) :
    scanFrom (cursor.shift k) = shiftResult k (List.map (.shift k)) (scanFrom cursor) := by
  fun_induction scanFrom cursor with
  | case1 cursor offset htrivia =>
    rw [scanFrom_eq, Cursor.shift, skipTrivia_shift, htrivia]
    rfl
  | case2 cursor offset c cs htrivia e hread =>
    rw [scanFrom_eq, Cursor.shift, skipTrivia_shift, htrivia]
    simp only [Cursor.shift, read_shift, hread]
    rfl
  | case3 cursor offset c cs htrivia t next hread e hrest ih =>
    rw [scanFrom_eq, Cursor.shift, skipTrivia_shift, htrivia]
    simp only [Cursor.shift, read_shift, hread]
    simp only [shiftResult, shiftToken, ih, hrest]
    rfl
  | case4 cursor offset c cs htrivia t next hread ls hrest ih =>
    rw [scanFrom_eq, Cursor.shift, skipTrivia_shift, htrivia]
    simp only [Cursor.shift, read_shift, hread]
    simp only [shiftResult, shiftToken, ih, hrest]
    rfl

/-- **Where a source begins shows in the offsets and nowhere else.** -/
theorem scan_shift (source : String) (base : Nat) :
    scan source (base + k) = shiftResult k (List.map (.shift k)) (scan source base) :=
  scanFrom_shift ⟨base, source.toList⟩

end Token

end DefTable
