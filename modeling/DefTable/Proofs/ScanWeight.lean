import DefTable.Grammar
import Mathlib.Algebra.GroupWithZero.Nat

/-!
# The weight of a token list

A measure of lexemes under which everything the grammar can do with them shrinks: an interpolation weighs as much as
the source it holds, and `?//` weighs two, since behind a term it is taken apart. What a source is cut into weighs at
most one more than the source is long (`weight_scan_le`).
-/

namespace DefTable

/-- What a piece of a string can still give work for. -/
def StringPart.weight : StringPart → Nat
  | .literal _ => 1
  | .interpolation source _ => source.length + 2

namespace Token

def partsWeight (parts : List StringPart) : Nat :=
  (parts.map StringPart.weight).sum

/-- What a token can still give work for. -/
def weight : Token → Nat
  | .str parts => partsWeight parts + 1
  | .alternative => 2
  | _ => 1

def Piece.weight : Piece → Nat
  | .char _ => 1
  | .interpolation source _ => source.length + 2

@[simp] theorem partsWeight_cons (p : StringPart) (ps : List StringPart) :
    partsWeight (p :: ps) = p.weight + partsWeight ps :=
  rfl

@[simp] theorem partsWeight_append (ps qs : List StringPart) :
    partsWeight (ps ++ qs) = partsWeight ps + partsWeight qs := by
  rw [partsWeight, List.map_append, List.sum_append]
  rfl

theorem weight_pos (t : Token) : 0 < t.weight := by
  cases t <;> simp only [weight] <;> omega

/-! ## Strings -/

theorem partsWeight_literalPart_le (collected : List Char) :
    partsWeight (literalPart collected) ≤ collected.length := by
  cases collected with
  | nil => exact Nat.le_refl 0
  | cons c cs => exact Nat.succ_le_succ (Nat.zero_le _)

theorem partsWeight_gather_le :
    ∀ (pieces : List Piece) (collected : List Char),
      partsWeight (gather collected pieces) ≤ collected.length + (pieces.map Piece.weight).sum
  | [], collected => partsWeight_literalPart_le collected
  | .char c :: pieces, collected => by
    have ih := partsWeight_gather_le pieces (c :: collected)
    simp only [List.length_cons] at ih
    simp only [gather, List.map_cons, List.sum_cons, Piece.weight]
    omega
  | .interpolation source offset :: pieces, collected => by
    have ih := partsWeight_gather_le pieces []
    have hl := partsWeight_literalPart_le collected
    simp only [List.length_nil] at ih
    simp only [gather, partsWeight_append, partsWeight_cons, List.map_cons, List.sum_cons, Piece.weight,
      StringPart.weight]
    omega

/-- Only the one empty part of an empty string weighs more than the pieces it is made of. -/
theorem partsWeight_partsOf_le (pieces : List Piece) :
    partsWeight (partsOf pieces) ≤ (pieces.map Piece.weight).sum + 1 := by
  have hg := partsWeight_gather_le pieces []
  unfold partsOf
  split
  · exact Nat.le_add_left _ _
  · exact Nat.le_succ_of_le (by simpa using hg)

theorem length_skipEnclosed_text : ∀ (cs : List Char) (enclosures : List Enclosure) (offset : Nat) {text next},
    skipEnclosed enclosures offset cs = .ok (text, next) → text.length + next.rest.length < cs.length
  | [], _, _, _, _, h => by simp [skipEnclosed] at h
  | c :: cs, enclosures, offset, text, next, h => by
    unfold skipEnclosed at h
    split at h
    · cases h
      simp
    · split at h
      · next h' =>
        cases h
        have ih := length_skipEnclosed_text cs _ _ h'
        simp only [List.length_cons]
        omega
      · cases h

theorem weight_readEscape_le {quote start : Nat} {cs : List Char} {piece next}
    (h : readEscape quote start cs = .ok (piece, next)) : piece.weight + next.rest.length ≤ cs.length := by
  have hlt := length_readEscape_lt h
  unfold readEscape at h
  split at h
  · cases h
  · split at h
    · cases h
      simp only [Piece.weight]
      omega
    · cases h
  · split at h
    · next h' =>
      cases h
      have := length_skipEnclosed_text _ _ _ h'
      simp only [Piece.weight, String.length_ofList, List.length_cons]
      omega
    · cases h
  · split at h
    · cases h
      simp only [Piece.weight, List.length_cons]
      omega
    · cases h

theorem weight_readPieces_lt (quote offset : Nat) (cs : List Char) {pieces next}
    (h : readPieces quote offset cs = .ok (pieces, next)) :
    (pieces.map Piece.weight).sum + next.rest.length < cs.length := by
  fun_induction readPieces quote offset cs generalizing pieces next with
  | case1 => cases h
  | case2 =>
    cases h
    simp
  | case3 => cases h
  | case4 => cases h
  | case5 offset cs piece next' hesc pieces' last hrest ih =>
    cases h
    have := weight_readEscape_le hesc
    have := ih hrest
    simp only [List.map_cons, List.sum_cons, List.length_cons]
    omega
  | case6 => cases h
  | case7 offset c cs _ _ pieces' last hrest ih =>
    cases h
    have := ih hrest
    simp only [List.map_cons, List.sum_cons, List.length_cons, Piece.weight]
    omega

/-! ## Sources -/

theorem weight_readString_le {quote : Nat} {cs : List Char} {t next} (h : readString quote cs = .ok (t, next)) :
    t.weight + next.rest.length ≤ cs.length + 1 := by
  unfold readString at h
  split at h
  · next pieces _ h' =>
    cases h
    have := weight_readPieces_lt _ _ _ h'
    have := partsWeight_partsOf_le pieces
    simp only [weight]
    omega
  · cases h

theorem weight_readDot (offset : Nat) (cs : List Char) : (readDot offset cs).1.weight = 1 := by
  unfold readDot
  split
  · rfl
  · split
    · rfl
    · split
      · rfl
      · split <;> rfl

theorem weight_readName {make : String → Token} (hmake : ∀ s, (make s).weight = 1) {cause sigil offset cs t next}
    (h : readName make cause sigil offset cs = .ok (t, next)) : t.weight = 1 := by
  unfold readName at h
  split at h
  · cases h
  · cases h
    exact hmake _

theorem weight_ofWord (word : String) : (ofWord word).weight = 1 := by
  unfold ofWord
  split <;> rfl

theorem weight_sign? {c : Char} {t : Token} (h : sign? c = some t) : t.weight = 1 := by
  unfold sign? at h
  split at h <;> cases h <;> rfl

/-- A token weighs no more than the characters it takes. -/
theorem weight_read_le {offset : Nat} {c : Char} {cs : List Char} {t next} (h : read offset c cs = .ok (t, next)) :
    t.weight + next.rest.length ≤ cs.length + 1 := by
  have hle := length_read_le h
  have light : t.weight = 1 → t.weight + next.rest.length ≤ cs.length + 1 := fun ht => by omega
  unfold read at h
  split at h
  · have ht := weight_readDot offset cs
    rw [Except.ok.inj h] at ht
    exact light ht
  split at h
  · exact light (weight_readName (fun _ => rfl) h)
  split at h
  · exact light (weight_readName (fun _ => rfl) h)
  split at h
  · exact weight_readString_le h
  split at h
  · cases h
    exact light rfl
  split at h
  · cases h
    exact light (weight_ofWord _)
  split at h
  · next hs =>
    cases h
    exact light (weight_sign? hs)
  split at h
  · cases h
    simp only [weight, List.length_cons]
    omega
  · cases h
    exact light rfl
  · split at h
    · cases h
      exact light rfl
    · cases h

end Token

namespace Grammar

/-- The weight of the lexemes that a production has in front of it. -/
def weight (ls : Lexemes) : Nat :=
  (ls.map fun l => l.token.weight).sum

@[simp] theorem weight_cons (l : Lexeme) (ls : Lexemes) : weight (l :: ls) = l.token.weight + weight ls := rfl

theorem weight_scanFrom_le (cursor : Cursor) {ls : Lexemes} (h : Token.scanFrom cursor = .ok ls) :
    weight ls ≤ cursor.rest.length + 1 := by
  fun_induction Token.scanFrom cursor generalizing ls with
  | case1 =>
    cases h
    exact Nat.le_add_left _ _
  | case2 => cases h
  | case3 => cases h
  | case4 cursor offset c cs htrivia t next hread lexemes hrest ih =>
    cases h
    have hskip := Token.length_skipTrivia_le false cursor.offset cursor.rest
    rw [htrivia] at hskip
    have := Token.weight_read_le hread
    have := ih hrest
    simp only [List.length_cons] at hskip
    simp only [weight_cons]
    omega

/-- **What a source is cut into weighs at most one more than the source is long.** -/
theorem weight_scan_le {source : String} {base : Nat} {ls : Lexemes} (h : Token.scan source base = .ok ls) :
    weight ls ≤ source.length + 1 := by
  rw [← String.length_toList]
  exact weight_scanFrom_le _ h

end Grammar

end DefTable
