import DefTable.Proofs.Enclosures

/-!
# Cutting a printed wording into tokens

The lexemes that a printed wording is cut into have that wording (`Token.scan_print`). An interpolation is skipped to
its own parenthesis, since its wording closes the parentheses that it opens (`Token.skipEnclosed_wording`); then the
skipped text is a printed wording itself, so the claim for the source and for the parts of a string is one induction.
-/

namespace DefTable

namespace Token

/-! ## Skipping -/

open Enclosure

theorem after_gap (d : Nat) (below : List Enclosure) (w : Wording .tokens) :
    after (.interpolation d 0 :: below) (Wording.gap w) = .interpolation d 0 :: below := by
  cases w <;> rfl

theorem after_escape (c : Char) (below : List Enclosure) :
    after (.string 0 :: below) (Wording.escape c) = .string 0 :: below := by
  unfold Wording.escape
  split
  · next hc => rcases hc with rfl | rfl <;> rfl
  · next hc =>
    obtain ⟨hquote, hback⟩ := not_or.1 hc
    simp [step]

theorem after_text (below : List Enclosure) : ∀ cs : List Char,
    after (.string 0 :: below) (cs.flatMap Wording.escape) = .string 0 :: below
  | [] => rfl
  | c :: cs => by rw [List.flatMap_cons, after_append, after_escape, after_text below cs]

/-- What a wording does to the enclosures: in an interpolation it counts the parentheses, in a string it changes
nothing. -/
def AfterWording : {l : Level} → Wording l → Prop
  | .tokens, w => ∀ {d d' below}, w.depth d = some d' →
    after (.interpolation d 0 :: below) w.chars = .interpolation d' 0 :: below
  | .parts, ps => ∀ {below}, after (.string 0 :: below) ps.chars = .string 0 :: below

theorem after_wording {l : Level} (w : Wording l) (hspelled : w.WellSpelled) (hnested : w.Nested) : AfterWording w := by
  induction w with
  | nil =>
    intro d d' below h
    cases h
    rfl
  | token t rest ih =>
    intro d d' below h
    obtain ⟨d₁, ht, hrest⟩ := Option.bind_eq_some_iff.1 h
    rw [Wording.chars, after_append, after_token hspelled.1, ht]
    dsimp only
    rw [after_append, after_gap, ih hspelled.2.2 hnested hrest]
  | quote ps rest ihps ih =>
    intro d d' below h
    -- from the opening quote to the closing one the text is inside of a string
    have hopen : step 0 '"' (.interpolation d 0 :: below) = .string 0 :: .interpolation d 0 :: below := rfl
    have hclose : step 0 '"' (.string 0 :: .interpolation d 0 :: below) = .interpolation d 0 :: below := rfl
    rw [Wording.chars, after_cons, hopen, after_append, ihps hspelled.1 hnested.2.1, after_cons, hclose, after_append,
      after_gap, ih hspelled.2 hnested.2.2 h]
  | done => exact rfl
  | text s ps ih =>
    intro below
    rw [Wording.chars, after_append, after_text, ih hspelled hnested]
  | splice inner ps ihinner ih =>
    intro below
    have hopen : step 0 '(' (.escape 0 :: .string 0 :: below) = .interpolation 0 0 :: .string 0 :: below := rfl
    have hclose : step 0 ')' (.interpolation 0 0 :: .string 0 :: below) = .string 0 :: below := rfl
    have hescape : step 0 '\\' (.string 0 :: below) = .escape 0 :: .string 0 :: below := rfl
    rw [Wording.chars, after_cons, hescape, after_cons, hopen, after_append,
      ihinner hspelled.1 hnested.2.1 hnested.1, after_cons, hclose, ih hspelled.2 hnested.2.2]

/-- **An interpolation is skipped to its own parenthesis.** -/
theorem skipEnclosed_wording {w : Wording .tokens} (hspelled : w.WellSpelled) (hnested : w.Nested)
    (hbalanced : w.depth 0 = some 0) (start offset : Nat) (rest : List Char) :
    ∃ offset', skipEnclosed [.interpolation 0 start] offset (w.chars ++ ')' :: rest) = .ok (w.chars, ⟨offset', rest⟩) :=
  skip_interpolation (after_wording w hspelled hnested hbalanced) start offset rest

/-! ## Strings -/

/-- The characters of a text are read as they are, in front of what is read behind them. -/
theorem readPieces_text {quote : Nat} {rest last : List Char} {P : List Piece → Prop}
    (hrest : ∀ offset, ∃ pieces offset', readPieces quote offset rest = .ok (pieces, ⟨offset', last⟩) ∧ P pieces) :
    ∀ (cs : List Char) (offset : Nat), ∃ pieces offset',
      readPieces quote offset (cs.flatMap Wording.escape ++ rest) = .ok (cs.map .char ++ pieces, ⟨offset', last⟩) ∧
        P pieces
  | [], offset => hrest offset
  | c :: cs, offset => by
    rw [List.flatMap_cons, List.append_assoc, Wording.escape]
    split
    · next hc =>
      obtain ⟨pieces, offset', h, hP⟩ := readPieces_text hrest cs (offset + 2)
      have hescape : readEscape quote offset (c :: (cs.flatMap Wording.escape ++ rest)) =
          .ok (.char c, ⟨offset + 2, cs.flatMap Wording.escape ++ rest⟩) := by
        rcases hc with rfl | rfl <;> rfl
      exact ⟨pieces, offset', readPieces_escape hescape h, hP⟩
    · next hc =>
      obtain ⟨hquote, hback⟩ := not_or.1 hc
      obtain ⟨pieces, offset', h, hP⟩ := readPieces_text hrest cs (offset + c.utf8Size)
      exact ⟨pieces, offset', readPieces_char hquote hback h, hP⟩

/-- A text that is all of a string. -/
theorem readPieces_quoted (quote : Nat) (rest cs : List Char) (offset : Nat) : ∃ offset',
    readPieces quote offset (cs.flatMap Wording.escape ++ '"' :: rest) = .ok (cs.map .char, ⟨offset', rest⟩) := by
  have hquote : ∀ offset, ∃ pieces offset', readPieces quote offset ('"' :: rest) = .ok (pieces, ⟨offset', rest⟩) ∧
      pieces = [] := fun offset => ⟨[], offset + 1, by rw [readPieces], rfl⟩
  obtain ⟨_, offset', h, rfl⟩ := readPieces_text hquote cs offset
  rw [List.append_nil] at h
  exact ⟨offset', h⟩

theorem gather_chars (pieces : List Piece) : ∀ cs collected : List Char,
    gather collected (cs.map .char ++ pieces) = gather (cs.reverse ++ collected) pieces
  | [], _ => rfl
  | c :: cs, collected => by
    rw [List.map_cons, List.cons_append, gather, gather_chars pieces cs, List.reverse_cons, List.append_assoc,
      List.singleton_append]

theorem partsOf_chars (cs : List Char) : partsOf (cs.map .char) = [.literal (String.ofList cs)] := by
  have hgather := gather_chars [] cs []
  rw [List.append_nil, List.append_nil] at hgather
  unfold partsOf
  rw [hgather]
  cases cs with
  | nil => rfl
  | cons c cs => simp [gather, literalPart]

/-- The interpolations of a string are those that are read in it. -/
theorem interpolation_mem_gather {source : String} {start : Nat} : ∀ {pieces : List Piece} {collected : List Char},
    .interpolation source start ∈ gather collected pieces ↔ Piece.interpolation source start ∈ pieces
  | [], collected => by
    unfold gather literalPart
    split <;> simp
  | .char c :: pieces, collected => by
    rw [gather, interpolation_mem_gather, List.mem_cons]
    simp
  | .interpolation source' start' :: pieces, collected => by
    rw [gather, List.mem_append, List.mem_cons, interpolation_mem_gather, List.mem_cons]
    unfold literalPart
    split <;> simp

theorem interpolation_mem_partsOf {source : String} {start : Nat} {pieces : List Piece} :
    .interpolation source start ∈ partsOf pieces ↔ Piece.interpolation source start ∈ pieces := by
  have hgather : .interpolation source start ∈ gather [] pieces ↔ Piece.interpolation source start ∈ pieces :=
    interpolation_mem_gather
  rw [← hgather]
  unfold partsOf
  split
  · next hnil => simp [hnil]
  · rfl

theorem exists_chars : ∀ {pieces : List Piece}, (∀ source start, .interpolation source start ∉ pieces) →
    ∃ cs : List Char, pieces = cs.map .char
  | [], _ => ⟨[], rfl⟩
  | .char c :: pieces, h => by
    obtain ⟨cs, rfl⟩ := exists_chars fun source start hmem => h source start (List.mem_cons_of_mem _ hmem)
    exact ⟨c :: cs, rfl⟩
  | .interpolation source start :: pieces, h => absurd List.mem_cons_self (h source start)

theorem chars_of_partsOf {pieces : List Piece} {text : String} (h : partsOf pieces = [.literal text]) :
    pieces = text.toList.map .char := by
  have hnone : ∀ source start, Piece.interpolation source start ∉ pieces := fun source start hmem => by
    have hpart := interpolation_mem_partsOf.2 hmem
    rw [h, List.mem_singleton] at hpart
    cases hpart
  obtain ⟨cs, rfl⟩ := exists_chars hnone
  rw [partsOf_chars, List.cons.injEq, StringPart.literal.injEq] at h
  rw [← h.1, String.toList_ofList]

theorem partsOf_of_gather {pieces : List Piece} (h : gather [] pieces ≠ []) : partsOf pieces = gather [] pieces := by
  unfold partsOf
  split
  · next hnil => exact absurd hnil h
  · rfl

/-! ## Tokens -/

theorem scanFrom_nil (offset : Nat) : scanFrom ⟨offset, []⟩ = .ok [⟨.eof, offset⟩] := by
  rw [scanFrom]
  rfl

theorem scanFrom_blank (offset : Nat) (cs : List Char) : scanFrom ⟨offset, ' ' :: cs⟩ = scanFrom ⟨offset + 1, cs⟩ := by
  rw [scanFrom, scanFrom]
  rfl

theorem scanFrom_read {offset : Nat} {c : Char} {cs : List Char} {t : Token} {next : Cursor}
    (hblank : isBlank c = false) (hcomment : c ≠ '#') (hread : read offset c cs = .ok (t, next)) :
    scanFrom ⟨offset, c :: cs⟩ = (scanFrom next).map (⟨t, offset⟩ :: ·) := by
  have hskip : skipTrivia false offset (c :: cs) = ⟨offset, c :: cs⟩ := by
    rw [skipTrivia, if_neg Bool.false_ne_true, hblank, if_neg Bool.false_ne_true, if_neg hcomment]
  rw [scanFrom_eq]
  simp only [hskip, hread]

theorem scanFrom_cons {offset : Nat} {c : Char} {cs : List Char} {t : Token} {next : Cursor} {ls : List Lexeme}
    (hblank : isBlank c = false) (hcomment : c ≠ '#') (hread : read offset c cs = .ok (t, next))
    (h : scanFrom next = .ok ls) : scanFrom ⟨offset, c :: cs⟩ = .ok (⟨t, offset⟩ :: ls) := by
  rw [scanFrom_read hblank hcomment hread, h]
  rfl

/-- A source starts with a string just when a string is read behind its quote. -/
theorem scanFrom_quote_iff {offset : Nat} {cs : List Char} {ls : List Lexeme} :
    scanFrom ⟨offset, '"' :: cs⟩ = .ok ls ↔ ∃ pieces next ls', readPieces offset (offset + 1) cs = .ok (pieces, next) ∧
      scanFrom next = .ok ls' ∧ ls = ⟨.str (partsOf pieces), offset⟩ :: ls' := by
  have hread : read offset '"' cs = readString offset cs := rfl
  constructor
  · intro h
    have hskip : skipTrivia false offset ('"' :: cs) = ⟨offset, '"' :: cs⟩ := rfl
    rw [scanFrom_eq] at h
    simp only [hskip, hread, readString] at h
    split at h
    · cases h
    · next t last heq =>
      split at heq
      · next pieces _ hpieces =>
        cases heq
        cases hrest : scanFrom last with
        | error e =>
          rw [hrest] at h
          cases h
        | ok ls' =>
          rw [hrest] at h
          exact ⟨pieces, last, ls', hpieces, hrest, (Except.ok.inj h).symm⟩
      · cases heq
  · rintro ⟨pieces, next, ls', hpieces, hrest, rfl⟩
    refine scanFrom_cons rfl (by decide) ?_ hrest
    rw [hread, readString, hpieces]

theorem stops_gap (w : Wording .tokens) : Stops (Wording.gap w ++ w.chars) := by
  cases w with
  | nil => exact stops_nil
  | token => exact stops_blank _
  | quote => exact stops_blank _

theorem scanFrom_gap (w : Wording .tokens) (offset : Nat) :
    ∃ offset', scanFrom ⟨offset, Wording.gap w ++ w.chars⟩ = scanFrom ⟨offset', w.chars⟩ := by
  cases w with
  | nil => exact ⟨offset, rfl⟩
  | token => exact ⟨offset + 1, scanFrom_blank _ _⟩
  | quote => exact ⟨offset + 1, scanFrom_blank _ _⟩

/-- What reading does with a wording: tokens give lexemes, and interpolations give parts of a string. -/
def ReadsWording : {l : Level} → Wording l → Prop
  | .tokens, w => ∀ offset, ∃ ls, scanFrom ⟨offset, w.chars⟩ = .ok ls ∧ @Spells .tokens ls w
  | .parts, ps => ps.AllSplices → ∀ quote offset rest, ∃ pieces offset',
    readPieces quote offset (ps.chars ++ '"' :: rest) = .ok (pieces, ⟨offset', rest⟩) ∧
      @Spells .parts (gather [] pieces) ps

/-- A string of a wording is read as parts that have the wording. -/
theorem readString_wording {ps : Wording .parts}
    (hparts : (∃ s, ps = .text s .done) ∨ ps ≠ .done ∧ ps.AllSplices) (hps : ReadsWording ps) (quote : Nat)
    (rest : List Char) : ∃ parts offset',
      readString quote (ps.chars ++ '"' :: rest) = .ok (.str parts, ⟨offset', rest⟩) ∧ @Spells .parts parts ps := by
  rcases hparts with ⟨s, rfl⟩ | ⟨hne, hsplices⟩
  · obtain ⟨offset', h⟩ := readPieces_quoted quote rest s.toList (quote + 1)
    refine ⟨[.literal s], offset', ?_, .text .done⟩
    rw [Wording.chars, Wording.chars, List.append_nil, readString, h]
    simp only [partsOf_chars, String.ofList_toList]
  · obtain ⟨pieces, offset', h, hspells⟩ := hps hsplices quote (quote + 1) rest
    have hgather : gather [] pieces ≠ [] := by
      intro hnil
      rw [hnil] at hspells
      cases hspells
      exact hne rfl
    refine ⟨gather [] pieces, offset', ?_, hspells⟩
    rw [readString, h]
    simp only [partsOf_of_gather hgather]

theorem reads_wording {l : Level} (w : Wording l) (hspelled : w.WellSpelled) (hnested : w.Nested) : ReadsWording w := by
  induction w with
  | nil => exact fun offset => ⟨_, scanFrom_nil offset, .finish rfl⟩
  | token t rest ih =>
    intro offset
    obtain ⟨ht, hplain, hrest⟩ := hspelled
    obtain ⟨c, ds, htext, hblank, hcomment, hread⟩ := readsAs_spelling ht (by rintro parts rfl; cases hplain)
      (by rintro rfl; cases hplain) (stops_gap rest)
    obtain ⟨offset', hgap⟩ := scanFrom_gap rest (offset + Text.byteLength t.spelling.toList)
    obtain ⟨ls, hscan, hspells⟩ := ih hrest hnested offset'
    refine ⟨⟨t, offset⟩ :: ls, ?_, .token hplain hspells⟩
    rw [Wording.chars, htext, List.cons_append]
    exact scanFrom_cons hblank hcomment (hread offset) (hgap.trans hscan)
  | quote ps rest ihps ih =>
    intro offset
    obtain ⟨hparts, hps, hrest⟩ := hnested
    obtain ⟨parts, offset₁, hread, hspells⟩ := readString_wording hparts (ihps hspelled.1 hps) offset
      (Wording.gap rest ++ rest.chars)
    obtain ⟨offset', hgap⟩ := scanFrom_gap rest offset₁
    obtain ⟨ls, hscan, hls⟩ := ih hspelled.2 hrest offset'
    exact ⟨⟨.str parts, offset⟩ :: ls, scanFrom_cons rfl (by decide) hread (hgap.trans hscan), .quote hspells hls⟩
  | done =>
    intro _ quote offset rest
    exact ⟨[], offset + 1, by rw [Wording.chars, List.nil_append, readPieces], .done⟩
  | text s ps => exact fun hsplices => hsplices.elim
  | splice inner ps ihinner ih =>
    intro hsplices quote offset rest
    obtain ⟨hbalanced, hinner, hps⟩ := hnested
    obtain ⟨offset₁, hskip⟩ := skipEnclosed_wording hspelled.1 hinner hbalanced offset (offset + 2)
      (ps.chars ++ '"' :: rest)
    obtain ⟨pieces, offset', hread, hspells⟩ := ih hspelled.2 hps hsplices quote offset₁ rest
    obtain ⟨ls, hscan, hls⟩ := ihinner hspelled.1 hinner (offset + 2)
    have hescape : readEscape quote offset ('(' :: (inner.chars ++ ')' :: (ps.chars ++ '"' :: rest))) =
        .ok (.interpolation (String.ofList inner.chars) (offset + 2), ⟨offset₁, ps.chars ++ '"' :: rest⟩) := by
      rw [readEscape, hskip]
    have hsource : scan (String.ofList inner.chars) (offset + 2) = .ok ls := by
      rwa [scan, String.toList_ofList]
    refine ⟨.interpolation (String.ofList inner.chars) (offset + 2) :: pieces, offset', ?_, .splice hsource hls hspells⟩
    rw [Wording.chars, List.cons_append, List.cons_append, List.append_assoc, List.cons_append]
    exact readPieces_escape hescape hread

/-- **What is printed has the wording that was printed.** -/
theorem scan_print {w : Wording .tokens} (hspelled : w.WellSpelled) (hnested : w.Nested) (base : Nat) :
    ∃ ls, scan w.print base = .ok ls ∧ @Spells .tokens ls w := by
  obtain ⟨ls, hscan, hspells⟩ := reads_wording w hspelled hnested base
  exact ⟨ls, by rwa [scan, Wording.print, String.toList_ofList], hspells⟩

end Token
end DefTable
