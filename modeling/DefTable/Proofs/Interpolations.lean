import DefTable.Proofs.Balance

/-!
# Where interpolations end

An interpolation is skipped by its own scanner before its source is cut into tokens, and the two agree: the lexemes of a
source lead back into the interpolation around it just when its parentheses are balanced and it does not end inside of a
comment (`Token.leadsBack_iff`). So a source of this kind is found again between the parentheses of an interpolation,
and what is found between them is of this kind if it can be cut into tokens at all (`interpolations_agree`).
-/

namespace DefTable

open Text Token Grammar Enclosure

namespace Token

/-! ## Sources that are skipped -/

/-- The last comment of a source is not ended by a line feed. -/
def EndsInComment (source : String) : Prop :=
  ∃ base ls, Covers true base source.toList ls

/-- **A source leads back into the interpolation around it** just when its parentheses are balanced and it does not end
inside of a comment. -/
theorem leadsBack_iff {source : String} {base : Nat} {ls : Lexemes} (h : scan source base = .ok ls) :
    Enclosure.after [.interpolation 0 0] source.toList = [.interpolation 0 0] ↔
      opened 0 ls = some 0 ∧ ¬ EndsInComment source := by
  have hcovers : ∀ {unfinished offset ls}, Covers unfinished offset source.toList ls →
      (Enclosure.after [.interpolation 0 0] source.toList = [.interpolation 0 0] ↔
        opened 0 ls = some 0 ∧ unfinished = false) := by
    intro unfinished offset ls hcovers
    rw [hcovers.after]
    cases opened 0 ls <;> cases unfinished <;> simp
  obtain ⟨unfinished, hcover⟩ := Covers.of_scanFrom ⟨base, source.toList⟩ h
  constructor
  · intro hback
    refine ⟨((hcovers hcover).1 hback).1, ?_⟩
    rintro ⟨_, _, hcomment⟩
    cases ((hcovers hcomment).1 hback).2
  · rintro ⟨hbalanced, hcomment⟩
    refine (hcovers hcover).2 ⟨hbalanced, ?_⟩
    cases unfinished with
    | false => rfl
    | true => exact absurd ⟨base, ls, hcover⟩ hcomment

/-- A source that leads back is found again between the parentheses of an interpolation. -/
theorem scan_interpolation {source : String}
    (h : Enclosure.after [.interpolation 0 0] source.toList = [.interpolation 0 0]) (base : Nat) :
    scan ("\"\\(" ++ source ++ ")\"") base =
      .ok [⟨.str [.interpolation source (base + 3)], base⟩, ⟨.eof, base + 5 + byteLength source.toList⟩] := by
  obtain ⟨offset, hescape⟩ := readEscape_interpolation h base (base + 1) ['"']
  have hclose : readPieces base offset ['"'] = .ok ([], ⟨offset + 1, []⟩) := by rw [readPieces]
  have hpieces := readPieces_escape hescape hclose
  have hend : offset + 1 = base + 5 + byteLength source.toList := by
    have hfinish := finish_readPieces _ _ _ hpieces
    have hsizes : ('\\' : Char).utf8Size = 1 ∧ ('(' : Char).utf8Size = 1 ∧ (')' : Char).utf8Size = 1 ∧
        ('"' : Char).utf8Size = 1 := by decide
    simp only [Cursor.finish_mk, byteLength_cons, byteLength_append, byteLength_nil, hsizes] at hfinish
    omega
  have htext : ("\"\\(" ++ source ++ ")\"").toList = '"' :: '\\' :: '(' :: (source.toList ++ ')' :: ['"']) := by simp
  rw [scan, htext, scanFrom_quote_iff]
  refine ⟨_, _, _, hpieces, scanFrom_nil _, ?_⟩
  rw [hend, String.ofList_toList]
  rfl

/-! ## Interpolations of a source -/

/-- From an offset on, a text has an interpolation that starts at another one: a source that leads back into the
interpolation, between its parentheses. -/
def Interpolated (offset : Nat) (text inner : List Char) (start : Nat) : Prop :=
  ∃ front back, text = front ++ '\\' :: '(' :: (inner ++ ')' :: back) ∧ start = offset + byteLength front + 2 ∧
    Enclosure.after [.interpolation 0 0] inner = [.interpolation 0 0]

theorem Interpolated.behind {offset start : Nat} {front text inner : List Char}
    (h : Interpolated (offset + byteLength front) text inner start) (back : List Char) :
    Interpolated offset (front ++ (text ++ back)) inner start := by
  obtain ⟨front', back', rfl, rfl, hback⟩ := h
  refine ⟨front ++ front', back' ++ back, by simp, ?_, hback⟩
  rw [byteLength_append, Nat.add_assoc offset]

theorem interpolation_of_readEscape {quote offset : Nat} {cs : List Char} {source : String} {start : Nat}
    {next : Cursor} (h : readEscape quote offset cs = .ok (.interpolation source start, next)) :
    cs = '(' :: (source.toList ++ ')' :: next.rest) ∧ start = offset + 2 ∧
      Enclosure.after [.interpolation 0 0] source.toList = [.interpolation 0 0] := by
  unfold readEscape at h
  split at h
  · cases h
  · split at h <;> cases h
  · split at h
    · next hskip =>
      cases h
      obtain ⟨rfl, hback⟩ := interpolation_of_skipEnclosed hskip
      rw [String.toList_ofList]
      exact ⟨rfl, rfl, hback⟩
    · cases h
  · split at h <;> cases h

/-- What is read as an escape moves the offset by the bytes it takes, the backslash among them. -/
theorem offset_of_readEscape {quote offset : Nat} {text : List Char} {piece : Piece} {next : Cursor}
    (h : readEscape quote offset (text ++ next.rest) = .ok (piece, next)) :
    next.offset = offset + byteLength ('\\' :: text) := by
  have hfinish := finish_readEscape h
  rw [← List.cons_append, byteLength_append, Cursor.finish] at hfinish
  omega

theorem interpolated_of_readPieces {quote offset : Nat} {cs : List Char} {pieces : List Piece} {next : Cursor}
    (h : readPieces quote offset cs = .ok (pieces, next)) {source : String} {start : Nat}
    (hmem : .interpolation source start ∈ pieces) : Interpolated offset cs source.toList start := by
  fun_induction readPieces quote offset cs generalizing pieces next with
  | case1 => cases h
  | case2 =>
    cases h
    cases hmem
  | case3 => cases h
  | case4 => cases h
  | case5 offset cs piece next₁ hesc pieces₁ last hrest ih =>
    cases h
    rcases List.mem_cons.1 hmem with rfl | hmem
    · obtain ⟨rfl, rfl, hback⟩ := interpolation_of_readEscape hesc
      exact ⟨[], next₁.rest, rfl, rfl, hback⟩
    · obtain ⟨text, rfl, -⟩ := StringBody.of_readEscape hesc
      have hlater := ih hrest hmem
      rw [offset_of_readEscape hesc] at hlater
      simpa using hlater.behind []
  | case6 => cases h
  | case7 offset c cs hquote hback pieces₁ last hrest ih =>
    cases h
    rcases List.mem_cons.1 hmem with hpiece | hmem
    · cases hpiece
    · have hlater : Interpolated (offset + byteLength [c]) cs source.toList start := ih hrest hmem
      simpa using hlater.behind []

/-- An interpolation of a string stands in the lexeme of the string. -/
theorem IsLexeme.interpolated {parts : List StringPart} {offset : Nat} {text : List Char}
    (h : IsLexeme (.str parts) offset text) {source : String} {start : Nat}
    (hpart : .interpolation source start ∈ parts) : Interpolated offset text source.toList start := by
  obtain ⟨body, rfl, -⟩ := h.spelled
  have hscan := h.alone
  rw [scan, String.toList_ofList, scanFrom_quote_iff] at hscan
  obtain ⟨pieces, next, ls, hpieces, -, hls⟩ := hscan
  cases hls
  have hinner : Interpolated (offset + byteLength ['"']) (body ++ ['"']) source.toList start :=
    interpolated_of_readPieces hpieces (interpolation_mem_partsOf.1 hpart)
  simpa using hinner.behind []

theorem Covers.mem {unfinished : Bool} {offset : Nat} {cs : List Char} {ls : List Lexeme}
    (h : Covers unfinished offset cs ls) {t : Token} {o : Nat} (hl : ⟨t, o⟩ ∈ ls) (ht : t ≠ .eof) :
    ∃ front text back, cs = front ++ (text ++ back) ∧ o = offset + byteLength front ∧ IsLexeme t o text := by
  induction h with
  | finish h =>
    cases List.mem_singleton.1 hl
    exact absurd rfl ht
  | @lexeme offset gap text rest t' ls hgap htext _ ih =>
    rcases List.mem_cons.1 hl with heq | hl
    · cases heq
      exact ⟨gap, text, rest, rfl, rfl, htext⟩
    · obtain ⟨front, text', back, rfl, rfl, htext'⟩ := ih hl
      refine ⟨gap ++ (text ++ front), text', back, by simp, ?_, htext'⟩
      simp only [byteLength_append, Nat.add_assoc]

/-- A source that is between the parentheses of an interpolation of a string of another one, and its offset. -/
inductive Inside : String → Nat → String → Nat → Prop where
  | part {source inner : String} {base o start : Nat} {ls : List Lexeme} {parts : List StringPart}
      (hscan : scan source base = .ok ls) (hl : ⟨.str parts, o⟩ ∈ ls) (hpart : .interpolation inner start ∈ parts) :
      Inside source base inner start
  /-- At any depth. -/
  | deeper {source middle inner : String} {base o start start' : Nat} {ls : List Lexeme} {parts : List StringPart}
      (hscan : scan source base = .ok ls) (hl : ⟨.str parts, o⟩ ∈ ls) (hpart : .interpolation middle start ∈ parts)
      (h : Inside middle start inner start') : Inside source base inner start'

theorem interpolated_of_scan {source inner : String} {base o start : Nat} {ls : List Lexeme} {parts : List StringPart}
    (hscan : scan source base = .ok ls) (hl : ⟨.str parts, o⟩ ∈ ls) (hpart : .interpolation inner start ∈ parts) :
    Interpolated base source.toList inner.toList start := by
  obtain ⟨unfinished, hcovers⟩ := Covers.of_scanFrom ⟨base, source.toList⟩ hscan
  obtain ⟨front, text, back, hsource, rfl, htext⟩ := hcovers.mem hl nofun
  have hsource : source.toList = front ++ (text ++ back) := hsource
  rw [hsource]
  exact (htext.interpolated hpart).behind back

theorem Inside.interpolated {source inner : String} {base start : Nat} (h : Inside source base inner start) :
    Interpolated base source.toList inner.toList start := by
  induction h with
  | part hscan hl hpart => exact interpolated_of_scan hscan hl hpart
  | @deeper source middle inner base o start start' ls parts hscan hl hpart _ ih =>
    obtain ⟨front, back, hsource, rfl, -⟩ := interpolated_of_scan hscan hl hpart
    have hbytes : base + byteLength front + 2 = base + byteLength (front ++ ['\\', '(']) := by
      rw [byteLength_append, ← Nat.add_assoc]
      rfl
    rw [hbytes] at ih
    rw [hsource]
    simpa using ih.behind (')' :: back)

end Token

/-- **Interpolations are cut out of strings as they are cut into tokens.** A source with balanced parentheses that does
not end inside of a comment is the one interpolation of the string around it, wherever this stands. And every
interpolation of a source, at any depth, stands in it at its offset, between its backslash and parenthesis and the
closing one; if it can be cut into tokens, its parentheses are balanced and it does not end inside of a comment. -/
theorem interpolations_agree :
    (∀ {source base₀ ls}, scan source base₀ = .ok ls → opened 0 ls = some 0 → ¬ EndsInComment source → ∀ base,
      scan ("\"\\(" ++ source ++ ")\"") base =
        .ok [⟨.str [.interpolation source (base + 3)], base⟩, ⟨.eof, base + 5 + byteLength source.toList⟩]) ∧
    ∀ {source base inner start}, Inside source base inner start →
      (∃ front back, source = front ++ "\\(" ++ inner ++ ")" ++ back ∧ start = base + byteLength front.toList + 2) ∧
        ∀ {base₀ ls}, scan inner base₀ = .ok ls → opened 0 ls = some 0 ∧ ¬ EndsInComment inner := by
  constructor
  · intro source base₀ ls hscan hbalanced hcomment base
    exact scan_interpolation ((leadsBack_iff hscan).2 ⟨hbalanced, hcomment⟩) base
  · intro source base inner start h
    obtain ⟨front, back, hsource, hstart, hback⟩ := h.interpolated
    refine ⟨⟨String.ofList front, String.ofList back, ?_, ?_⟩, fun hscan => (leadsBack_iff hscan).1 hback⟩
    · rw [← String.toList_inj, hsource]
      simp
    · rwa [String.toList_ofList]

/-- Parentheses in strings and comments count for nothing, and an interpolation can be in another one. -/
theorem interpolations_agree_nested :
    scan ("\"\\(" ++ "f(\")\" + \"\\(g(1))\") # )\n" ++ ")\"") 0 =
      .ok [⟨.str [.interpolation "f(\")\" + \"\\(g(1))\") # )\n" 3], 0⟩, ⟨.eof, 28⟩] ∧
    ∃ front back, "\"a\\(\"\\(.b)\")\"" = front ++ "\\(" ++ ".b" ++ ")" ++ back ∧
      7 = 0 + byteLength front.toList + 2 := by
  constructor
  · have hscan : (scan "f(\")\" + \"\\(g(1))\") # )\n" 0).toOption.map (opened 0) = some (some 0) := by decide +kernel
    obtain ⟨ls, hls, hbalanced⟩ := Option.map_eq_some_iff.1 hscan
    have hscan := ok_of_toOption hls
    have hcomment := ((leadsBack_iff hscan).1 (by decide +kernel)).2
    exact interpolations_agree.1 hscan hbalanced hcomment 0
  · have houter : (scan "\"a\\(\"\\(.b)\")\"" 0).toOption =
        some [⟨.str [.literal "a", .interpolation "\"\\(.b)\"" 4], 0⟩, ⟨.eof, 13⟩] := by decide +kernel
    have hinner : (scan "\"\\(.b)\"" 4).toOption = some [⟨.str [.interpolation ".b" 7], 4⟩, ⟨.eof, 11⟩] := by
      decide +kernel
    have hmiddle : Inside "\"\\(.b)\"" 4 ".b" 7 :=
      .part (ok_of_toOption hinner) List.mem_cons_self List.mem_cons_self
    have hinside : Inside "\"a\\(\"\\(.b)\")\"" 0 ".b" 7 :=
      .deeper (ok_of_toOption houter) List.mem_cons_self (List.mem_cons_of_mem _ List.mem_cons_self) hmiddle
    exact (interpolations_agree.2 hinside).1

end DefTable
