import DefTable.Proofs.Interpolations
import DefTable.Proofs.Places
import DefTable.Proofs.SpacedScan

/-!
# Cutting a changed source into tokens

A source that is changed from some token on is cut into the same tokens in front of it (`Token.LeadsTo`), and with one
interpolation replaced it is cut into the same tokens but for this interpolation and the offsets behind it
(`Token.scan_replaced`).
-/

namespace DefTable

open Text Token Grammar Enclosure

namespace Token

/-! ## In front of a change -/

/-- What is read as a token is read again, to the same offset, in front of anything that looks the same. -/
theorem again_of_read {offset : Nat} {c : Char} {cs : List Char} {t : Token} {next : Cursor}
    (h : read offset c cs = .ok (t, next)) :
    isBlank c = false ∧ c ≠ '#' ∧ ∃ ds, cs = ds ++ next.rest ∧ IsLexeme t offset (c :: ds) ∧
      ∀ rest, Ahead next.rest rest →
        Ahead (c :: cs) (c :: (ds ++ rest)) ∧ read offset c (ds ++ rest) = .ok (t, ⟨next.offset, rest⟩) := by
  obtain ⟨text, hcs, htext⟩ := lexeme_of_read h
  by_cases hquote : c = '"'
  · subst hquote
    obtain ⟨body, hbody, -, hagain⟩ := StringBody.of_readString (h : readString offset cs = .ok (t, next))
    have hcut : text = '"' :: (body ++ ['"']) := by
      refine List.append_cancel_right (hcs.symm.trans ?_)
      rw [hbody]
      simp
    subst hcut
    refine ⟨rfl, by decide, body ++ ['"'], List.tail_eq_of_cons_eq hcs, htext, fun rest _ => ⟨.quote, ?_⟩⟩
    rw [List.append_assoc]
    exact hagain rest
  · have hself := Ahead.append stops_nil next.rest
    rw [List.append_nil] at hself
    obtain ⟨hspelling, hreads⟩ := readsAs_of_read h hquote hself
    obtain rfl : text = t.spelling.toList := List.append_cancel_right (hcs.symm.trans hspelling)
    have hoffset := offset_of_read h hcs
    have hplain : t.isPlain = true := by
      obtain ⟨_, _, htoken, -⟩ := hreads
      cases t <;> first | rfl | cases htoken
    have hagain : ∀ rest, Ahead next.rest rest → Ahead (c :: cs) (t.spelling.toList ++ rest) ∧
        ReadsAs t t.spelling.toList rest := by
      intro rest hrest
      rw [hcs]
      exact ⟨hreads.ahead hplain hrest, (hreads.again hplain hrest).2.2⟩
    obtain ⟨d, ds, htoken, hblank, hcomment, -⟩ := hreads
    rw [htoken] at hcs htext hagain hoffset
    cases hcs
    refine ⟨hblank, hcomment, ds, rfl, htext, fun rest hrest => ⟨(hagain rest hrest).1, ?_⟩⟩
    obtain ⟨_, _, heq, -, -, hread⟩ := (hagain rest hrest).2
    cases heq
    rw [hoffset]
    exact hread offset

theorem IsGap.scanFrom {gap : List Char} (h : IsGap gap) (offset : Nat) (rest : List Char) :
    scanFrom ⟨offset, gap ++ rest⟩ = Token.scanFrom ⟨offset + byteLength gap, rest⟩ := by
  obtain ⟨offset', hskip⟩ := h.skipTrivia rest offset
  have hoffset : offset' = offset + byteLength gap := by
    have hfinish := finish_skipTrivia false offset (gap ++ rest)
    rw [hskip, finish_skipTrivia, byteLength_append] at hfinish
    omega
  rw [scanFrom_eq, scanFrom_eq, hskip, hoffset]

/-- From an offset on, a text is cut into some tokens, and then anything comes next that looks the same as `rest`. -/
structure LeadsTo (offset : Nat) (before : List Char) (front : Lexemes) (rest : List Char) : Prop where
  cut {rest' : List Char} : Ahead rest rest' →
    scanFrom ⟨offset, before ++ rest'⟩ = (scanFrom ⟨offset + byteLength before, rest'⟩).map (front ++ ·)
  ahead {rest' : List Char} : Ahead rest rest' → Ahead (before ++ rest) (before ++ rest')
  /-- It leads to the innermost interpolation around it, or out of all of them. -/
  after (d : Nat) :
    after [.interpolation d 0] before = [] ∨ ∃ d', after [.interpolation d 0] before = [.interpolation d' 0]

namespace LeadsTo

theorem gap {gap : List Char} (h : IsGap gap) (offset : Nat) (rest : List Char) : LeadsTo offset gap [] rest := by
  refine ⟨fun {rest'} _ => ?_, fun {rest'} hrest => ?_, fun d => .inr ⟨d, after_isGap h d []⟩⟩
  · rw [h.scanFrom]
    cases scanFrom ⟨offset + byteLength gap, rest'⟩ <;> rfl
  · rcases h.eq_nil_or_stops rest' with rfl | hstops
    · exact hrest
    · exact .stops hstops

/-- A token that is read in front of what leads further on. -/
theorem cons {offset : Nat} {gap before rest : List Char} {c : Char} {cs : List Char} {t : Token} {next : Cursor}
    {front : Lexemes} (hgap : IsGap gap) (hread : read (offset + byteLength gap) c cs = .ok (t, next))
    (hnext : next.rest = before ++ rest) (h : LeadsTo next.offset before front rest) :
    ∃ text, c :: cs = text ++ next.rest ∧
      LeadsTo offset (gap ++ (text ++ before)) (⟨t, offset + byteLength gap⟩ :: front) rest := by
  obtain ⟨hblank, hcomment, ds, rfl, htext, hagain⟩ := again_of_read hread
  have htaken : c :: (ds ++ next.rest) = c :: ds ++ next.rest := rfl
  have hoffset := offset_of_read hread htaken
  rw [hnext] at hagain
  refine ⟨c :: ds, rfl, fun {rest'} hrest => ?_, fun {rest'} hrest => ?_, fun d => ?_⟩
  · have hread' := (hagain _ (h.ahead hrest)).2
    have hbytes : offset + byteLength (gap ++ (c :: ds ++ before)) = next.offset + byteLength before := by
      rw [hoffset, byteLength_append, byteLength_append]
      omega
    rw [List.append_assoc, List.append_assoc, hgap.scanFrom, List.cons_append, scanFrom_read hblank hcomment hread',
      h.cut hrest, hbytes]
    cases scanFrom ⟨next.offset + byteLength before, rest'⟩ <;> rfl
  · have hahead := (hagain _ (h.ahead hrest)).1
    have hgapAhead := (LeadsTo.gap hgap offset _).ahead hahead
    simpa using hgapAhead
  · rw [after_append, after_isGap hgap, after_append, htext.after]
    cases Wording.nest d t with
    | none => exact .inl (nil_after before)
    | some d' => exact h.after d'

/-- In front of every token but the last one, the tokens before it have been read. -/
theorem of_scanFrom (cursor : Cursor) {ls : Lexemes} (h : scanFrom cursor = .ok ls) {l : Lexeme} (hl : l ∈ ls)
    (hne : l.token ≠ .eof) : ∃ before c cs front back next, cursor.rest = before ++ c :: cs ∧
      l.offset = cursor.offset + byteLength before ∧ ls = front ++ l :: back ∧
      read l.offset c cs = .ok (l.token, next) ∧ scanFrom next = .ok back ∧
      LeadsTo cursor.offset before front (c :: cs) := by
  fun_induction scanFrom cursor generalizing ls with
  | case1 cursor offset htrivia =>
    cases h
    cases List.mem_singleton.1 hl
    exact absurd rfl hne
  | case2 => cases h
  | case3 => cases h
  | case4 cursor offset c cs htrivia t next hread ls₁ hrest ih =>
    cases h
    obtain ⟨gap, hcursor, hgap, rfl⟩ := gap_of_skipTrivia htrivia
    rcases List.mem_cons.1 hl with rfl | hl
    · exact ⟨gap, c, cs, [], ls₁, next, hcursor, rfl, rfl, hread, hrest, .gap hgap _ _⟩
    · obtain ⟨before, d, ds, front, back, last, hnext, hoffset, rfl, hread', hback, hleads⟩ := ih hrest hl
      obtain ⟨text, hcs, hall⟩ := hleads.cons hgap hread hnext
      refine ⟨_, d, ds, _, back, last, ?_, ?_, rfl, hread', hback, hall⟩
      · rw [hcursor, hcs, hnext]
        simp
      · rw [hoffset, offset_of_read hread hcs, byteLength_append, byteLength_append]
        omega

theorem of_scan {source : String} {base : Nat} {ls : Lexemes} (h : scan source base = .ok ls) {l : Lexeme} (hl : l ∈ ls)
    (hne : l.token ≠ .eof) : ∃ before c cs front back next, source.toList = before ++ c :: cs ∧
      l.offset = base + byteLength before ∧ ls = front ++ l :: back ∧ read l.offset c cs = .ok (l.token, next) ∧
      scanFrom next = .ok back ∧ LeadsTo base before front (c :: cs) :=
  of_scanFrom ⟨base, source.toList⟩ h hl hne

/-- In a string that comes next, the innermost enclosure is this string. -/
theorem after_body {offset : Nat} {before rest body : List Char} {front : Lexemes}
    (h : LeadsTo offset before front rest) (hbody : StringBody body) (d : Nat) :
    Enclosure.after [.interpolation d 0] (before ++ '"' :: body) = [] ∨
      ∃ d', Enclosure.after [.interpolation d 0] (before ++ '"' :: body) = [.string 0, .interpolation d' 0] := by
  have hopen (d' : Nat) : step 0 '"' [.interpolation d' 0] = [.string 0, .interpolation d' 0] := rfl
  rw [after_append]
  rcases h.after d with hafter | ⟨d', hafter⟩
  · rw [hafter]
    exact .inl (nil_after _)
  · rw [hafter, after_cons, hopen, hbody.after]
    exact .inr ⟨d', rfl⟩

end LeadsTo

/-! ## A sign that is taken apart -/

/-- With a blank in it, the sign is a question mark and an operator, unless an equals sign goes on with the operator. -/
theorem scanFrom_sign {offset : Nat} {behind : List Char} {back : Lexemes}
    (hback : scanFrom ⟨offset + 3, behind⟩ = .ok back) (h : behind.head? ≠ some '=') :
    scanFrom ⟨offset, '?' :: ' ' :: '/' :: '/' :: behind⟩ =
      .ok (⟨.question, offset⟩ :: ⟨.op .alt, offset + 2⟩ :: back.map (.shift 1)) := by
  have hquestion : read offset '?' (' ' :: '/' :: '/' :: behind) = .ok (.question, ⟨offset + 1, _⟩) :=
    read_question offset fun _ => nofun
  have hsplit : splitOperator? ('/' :: '/' :: behind) = some (.alt, behind) := by
    cases behind with
    | nil => rfl
    | cons c behind =>
      have hc : c ≠ '=' := fun hc => h (congrArg some hc)
      simp [splitOperator?, hc]
  have hbehind := scanFrom_shift (k := 1) ⟨offset + 3, behind⟩
  rw [hback] at hbehind
  have hoperator : read (offset + 2) '/' ('/' :: behind) = .ok (.op .alt, ⟨offset + 3 + 1, behind⟩) :=
    read_operator hsplit
  have hslashes := scanFrom_cons rfl (by decide) hoperator hbehind
  refine scanFrom_cons rfl (by decide) hquestion ?_
  rw [scanFrom_blank]
  exact hslashes

/-- A source with a sign `?//`, and the source with a blank in the sign. -/
theorem scan_sign {source : String} {base : Nat} {ls : Lexemes} {before behind : List Char}
    (hscan : scan source base = .ok ls) (hsource : source.toList = before ++ '?' :: '/' :: '/' :: behind)
    (hl : ⟨.alternative, base + byteLength before⟩ ∈ ls) (hbehind : behind.head? ≠ some '=') :
    ∃ front back, ls = front ++ ⟨.alternative, base + byteLength before⟩ :: back ∧
      scan (String.ofList (before ++ '?' :: ' ' :: '/' :: '/' :: behind)) base =
        .ok (front ++ ⟨.question, base + byteLength before⟩ :: ⟨.op .alt, base + byteLength before + 2⟩ ::
          back.map (.shift 1)) ∧
      ∀ d, Enclosure.after [.interpolation d 0] (before ++ '?' :: ' ' :: '/' :: '/' :: behind) =
        Enclosure.after [.interpolation d 0] source.toList := by
  obtain ⟨before', c, cs, front, back, next, hcut, hoffset, hls, hread, hback, hleads⟩ := LeadsTo.of_scan hscan hl nofun
  obtain ⟨rfl, hcs⟩ := eq_of_byteLength_eq (hcut.symm.trans hsource) (Nat.add_left_cancel hoffset).symm
  cases hcs
  obtain rfl : next = ⟨base + byteLength before' + 3, behind⟩ := (Prod.mk.inj (Except.ok.inj hread)).2.symm
  have hahead : Ahead ('?' :: '/' :: '/' :: behind) ('?' :: ' ' :: '/' :: '/' :: behind) :=
    .char (fun hc => absurd hc (by decide)) (.stops (stops_blank _))
  refine ⟨front, back, hls, ?_, fun d => ?_⟩
  · rw [scan, String.toList_ofList, hleads.cut hahead, scanFrom_sign hback hbehind]
    rfl
  · rw [hsource, after_append, after_append]
    rcases hleads.after d with hafter | ⟨d', hafter⟩
    · rw [hafter, nil_after, nil_after]
    · rw [hafter]
      rfl

/-! ## An interpolation that is replaced -/

/-- The rest of a string is read at another offset, with its interpolations moved. -/
theorem readPieces_moved {quote offset : Nat} {cs : List Char} {pieces : List Piece} {next : Cursor}
    (h : readPieces quote offset cs = .ok (pieces, next)) (k : Nat) :
    readPieces quote (offset + k) cs = .ok (pieces.map (.shift k), next.shift k) := by
  have hshift := readPieces_shift (k := k) quote offset cs
  rw [h] at hshift
  obtain ⟨text, hcs, -, hagain⟩ := StringBody.of_readPieces hshift
  rw [hcs]
  exact hagain quote _

theorem startsCodePoint_open (text rest rest' : List Char) :
    startsCodePoint (text ++ '\\' :: '(' :: rest) = startsCodePoint (text ++ '\\' :: '(' :: rest') := by
  rcases text with - | ⟨a, - | ⟨b, text⟩⟩ <;> simp [startsCodePoint]

section
variable {inner inner' : String} {start k : Nat}
  (hinner' : Enclosure.after [.interpolation 0 0] inner'.toList = [.interpolation 0 0])
  (hk : byteLength inner'.toList = byteLength inner.toList + k)
include hinner' hk

theorem readEscape_replaced {quote offset : Nat} {cs : List Char} {next : Cursor}
    (h : readEscape quote offset cs = .ok (.interpolation inner start, next)) :
    readEscape quote offset ('(' :: (inner'.toList ++ ')' :: next.rest)) =
      .ok (.interpolation inner' start, next.shift k) := by
  obtain ⟨rfl, rfl, -⟩ := interpolation_of_readEscape h
  obtain ⟨offset', hread⟩ := readEscape_interpolation hinner' quote offset next.rest
  have hoffset : offset' = next.offset + k := by
    have hfinish := finish_readEscape h
    have hfinish' := finish_readEscape hread
    simp only [Cursor.finish, byteLength_append, byteLength_cons] at hfinish hfinish'
    omega
  rw [hread, String.ofList_toList, hoffset]
  rfl

theorem readPieces_replaced {quote offset : Nat} {cs : List Char} {pieces : List Piece} {next : Cursor}
    (h : readPieces quote offset cs = .ok (pieces, next)) (hmem : .interpolation inner start ∈ pieces) :
    ∃ front back as bs, cs = front ++ '\\' :: '(' :: (inner.toList ++ ')' :: back) ∧
      start = offset + byteLength front + 2 ∧ StringBody front ∧ pieces = as ++ .interpolation inner start :: bs ∧
      readPieces quote offset (front ++ '\\' :: '(' :: (inner'.toList ++ ')' :: back)) =
        .ok (as ++ .interpolation inner' start :: bs.map (.shift k), next.shift k) := by
  fun_induction readPieces quote offset cs generalizing pieces next with
  | case1 => cases h
  | case2 =>
    cases h
    cases hmem
  | case3 => cases h
  | case4 => cases h
  | case5 offset cs piece next₁ hesc pieces₁ last hrest ih =>
    cases h
    rcases List.mem_cons.1 hmem with rfl | hmem
    · have hesc' := readEscape_replaced hinner' hk hesc
      obtain ⟨rfl, rfl, -⟩ := interpolation_of_readEscape hesc
      exact ⟨[], next₁.rest, [], pieces₁, rfl, rfl, .nil, rfl, readPieces_escape hesc' (readPieces_moved hrest k)⟩
    · obtain ⟨text, rfl, htext, hagain⟩ := StringBody.of_readEscape hesc
      obtain ⟨front, back, as, bs, hnext, rfl, hfront, rfl, hread⟩ := ih hrest hmem
      have hesc' := hagain quote (front ++ '\\' :: '(' :: (inner'.toList ++ ')' :: back)) (by
        rw [hnext]
        exact startsCodePoint_open _ _ _)
      have hall := readPieces_escape hesc' hread
      refine ⟨'\\' :: text ++ front, back, piece :: as, bs, by rw [hnext]; simp, ?_, htext.append hfront, rfl, ?_⟩
      · rw [offset_of_readEscape hesc, byteLength_append]
        omega
      · simpa using hall
  | case6 => cases h
  | case7 offset c cs hquote hback pieces₁ last hrest ih =>
    cases h
    rcases List.mem_cons.1 hmem with hpiece | hmem
    · cases hpiece
    · obtain ⟨front, back, as, bs, rfl, rfl, hfront, rfl, hread⟩ := ih hrest hmem
      refine ⟨c :: front, back, .char c :: as, bs, rfl, ?_, .char hquote hback hfront, rfl,
        readPieces_char hquote hback hread⟩
      rw [byteLength_cons]
      omega

/-- A string that comes next. -/
theorem scanFrom_replaced {offset : Nat} {cs : List Char} {parts : List StringPart} {next : Cursor} {back : Lexemes}
    (hread : readString offset cs = .ok (.str parts, next)) (hback : scanFrom next = .ok back)
    (hpart : .interpolation inner start ∈ parts) :
    ∃ body behind as bs, cs = body ++ '\\' :: '(' :: (inner.toList ++ ')' :: behind) ∧
      start = offset + 1 + byteLength body + 2 ∧ StringBody body ∧
      parts = partsOf (as ++ .interpolation inner start :: bs) ∧
      scanFrom ⟨offset, '"' :: (body ++ '\\' :: '(' :: (inner'.toList ++ ')' :: behind))⟩ =
        .ok (⟨.str (partsOf (as ++ .interpolation inner' start :: bs.map (.shift k))), offset⟩ ::
          back.map (.shift k)) := by
  unfold readString at hread
  split at hread
  · next pieces _ hpieces =>
    cases hread
    obtain ⟨body, behind, as, bs, rfl, hstart, hbody, rfl, hreplaced⟩ :=
      readPieces_replaced hinner' hk hpieces (interpolation_mem_partsOf.1 hpart)
    have hbehind := scanFrom_shift (k := k) next
    rw [hback] at hbehind
    exact ⟨body, behind, as, bs, rfl, hstart, hbody, rfl, scanFrom_quote_iff.2 ⟨_, _, _, hreplaced, hbehind, rfl⟩⟩
  · cases hread

/-- A source with an interpolation, and the source with another one in its place. -/
theorem scan_replaced {source : String} {base o : Nat} {ls : Lexemes} {parts : List StringPart}
    {before behind : List Char} (hscan : scan source base = .ok ls) (hl : ⟨.str parts, o⟩ ∈ ls)
    (hpart : .interpolation inner start ∈ parts)
    (hsource : source.toList = before ++ '\\' :: '(' :: (inner.toList ++ ')' :: behind))
    (hstart : start = base + byteLength before + 2) :
    ∃ front back as bs, ls = front ++ ⟨.str (partsOf (as ++ .interpolation inner start :: bs)), o⟩ :: back ∧
      scan (String.ofList (before ++ '\\' :: '(' :: (inner'.toList ++ ')' :: behind))) base =
        .ok (front ++ ⟨.str (partsOf (as ++ .interpolation inner' start :: bs.map (.shift k))), o⟩ ::
          back.map (.shift k)) ∧
      ∀ d, Enclosure.after [.interpolation d 0] (before ++ '\\' :: '(' :: (inner'.toList ++ ')' :: behind)) =
        Enclosure.after [.interpolation d 0] source.toList := by
  obtain ⟨-, -, -, -, hinner⟩ := interpolated_of_scan hscan hl hpart
  obtain ⟨lead, c, cs, front, back, next, hcut, hoffset, rfl, hread, hback, hleads⟩ := LeadsTo.of_scan hscan hl nofun
  obtain rfl : o = base + byteLength lead := hoffset
  obtain rfl : c = '"' := by
    obtain ⟨text, hcs, htext⟩ := lexeme_of_read hread
    obtain ⟨body, rfl, -⟩ := htext.spelled
    exact (List.cons.inj hcs).1
  have hstring : readString (base + byteLength lead) cs = .ok (.str parts, next) := hread
  obtain ⟨body, behind', as, bs, rfl, hinside, hbody, rfl, hreplaced⟩ :=
    scanFrom_replaced hinner' hk hstring hback hpart
  -- the interpolation is the one that the source is cut at
  have hsame : (lead ++ '"' :: body) ++ '\\' :: '(' :: (inner.toList ++ ')' :: behind') =
      before ++ '\\' :: '(' :: (inner.toList ++ ')' :: behind) := by
    rw [← hsource, hcut]
    simp
  have hquote : ('"' : Char).utf8Size = 1 := rfl
  obtain ⟨rfl, hrest⟩ := eq_of_byteLength_eq hsame (by rw [byteLength_append, byteLength_cons, hquote]; omega)
  obtain rfl : behind' = behind := by simpa using hrest
  refine ⟨front, back, as, bs, rfl, ?_, fun d => ?_⟩
  · have hahead : Ahead ('"' :: (body ++ '\\' :: '(' :: (inner.toList ++ ')' :: behind')))
        ('"' :: (body ++ '\\' :: '(' :: (inner'.toList ++ ')' :: behind'))) := .quote
    rw [scan, String.toList_ofList, List.append_assoc, List.cons_append, hleads.cut hahead, hreplaced]
    rfl
  · have hfront (rest : List Char) : Enclosure.after [.interpolation d 0] (lead ++ '"' :: body ++ rest) =
        Enclosure.after (Enclosure.after [.interpolation d 0] (lead ++ '"' :: body)) rest := after_append _ _ _
    rw [hsource, hfront, hfront]
    rcases hleads.after_body hbody d with hafter | ⟨d', hafter⟩
    · rw [hafter, nil_after, nil_after]
    · rw [hafter, after_splice hinner', after_splice hinner]

end

end Token
end DefTable
