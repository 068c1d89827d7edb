import DefTable.Proofs.ByteSkipping
import DefTable.Proofs.Enclosures
import DefTable.Proofs.OffsetShift
import DefTable.Proofs.Progress

/-!
# Reading tokens byte by byte

Reading a source byte by byte and reading it character by character are the same (`Bytewise.scan_eq`): the same tokens
at the same offsets, or the same fault. So the bytes at which a source is cut are places of it, and with the positions of
the tokens within the tokens nothing that reads a source comes to a halt by accident (`Bytewise.never_crashes`).
-/

namespace DefTable

open Text Token

namespace Bytewise

/-- A reading by bytes ends as one by characters. -/
inductive Follows (text : List Char) (base : Nat) {α : Type} :
    Except Crash (α × Nat) → Except SyntaxError (α × Cursor) → Prop where
  | fault (e : SyntaxError) : Follows text base (.error (.fault e.diagnostic)) (.error e)
  | ok {a : α} {pos : Nat} {rest : List Char} (h : At text pos rest) :
      Follows text base (.ok (a, pos)) (.ok (a, ⟨base + pos, rest⟩))

theorem Follows.bind {text : List Char} {base : Nat} {α β : Type} {x : Except Crash (α × Nat)}
    {y : Except SyntaxError (α × Cursor)} (h : Follows text base x y) {f : α × Nat → Except Crash (β × Nat)}
    {g : α × Cursor → Except SyntaxError (β × Cursor)}
    (hf : ∀ a pos rest, At text pos rest → y = .ok (a, ⟨base + pos, rest⟩) →
      Follows text base (f (a, pos)) (g (a, ⟨base + pos, rest⟩))) :
    Follows text base (x >>= f) (y >>= g) := by
  cases h with
  | fault e => exact .fault e
  | ok h => exact hf _ _ _ h rfl

section
variable {text cs : List Char} {base n pos : Nat}

/-- Of two rests of a text the one with less characters has less bytes. -/
theorem At.byteLength_le {ds : List Char} {pos' : Nat} (h : At text pos cs) (h' : At text pos' ds)
    (hlength : ds.length ≤ cs.length) : byteLength ds ≤ byteLength cs := by
  obtain ⟨front, htext, -⟩ := h
  obtain ⟨front', htext', -⟩ := h'
  obtain ⟨taken, rfl⟩ := List.suffix_of_suffix_length_le ⟨front', htext'.symm⟩ ⟨front, htext.symm⟩ hlength
  rw [byteLength_append]
  exact Nat.le_add_left _ _

/-! ## Escapes -/

theorem At.hex4 (h : At text pos cs) {v : Nat} {rest : List Char} (hhex : hex4? cs = some (v, rest)) :
    At text (pos + 4) rest := by
  have hlength := byteLength_hex4? hhex
  obtain ⟨a, b, c, d, rfl, -⟩ := hex4?_eq_some hhex
  have hrest : At text pos ([a, b, c, d] ++ rest) := h
  have hfour : byteLength [a, b, c, d] = 4 := by
    have happend : byteLength ([a, b, c, d] ++ rest) = 4 + byteLength rest := hlength
    rw [byteLength_append] at happend
    omega
  exact hfour ▸ hrest.behind

/-- The checked slice of four bytes. -/
theorem hex4_eq (h : At text pos cs) : hex4 text pos = (hex4? cs).map Prod.fst := by
  unfold hex4
  cases hhex : hex4? cs with
  | none =>
    cases hslice : slice text pos (pos + 4) with
    | error e => rfl
    | ok ds =>
      obtain ⟨back, hat, -⟩ := slice_eq_ok_iff.1 hslice
      obtain rfl := h.eq hat
      cases hds : hex4? ds with
      | none => exact congrArg (Option.map Prod.fst) hds
      | some x =>
        obtain ⟨a, b, c, d, rfl, -, hall⟩ := hex4?_eq_some hds
        cases hhex.symm.trans (hall (x.2 ++ back))
  | some x =>
    obtain ⟨v, rest⟩ := x
    have hat := h.hex4 hhex
    obtain ⟨a, b, c, d, rfl, -, hall⟩ := hex4?_eq_some hhex
    have hslice : slice text pos (pos + 4) = .ok [a, b, c, d] := slice_between h hat
    rw [hslice]
    show (hex4? [a, b, c, d]).map Prod.fst = some v
    rw [hall []]
    rfl

theorem unicode_follows (h : At text pos cs) (start : Nat) :
    Follows text base (unicode text base start pos) (readUnicode (base + start) (base + pos) cs) := by
  rw [unicode, readUnicode, hex4_eq h]
  cases hhex : hex4? cs with
  | none => exact .fault _
  | some x =>
    obtain ⟨high, rest⟩ := x
    have hat := h.hex4 hhex
    dsimp only [Option.map_some]
    split
    · rw [sliceFrom_eq_ok_iff.2 hat]
      show Follows text base (if ['\\', 'u'].isPrefixOf rest then _ else _) _
      by_cases hsecond : ∃ cs', rest = '\\' :: 'u' :: cs'
      · obtain ⟨cs', rfl⟩ := hsecond
        have hat' : At text (pos + 6) cs' := (hat.next (by decide)).next (by decide)
        have hprefix : ['\\', 'u'].isPrefixOf ('\\' :: 'u' :: cs') = true := rfl
        rw [if_pos hprefix, hex4_eq hat']
        cases hlow : hex4? cs' with
        | none =>
          simp only [hlow]
          exact .fault _
        | some y =>
          simp only [hlow]
          exact .ok (hat'.hex4 hlow)
      · rw [if_neg]
        · split
          · next cs' => exact absurd ⟨cs', rfl⟩ hsecond
          · exact .ok hat
        · rw [List.isPrefixOf_iff_prefix]
          rintro ⟨cs', rfl⟩
          exact hsecond ⟨cs', rfl⟩
    · exact .ok hat

/-! ## Strings -/

theorem escape_other {d : Char} (h : peek text (pos + 1) = some d) (hu : d ≠ 'u') (hopen : d ≠ '(') (quote : Nat) :
    escape text base n quote pos =
      match shortEscape? d with
      | some c => .ok (.char c, pos + 2)
      | none =>
        .error (.fault (.unlocated ("invalid escape sequence \"\\" ++ String.singleton d ++ "\"") (base + pos))) := by
  rw [escape, h]
  split
  · next heq => cases heq
  · next heq => exact absurd (Option.some_inj.1 heq) hu
  · next heq => exact absurd (Option.some_inj.1 heq) hopen
  · next heq =>
    cases heq
    cases shortEscape? d <;> rfl

theorem Wide.shortEscape? {c : Char} (h : Wide c) : shortEscape? c = none := by
  unfold Token.shortEscape?
  split <;> first | rfl | exact absurd h (by decide)

theorem escape_follows (h : At text pos ('\\' :: cs)) (hn : byteLength cs ≤ n) (quote : Nat) :
    Follows text base (escape text base n quote pos) (readEscape (base + quote) (base + pos) cs) := by
  have hnext := h.next (by decide)
  obtain - | ⟨c, cs⟩ := cs
  · rw [escape, hnext.peek_none_iff.2 rfl]
    exact .fault _
  by_cases hu : c = 'u'
  · subst hu
    rw [escape, hnext.peek_narrow (by decide), readEscape]
    have hunicode : Follows text base (unicode text base pos (pos + 2)) (readUnicode (base + pos) (base + pos + 2) cs) :=
      unicode_follows (hnext.next (by decide)) pos
    show Follows text base (unicode text base pos (pos + 2) >>= _) _
    generalize unicode text base pos (pos + 2) = x at hunicode ⊢
    generalize readUnicode (base + pos) (base + pos + 2) cs = y at hunicode ⊢
    cases hunicode with
    | fault e => exact .fault e
    | ok hat => exact .ok hat
  by_cases hopen : c = '('
  · subst hopen
    rw [escape, hnext.peek_narrow (by decide), readEscape]
    have hinner : At text (pos + 2) cs := hnext.next (by decide)
    have hlength : byteLength cs < n := by
      rw [byteLength_cons] at hn
      have := ('(' : Char).utf8Size_pos
      omega
    show Follows text base (skipInterpolation text base n 1 pos (pos + 2) >>= _) _
    rcases (skips text base n).1 hinner hlength 0 pos [] with ⟨e, hx, hr⟩ | ⟨taken, rest, stop, hx, rfl, hne, hat, hr⟩
    · replace hr : skipEnclosed [.interpolation 0 (base + pos)] (base + pos + 2) cs = .error e := hr
      rw [hx, hr]
      exact .fault e
    · replace hr : skipEnclosed [.interpolation 0 (base + pos)] (base + pos + 2) (taken ++ rest) =
        .ok (taken.dropLast, ⟨base + stop, rest⟩) := hr
      obtain ⟨hcs, -⟩ := interpolation_of_skipEnclosed hr
      rw [hcs] at hinner
      -- the byte in front of the place where skipping stops is the parenthesis, so it is a place as well
      have hclose := hinner.behind
      have hstop : stop = pos + 2 + byteLength taken.dropLast + 1 := hat.pos_eq (hclose.next (by decide))
      have hslice : slice text (pos + 2) (stop - 1) = .ok taken.dropLast := by
        rw [hstop, Nat.add_sub_cancel]
        exact slice_between hinner hclose
      rw [hx, hr]
      show Follows text base (slice text (pos + 2) (stop - 1) >>= _) _
      rw [hslice]
      exact .ok hat
  · -- the first byte of the character is the character itself, or neither is one that is looked for
    have hpeek : peek text (pos + 1) = some (Char.ofNat (leadByte c)) := hnext.peek_eq.trans (peek_lead c cs)
    have hsame : Char.ofNat (leadByte c) ≠ 'u' ∧ Char.ofNat (leadByte c) ≠ '(' ∧
        shortEscape? (Char.ofNat (leadByte c)) = shortEscape? c := by
      by_cases hc : Wide c
      · obtain ⟨d, hd, hwide⟩ := hnext.peek_wide hc
        obtain rfl := Option.some_inj.1 (hpeek.symm.trans hd)
        exact ⟨hwide.ne (by decide), hwide.ne (by decide), hwide.shortEscape?.trans hc.shortEscape?.symm⟩
      · rw [Option.some_inj.1 (hpeek.symm.trans (hnext.peek_narrow hc))]
        exact ⟨hu, hopen, rfl⟩
    rw [escape_other hpeek hsame.1 hsame.2.1, hsame.2.2, Spaced.readEscape_other hu hopen]
    cases hshort : shortEscape? c with
    | none => exact .fault ⟨.unknownEscape c, base + pos⟩
    | some x =>
      have hc : ¬ Wide c := by
        intro hc
        rw [hc.shortEscape?] at hshort
        cases hshort
      exact .ok (hnext.next hc)

theorem readPieces_backslash (quote offset : Nat) (cs : List Char) :
    readPieces quote offset ('\\' :: cs) = readEscape quote offset cs >>= fun x =>
      readPieces quote x.2.offset x.2.rest >>= fun y => .ok (x.1 :: y.1, y.2) := by
  rw [readPieces]
  split
  · next hesc =>
    rw [hesc]
    rfl
  · next next hesc =>
    rw [hesc]
    show _ = (readPieces quote next.offset next.rest >>= _)
    cases readPieces quote next.offset next.rest <;> rfl

theorem readPieces_other {c : Char} (hquote : c ≠ '"') (hback : c ≠ '\\') (quote offset : Nat) (cs : List Char) :
    readPieces quote offset (c :: cs) =
      readPieces quote (offset + c.utf8Size) cs >>= fun y => .ok (.char c :: y.1, y.2) := by
  rw [readPieces]
  · cases readPieces quote (offset + c.utf8Size) cs <;> rfl
  · exact hquote
  · exact hback

theorem pieces_follows (quote : Nat) (h : At text pos cs) (hn : byteLength cs < n) :
    Follows text base (pieces text base quote n pos) (readPieces (base + quote) (base + pos) cs) := by
  induction n generalizing pos cs with
  | zero => exact absurd hn (Nat.not_lt_zero _)
  | succ n ih =>
    rw [pieces, sliceFrom_eq_ok_iff.2 h]
    dsimp only [Bind.bind, Except.bind]
    split
    · rw [readPieces]
      exact .fault _
    · rw [readPieces]
      exact .ok (h.next (by decide))
    · next cs =>
      rw [byteLength_cons] at hn
      have hlength : byteLength cs < n := by
        have := ('\\' : Char).utf8Size_pos
        omega
      rw [readPieces_backslash]
      show Follows text base (escape text base n quote pos >>= fun x =>
        pieces text base quote n x.2 >>= fun y => .ok (x.1 :: y.1, y.2)) _
      refine (escape_follows h (Nat.le_of_lt hlength) quote).bind fun piece next rest hat hesc => ?_
      have hle := (h.next (by decide)).byteLength_le hat (Nat.le_of_lt (length_readEscape_lt hesc))
      exact (ih hat (Nat.lt_of_le_of_lt hle hlength)).bind fun ps last rest' hat' _ => .ok hat'
    · next c cs hquote hback =>
      rw [readPieces_other hquote hback, Nat.add_assoc]
      rw [byteLength_cons] at hn
      have hpos := c.utf8Size_pos
      show Follows text base (pieces text base quote n (pos + c.utf8Size) >>= fun y => .ok (.char c :: y.1, y.2)) _
      exact (ih h.tail (by omega)).bind fun ps last rest hat _ => .ok hat

/-! ## Tokens -/

/-- What is cut off at a position, with the cursor behind it. -/
theorem Follows.cut {α : Type} {as bs : List Char} {stop : Nat} (h : At text pos (as ++ bs)) (h' : At text stop bs)
    (a : α) : Follows text base (.ok (a, stop)) (.ok (a, .behind (base + pos) as bs)) := by
  obtain rfl : stop = pos + byteLength as := h'.pos_eq h.behind
  rw [Cursor.behind, Nat.add_assoc]
  exact .ok h'

theorem number_follows (h : At text pos cs) :
    Follows text base (number text pos)
      (.ok (.number (String.ofList (splitNumber cs).1), .behind (base + pos) (splitNumber cs).1 (splitNumber cs).2)) := by
  have hnext := passNumber_at h
  rw [← splitNumber_append cs] at h
  rw [number, slice_between h hnext]
  exact .cut h hnext _

theorem sigilName_follows {sigil : Char} (h : At text pos (sigil :: cs)) (hsigil : ¬ Wide sigil) (make : String → Token)
    (cause : SyntaxError.Cause) :
    Follows text base (sigilName text base make cause sigil pos) (readName make cause sigil (base + pos) cs) := by
  have hname := h.next hsigil
  have hnext := passName_at hname
  have happend := splitName_append cs
  rw [← happend] at hname h
  rw [sigilName, slice_between hname hnext, readName]
  generalize splitName cs = cut at *
  obtain ⟨- | ⟨c, name⟩, rest⟩ := cut
  · exact .fault _
  · have hsigiled : At text pos ((sigil :: c :: name) ++ rest) := h
    exact .cut hsigiled hnext _

theorem word_follows (h : At text pos cs) (make : String → Token) :
    Follows text base (slice text pos (passName text pos) >>= fun name => .ok (make (String.ofList name), passName text pos))
      (.ok (make (String.ofList (splitName cs).1), .behind (base + pos) (splitName cs).1 (splitName cs).2)) := by
  have hnext := passName_at h
  rw [← splitName_append cs] at h
  rw [slice_between h hnext]
  exact .cut h hnext _

theorem dot_follows (h : At text pos ('.' :: cs)) :
    Follows text base (dot text pos) (.ok (readDot (base + pos) cs)) := by
  have hnext := h.next (by decide)
  obtain - | ⟨c, cs⟩ := cs
  · rw [dot, hnext.peek_none_iff.2 rfl]
    exact .ok hnext
  by_cases hc : Wide c
  · obtain ⟨d, hd, hwide⟩ := hnext.peek_wide hc
    rw [dot, hd, readDot, if_neg (hc.ne (by decide)), hc.isDigit, hc.isIdentStart]
    dsimp only
    rw [if_neg (hwide.ne (by decide)), hwide.isDigit, hwide.isIdentStart]
    exact .ok hnext
  · rw [dot, hnext.peek_narrow hc, readDot]
    dsimp only
    by_cases hdot : c = '.'
    · rw [if_pos hdot, if_pos hdot]
      exact .ok (hnext.next hc)
    by_cases hdigit : c.isDigit = true
    · rw [if_neg hdot, if_neg hdot, if_pos hdigit, if_pos hdigit]
      exact number_follows h
    by_cases hstart : isIdentStart c = true
    · rw [if_neg hdot, if_neg hdot, if_neg hdigit, if_neg hdigit, if_pos hstart, if_pos hstart]
      exact word_follows hnext .field
    · rw [if_neg hdot, if_neg hdot, if_neg hdigit, if_neg hdigit, if_neg hstart, if_neg hstart]
      exact .ok hnext

/-- A character that starts an operator, if it starts a token. -/
structure Plain (c : Char) : Prop where
  dot : c ≠ '.'
  dollar : c ≠ '$'
  atSign : c ≠ '@'
  quote : c ≠ '"'
  digit : ¬ c.isDigit = true
  start : ¬ isIdentStart c = true
  sign : sign? c = none
  question : c ≠ '?'

theorem Wide.isPlain {c : Char} (h : Wide c) : Plain c where
  dot := h.ne (by decide)
  dollar := h.ne (by decide)
  atSign := h.ne (by decide)
  quote := h.ne (by decide)
  digit := by rw [h.isDigit]; exact Bool.false_ne_true
  start := by rw [h.isIdentStart]; exact Bool.false_ne_true
  sign := by
    unfold sign?
    split <;> first | rfl | exact absurd h (by decide)
  question := h.ne (by decide)

theorem token_of_plain {c : Char} (h : Plain c) : token text base n pos c = operator text base pos := by
  rw [token, if_neg h.dot, if_neg h.dollar, if_neg h.atSign, if_neg h.quote, if_neg h.digit, if_neg h.start, h.sign]
  exact if_neg h.question

theorem read_of_plain {c : Char} (h : Plain c) (offset : Nat) (cs : List Char) :
    read offset c cs =
      match splitOperator? (c :: cs) with
      | some (o, rest) => .ok (.op o, .behind offset o.text.toList rest)
      | none => .error ⟨.strayCharacter c, offset⟩ := by
  unfold Token.read
  rw [if_neg h.dot, if_neg h.dollar, if_neg h.atSign, if_neg h.quote, if_neg h.digit, if_neg h.start, h.sign]
  dsimp only
  split
  · exact absurd rfl h.question
  · exact absurd rfl h.question
  · rfl

theorem operator_follows {c : Char} (h : At text pos (c :: cs)) :
    Follows text base (operator text base pos)
      (match splitOperator? (c :: cs) with
        | some (o, rest) => .ok (.op o, .behind (base + pos) o.text.toList rest)
        | none => .error ⟨.strayCharacter c, base + pos⟩) := by
  rw [operator, sliceFrom_eq_ok_iff.2 h]
  show Follows text base (match splitOperator? (c :: cs) with | some (o, _) => _ | none => _) _
  cases hoperator : splitOperator? (c :: cs) with
  | none => exact .fault _
  | some x =>
    obtain ⟨o, rest⟩ := x
    rw [← splitOperator?_append hoperator] at h
    exact .cut h h.behind _

theorem string_follows (h : At text pos ('"' :: cs)) (hn : byteLength cs < n) :
    Follows text base (token text base n pos '"') (Token.read (base + pos) '"' cs) := by
  have hpieces : Follows text base (pieces text base pos n (pos + 1)) (readPieces (base + pos) (base + pos + 1) cs) :=
    pieces_follows pos (h.next (by decide)) hn
  have hread : Token.read (base + pos) '"' cs =
      readPieces (base + pos) (base + pos + 1) cs >>= fun x => .ok (.str (partsOf x.1), x.2) := by
    show readString (base + pos) cs = _
    rw [readString]
    cases readPieces (base + pos) (base + pos + 1) cs <;> rfl
  have htoken : token text base n pos '"' =
      pieces text base pos n (pos + 1) >>= fun x => .ok (.str (partsOf x.1), x.2) := rfl
  rw [hread, htoken]
  exact hpieces.bind fun ps next rest hat _ => .ok hat

theorem question_follows (h : At text pos ('?' :: cs)) :
    Follows text base (token text base n pos '?') (Token.read (base + pos) '?' cs) := by
  have hnext := h.next (by decide)
  show Follows text base (if peek text (pos + 1) = some '/' ∧ peek text (pos + 2) = some '/' then _ else _) _
  by_cases hslashes : ∃ cs', cs = '/' :: '/' :: cs'
  · obtain ⟨cs', rfl⟩ := hslashes
    have hsecond := hnext.next (by decide)
    rw [if_pos ⟨hnext.peek_narrow (by decide), hsecond.peek_narrow (by decide)⟩]
    exact .ok (hsecond.next (by decide))
  · have hread : Token.read (base + pos) '?' cs = .ok (.question, ⟨base + pos + 1, cs⟩) :=
      read_question (base + pos) fun cs' hcs => hslashes ⟨cs', hcs⟩
    rw [if_neg, hread]
    · exact .ok hnext
    · rintro ⟨hfirst, hsecond⟩
      rw [hnext.peek_eq_some_iff (by decide)] at hfirst
      obtain - | ⟨c, cs⟩ := cs
      · cases hfirst
      obtain rfl := Option.some_inj.1 hfirst
      have hthird : peek text (pos + 2) = some '/' ↔ cs.head? = some '/' :=
        (hnext.next (by decide)).peek_eq_some_iff (by decide)
      rw [hthird] at hsecond
      obtain - | ⟨c, cs⟩ := cs
      · cases hsecond
      obtain rfl := Option.some_inj.1 hsecond
      exact hslashes ⟨cs, rfl⟩

theorem token_follows {c d : Char} (h : At text pos (c :: cs)) (hd : peek text pos = some d) (hn : byteLength cs < n) :
    Follows text base (token text base n pos d) (read (base + pos) c cs) := by
  by_cases hc : Wide c
  · obtain ⟨d', hd', hwide⟩ := h.peek_wide hc
    obtain rfl := Option.some_inj.1 (hd.symm.trans hd')
    rw [token_of_plain hwide.isPlain, read_of_plain hc.isPlain]
    exact operator_follows h
  obtain rfl : d = c := Option.some_inj.1 (hd.symm.trans (h.peek_narrow hc))
  have hnext := h.next hc
  by_cases hdot : d = '.'
  · subst hdot
    exact dot_follows h
  by_cases hdollar : d = '$'
  · subst hdollar
    exact sigilName_follows h hc .variable .variableName
  by_cases hat : d = '@'
  · subst hat
    exact sigilName_follows h hc .format .formatName
  by_cases hquote : d = '"'
  · subst hquote
    exact string_follows h hn
  by_cases hdigit : d.isDigit = true
  · unfold token Token.read
    rw [if_neg hdot, if_neg hdot, if_neg hdollar, if_neg hdollar, if_neg hat, if_neg hat, if_neg hquote,
      if_neg hquote, if_pos hdigit, if_pos hdigit]
    exact number_follows h
  by_cases hstart : isIdentStart d = true
  · unfold token Token.read
    rw [if_neg hdot, if_neg hdot, if_neg hdollar, if_neg hdollar, if_neg hat, if_neg hat, if_neg hquote,
      if_neg hquote, if_neg hdigit, if_neg hdigit, if_pos hstart, if_pos hstart]
    exact word_follows h ofWord
  cases hsign : sign? d with
  | some t =>
    unfold token Token.read
    rw [if_neg hdot, if_neg hdot, if_neg hdollar, if_neg hdollar, if_neg hat, if_neg hat, if_neg hquote,
      if_neg hquote, if_neg hdigit, if_neg hdigit, if_neg hstart, if_neg hstart, hsign]
    exact .ok hnext
  | none =>
    by_cases hquestion : d = '?'
    · subst hquestion
      exact question_follows h
    · have hplain : Plain d := ⟨hdot, hdollar, hat, hquote, hdigit, hstart, hsign, hquestion⟩
      rw [token_of_plain hplain, read_of_plain hplain]
      exact operator_follows h

end

/-- From a place on the tokens are the same. -/
theorem tokens_eq {text : List Char} {base : Nat} : ∀ {n pos : Nat} {cs : List Char}, At text pos cs → byteLength cs < n →
    tokens text base n pos = (scanFrom ⟨base + pos, cs⟩).mapError fun e => .fault e.diagnostic
  | 0, _, _, _, hn => absurd hn (Nat.not_lt_zero _)
  | n + 1, pos, cs, h, hn => by
    obtain ⟨rest, htrivia, hat⟩ := skipTrivia_cursor h base
    have hrest := length_skipTrivia_le false (base + pos) cs
    rw [htrivia] at hrest
    have hle := h.byteLength_le hat hrest
    rw [tokens, scanFrom_eq]
    dsimp only
    rw [htrivia]
    obtain - | ⟨c, rest⟩ := rest
    · rw [hat.peek_none_iff.2 rfl]
      rfl
    · have hpeek := hat.peek_eq.trans (peek_lead c rest)
      have hpos := c.utf8Size_pos
      rw [byteLength_cons] at hle
      have hlength : byteLength rest < n := by omega
      have htoken : Follows text base (token text base n (skipTrivia text pos) (Char.ofNat (leadByte c)))
          (Token.read (base + skipTrivia text pos) c rest) := token_follows hat hpeek hlength
      rw [hpeek]
      dsimp only
      generalize token text base n (skipTrivia text pos) (Char.ofNat (leadByte c)) = x at htoken ⊢
      generalize hread : Token.read (base + skipTrivia text pos) c rest = y at htoken ⊢
      cases htoken with
      | fault e => rfl
      | @ok t next rest' hat' =>
        have hle' := hat.tail.byteLength_le hat' (length_read_le hread)
        show (tokens text base n next >>= _) = Except.mapError _ ((scanFrom ⟨base + next, rest'⟩).map _)
        rw [tokens_eq hat' (Nat.lt_of_le_of_lt hle' hlength)]
        cases scanFrom ⟨base + next, rest'⟩ <;> rfl

/-- **A source is cut into tokens byte by byte as it is character by character.** -/
theorem scan_eq (source : String) (base : Nat) :
    scan source base = (Token.scan source base).mapError fun e => .fault e.diagnostic :=
  tokens_eq (.start source.toList) (Nat.lt_succ_self _)

theorem scan_eq_ok_iff {source : String} {base : Nat} {ls : Lexemes} :
    scan source base = .ok ls ↔ Token.scan source base = .ok ls := by
  rw [scan_eq]
  cases Token.scan source base with
  | error e => exact ⟨nofun, nofun⟩
  | ok ls' => exact ⟨fun h => congrArg _ (Except.ok.inj h), fun h => congrArg _ (Except.ok.inj h)⟩

theorem scan_ne_badSlice (source : String) (base : Nat) : scan source base ≠ .error .badSlice := by
  rw [scan_eq]
  cases Token.scan source base <;> nofun

/-! ## Slices and positions -/

open Grammar in
/-- **Nothing that reads a source crashes.** A slice is refused just where its ends are no places of the text or stand
the wrong way round, and a source is cut into tokens, or has a fault, without one that is refused. A token is missing
just where the position is behind all tokens; and the productions never miss one, neither on tokens that end with the
end of a source, as all that a source is cut into do, nor on a source and the interpolations in it, of which they yield
with enough steps what they yield without positions. -/
theorem never_crashes :
    (∀ text a, (∃ cs, sliceFrom text a = .ok cs) ↔ a ≤ byteLength text ∧ IsPlace text a) ∧
    (∀ text a b, (∃ cs, slice text a b = .ok cs) ↔
      a ≤ b ∧ b ≤ byteLength text ∧ IsPlace text a ∧ IsPlace text b) ∧
    (∀ source base, scan source base ≠ .error .badSlice ∧
      scan source base = (Token.scan source base).mapError fun e => .fault e.diagnostic) ∧
    (∀ r : Reader, (∃ l, r.index = .ok l) ↔ r.pos < r.tokens.length) ∧
    (∀ source base ls, scan source base = .ok ls → Reader.Valid ⟨ls, 0⟩) ∧
    (∀ n c r, r.Valid → readAt n c r ≠ .error .outOfRange) ∧
    ∀ n source base, sourceAt n source base ≠ .error .outOfRange ∧
      (enoughSteps source ≤ n → sourceAt n source base = (whole n source base).mapError .halt) :=
  ⟨fun _ _ => sliceFrom_ok_iff, fun _ _ _ => slice_ok_iff,
    fun source base => ⟨scan_ne_badSlice source base, scan_eq source base⟩, fun _ => Reader.index_ok_iff,
    fun _ _ _ h => valid_of_scan (scan_eq_ok_iff.1 h), fun n c r hr => ((readAt_tells n).1 c r hr).ne_outOfRange,
    fun n source base =>
      ⟨((readAt_tells n).2.2.2 source base).ne_outOfRange, fun hn => (sourceAt_eq base hn).2⟩⟩

open Grammar in
/-- A backslash in front of a character of two bytes, in a string of an interpolation. The source of the interpolation is
skipped through the byte inside of the character, where nothing can be cut. -/
theorem never_crashes_escape :
    slice "\"\\(\"\\é\")\"".toList 3 8 = .ok "\"\\é\"".toList ∧
    slice "\"\\(\"\\é\")\"".toList 6 8 = .error .badSlice ∧
    scan "\"\\(\"\\é\")\"" 0 = .ok [⟨.str [.interpolation "\"\\é\"" 3], 0⟩, ⟨.eof, 10⟩] ∧
    readAt 9 .pipe ⟨[⟨.str [.interpolation "\"\\é\"" 3], 0⟩, ⟨.eof, 10⟩], 0⟩ ≠ .error .outOfRange := by
  have hscan : (Token.scan "\"\\(\"\\é\")\"" 0).toOption =
      some [⟨.str [.interpolation "\"\\é\"" 3], 0⟩, ⟨.eof, 10⟩] := by decide +kernel
  have hbytes := scan_eq_ok_iff.2 (ok_of_toOption hscan)
  obtain ⟨-, -, -, -, hvalid, hread, -⟩ := never_crashes
  exact ⟨rfl, rfl, hbytes, hread 9 .pipe _ (hvalid _ _ _ hbytes)⟩

end Bytewise
end DefTable
