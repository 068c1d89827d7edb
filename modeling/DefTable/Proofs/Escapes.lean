import DefTable.Proofs.Coverage
import DefTable.Proofs.QuotedText

/-!
# Escapes in a string

A character can be written in a string in several ways: as it is, by a short escape, by its code point, or by a pair of
surrogates (`Token.Written`). However the characters of a text are written, the string is read as this text
(`decodes_written`). A surrogate that belongs to no pair is read as the replacement character, and what comes next is
read as by itself, with one exception: a high surrogate takes the code point escape behind it along, whatever it is
(`decodes_surrogate`).
-/

namespace DefTable

open Text

namespace Token

/-! ## How characters are written -/

/-- A hexadecimal digit of either case. -/
def HexDigit (d : Nat) (c : Char) : Prop :=
  d < 16 ∧ (c = d.digitChar ∨ c = d.digitChar.toUpper)

instance (d : Nat) (c : Char) : Decidable (HexDigit d c) := inferInstanceAs (Decidable (_ ∧ _))

/-- A number that is written with four hexadecimal digits. -/
def Hex4 (n : Nat) (ds : List Char) : Prop :=
  List.Forall₂ HexDigit [n / 0x1000, n / 0x100 % 0x10, n / 0x10 % 0x10, n % 0x10] ds

instance (n : Nat) (ds : List Char) : Decidable (Hex4 n ds) := inferInstanceAs (Decidable (List.Forall₂ _ _ _))

def IsHighSurrogate (n : Nat) : Prop :=
  0xD800 ≤ n ∧ n < 0xDC00

instance (n : Nat) : Decidable (IsHighSurrogate n) := inferInstanceAs (Decidable (_ ∧ _))

def IsLowSurrogate (n : Nat) : Prop :=
  0xDC00 ≤ n ∧ n < 0xE000

instance (n : Nat) : Decidable (IsLowSurrogate n) := inferInstanceAs (Decidable (_ ∧ _))

/-- The letters of the short escapes, and their characters. -/
def shortForms : List (Char × Char) :=
  [('"', '"'), ('\\', '\\'), ('/', '/'), ('b', '\x08'), ('f', '\x0c'), ('n', '\n'), ('r', '\r'), ('t', '\t')]

/-- A character in one of the ways in which it can be written in a string. -/
inductive Written : Char → List Char → Prop where
  | plain {c : Char} (hquote : c ≠ '"') (hback : c ≠ '\\') : Written c [c]
  | short {c letter : Char} (h : (letter, c) ∈ shortForms) : Written c ['\\', letter]
  | codePoint {c : Char} {ds : List Char} (hds : Hex4 c.toNat ds) : Written c ('\\' :: 'u' :: ds)
  | pair {c : Char} {high low : Nat} {hs ls : List Char} (hhigh : IsHighSurrogate high) (hlow : IsLowSurrogate low)
      (hc : c.toNat = 0x10000 + (high - 0xD800) * 0x400 + (low - 0xDC00)) (hhs : Hex4 high hs) (hls : Hex4 low ls) :
      Written c ('\\' :: 'u' :: (hs ++ '\\' :: 'u' :: ls))

/-- Between quotes, a body is one string, and the string is a text. -/
def Decodes (body : List Char) (text : String) : Prop :=
  ∀ base, scan (String.ofList ('"' :: (body ++ ['"']))) base =
    .ok [⟨.str [.literal text], base⟩, ⟨.eof, base + byteLength body + 2⟩]

/-! ## Digits -/

theorem hexValue?_of_hexDigit {d : Nat} {c : Char} (h : HexDigit d c) : hexValue? c = some d := by
  have hupper : ∀ d < 16, hexValue? d.digitChar.toUpper = some d := by decide
  obtain ⟨hd, rfl | rfl⟩ := h
  · exact hexValue?_digitChar d hd
  · exact hupper d hd

theorem Hex4.hex4? {n : Nat} {ds : List Char} (h : Hex4 n ds) (rest : List Char) :
    Token.hex4? (ds ++ rest) = some (n, rest) := by
  obtain - | ⟨ha, - | ⟨hb, - | ⟨hc, - | ⟨hd, - | -⟩⟩⟩⟩ := h
  simp only [List.cons_append, List.nil_append, Token.hex4?, hexValue?_of_hexDigit ha, hexValue?_of_hexDigit hb,
    hexValue?_of_hexDigit hc, hexValue?_of_hexDigit hd, Option.some.injEq, Prod.mk.injEq, and_true]
  omega

theorem Hex4.byteLength {n : Nat} {ds : List Char} (h : Hex4 n ds) : Text.byteLength ds = 4 := by
  have hread := h.hex4? []
  rw [List.append_nil] at hread
  exact byteLength_hex4? hread

theorem charOrReplacement_toNat (c : Char) : charOrReplacement c.toNat = c := by
  have hvalid : c.toNat.isValidChar := c.valid
  rw [charOrReplacement, if_pos hvalid, Char.ofNat_toNat]

theorem not_isHighSurrogate (c : Char) : ¬ IsHighSurrogate c.toNat := by
  rintro ⟨hlow, hhigh⟩
  have hvalid : c.toNat.isValidChar := c.valid
  rcases hvalid with h | h <;> omega

/-! ## One character -/

/-- The pieces that are read, with a character in front of them. -/
def pushed (c : Char) (p : List Piece × Cursor) : List Piece × Cursor :=
  (.char c :: p.1, p.2)

/-- In front of `rest`, a text in a string is read as one character. -/
def ReadsChar (c : Char) (text rest : List Char) : Prop :=
  ∀ quote offset, readPieces quote offset (text ++ rest) =
    (readPieces quote (offset + byteLength text) rest).map (pushed c)

theorem readsChar_plain {c : Char} (hquote : c ≠ '"') (hback : c ≠ '\\') (rest : List Char) :
    ReadsChar c [c] rest := by
  intro quote offset
  rw [List.singleton_append, readPieces.eq_4 _ _ _ _ hquote hback, byteLength_cons, byteLength_nil, Nat.add_zero]
  cases readPieces quote (offset + c.utf8Size) rest <;> rfl

theorem readsChar_escape {c : Char} {text rest : List Char}
    (h : ∀ quote start, readEscape quote start (text ++ rest) = .ok (.char c, ⟨start + byteLength ('\\' :: text), rest⟩)) :
    ReadsChar c ('\\' :: text) rest := by
  intro quote offset
  rw [List.cons_append, readPieces, h]
  dsimp only
  cases readPieces quote (offset + byteLength ('\\' :: text)) rest <;> rfl

theorem readsChar_short {c letter : Char} (h : (letter, c) ∈ shortForms) (rest : List Char) :
    ReadsChar c ['\\', letter] rest := by
  refine readsChar_escape fun quote start => ?_
  simp only [shortForms, List.mem_cons, Prod.mk.injEq, List.not_mem_nil, or_false] at h
  rcases h with ⟨rfl, rfl⟩ | ⟨rfl, rfl⟩ | ⟨rfl, rfl⟩ | ⟨rfl, rfl⟩ | ⟨rfl, rfl⟩ | ⟨rfl, rfl⟩ | ⟨rfl, rfl⟩ | ⟨rfl, rfl⟩ <;>
    rfl

theorem readsChar_unicode {c : Char} {text rest : List Char}
    (h : ∀ start offset, readUnicode start offset (text ++ rest) = .ok (c, ⟨offset + byteLength text, rest⟩)) :
    ReadsChar c ('\\' :: 'u' :: text) rest := by
  refine readsChar_escape fun quote start => ?_
  have hsizes : ('\\' : Char).utf8Size = 1 ∧ ('u' : Char).utf8Size = 1 := by decide
  rw [List.cons_append, readEscape, h, byteLength_cons, byteLength_cons, hsizes.1, hsizes.2]
  simp only [← Nat.add_assoc]

section
variable {n : Nat} {ds : List Char} (hds : Hex4 n ds)
include hds

theorem readsChar_codePoint (hn : ¬ IsHighSurrogate n) (rest : List Char) :
    ReadsChar (charOrReplacement n) ('\\' :: 'u' :: ds) rest :=
  readsChar_unicode fun start offset => by
    rw [readUnicode_other (hds.hex4? rest) hn, hds.byteLength]

theorem readsChar_high (hn : IsHighSurrogate n) {rest : List Char} (hrest : startsCodePoint rest = false) :
    ReadsChar '\uFFFD' ('\\' :: 'u' :: ds) rest :=
  readsChar_unicode fun start offset => by
    rw [readUnicode_high (hds.hex4? rest) hn hrest, hds.byteLength]

theorem readsChar_both {m : Nat} {es : List Char} (hn : IsHighSurrogate n) (hes : Hex4 m es) (rest : List Char) :
    ReadsChar (if 0xDC00 ≤ m ∧ m < 0xE000 then surrogatePair n m else '\uFFFD')
      ('\\' :: 'u' :: (ds ++ '\\' :: 'u' :: es)) rest :=
  readsChar_unicode fun start offset => by
    have hbytes : byteLength (ds ++ '\\' :: 'u' :: es) = 10 := by
      rw [byteLength_append, byteLength_cons, byteLength_cons, hds.byteLength, hes.byteLength]
      rfl
    rw [List.append_assoc, List.cons_append, List.cons_append,
      readUnicode_both (hds.hex4? _) hn rfl (hes.hex4? rest), hbytes]

end

theorem surrogatePair_eq {c : Char} {high low : Nat}
    (hc : c.toNat = 0x10000 + (high - 0xD800) * 0x400 + (low - 0xDC00)) : surrogatePair high low = c := by
  rw [surrogatePair, ← hc, charOrReplacement_toNat]

/-- **What is written for a character is read as it**, whatever comes next. -/
theorem Written.readsChar {c : Char} {text : List Char} (h : Written c text) (rest : List Char) :
    ReadsChar c text rest := by
  cases h with
  | plain hquote hback => exact readsChar_plain hquote hback rest
  | short h => exact readsChar_short h rest
  | codePoint hds =>
    have hread := readsChar_codePoint hds (not_isHighSurrogate c) rest
    rwa [charOrReplacement_toNat] at hread
  | @pair high low hs ls hhigh hlow hc hhs hls =>
    have hread := readsChar_both hhs hhigh hls rest
    have hlow : 0xDC00 ≤ low ∧ low < 0xE000 := hlow
    rwa [if_pos hlow, surrogatePair_eq hc] at hread

/-! ## The text of a string -/

/-- In front of the quote that closes a string, a text is read in it. -/
def ReadsText (cs text rest : List Char) : Prop :=
  ∃ offset, readPieces 0 0 cs = .ok (text.map .char, ⟨offset, rest⟩)

theorem readPieces_quote {quote offset : Nat} {cs : List Char} {r : List Piece × Cursor}
    (h : readPieces quote offset cs = .ok r) (quote' : Nat) : readPieces quote' offset cs = .ok r := by
  obtain ⟨text, rfl, -, hagain⟩ := StringBody.of_readPieces h
  exact hagain quote' r.2.rest

/-- A text is read wherever the string stands. -/
theorem readsText_iff (quote offset : Nat) {cs text rest : List Char} :
    ReadsText cs text rest ↔ ∃ o, readPieces quote offset cs = .ok (text.map .char, ⟨o, rest⟩) := by
  have hshift := readPieces_shift (k := offset) 0 0 cs
  rw [Nat.zero_add] at hshift
  have hchars : (text.map .char).map (Piece.shift offset) = text.map .char := by
    rw [List.map_map]
    rfl
  constructor
  · rintro ⟨o, h⟩
    rw [h, shiftResult, shiftPieces, hchars] at hshift
    exact ⟨_, readPieces_quote hshift quote⟩
  · rintro ⟨o, h⟩
    rw [readPieces_quote h] at hshift
    cases hread : readPieces 0 0 cs with
    | error e =>
      rw [hread] at hshift
      cases hshift
    | ok r =>
      obtain ⟨pieces, o', rest'⟩ := r
      rw [hread, shiftResult, shiftPieces, ← hchars] at hshift
      simp only [Except.ok.injEq, Prod.mk.injEq] at hshift
      obtain ⟨hpieces, hcursor⟩ := hshift
      cases List.map_injective_iff.2 Piece.shift_injective hpieces
      cases hcursor
      exact ⟨o', hread⟩

theorem ReadsChar.readsText_iff {c : Char} {form cs : List Char} (h : ReadsChar c form cs) {text rest : List Char} :
    ReadsText (form ++ cs) text rest ↔ ∃ text', text = c :: text' ∧ ReadsText cs text' rest := by
  constructor
  · rintro ⟨offset, hread⟩
    rw [h 0 0] at hread
    obtain ⟨⟨pieces, next⟩, hread, hpushed⟩ := exists_of_map_ok hread
    cases text with
    | nil => cases hpushed
    | cons c' text =>
      cases hpushed
      exact ⟨text, rfl, (Token.readsText_iff _ _).2 ⟨_, hread⟩⟩
  · rintro ⟨text', rfl, hread⟩
    obtain ⟨offset, hread⟩ := (Token.readsText_iff 0 (0 + byteLength form)).1 hread
    exact ⟨offset, by rw [h 0 0, hread]; rfl⟩

theorem decodes_iff {body : List Char} {text : String} :
    Decodes body text ↔
      ∃ rest, ReadsText (body ++ ['"']) text.toList rest ∧ (skipTrivia false 0 rest).rest = [] := by
  constructor
  · intro h
    have hscan := h 0
    rw [scan, String.toList_ofList, scanFrom_quote_iff] at hscan
    obtain ⟨pieces, next, ls, hpieces, hrest, hls⟩ := hscan
    simp only [List.cons.injEq, Lexeme.mk.injEq, Token.str.injEq] at hls
    obtain ⟨⟨hparts, -⟩, rfl⟩ := hls
    rw [chars_of_partsOf hparts.symm] at hpieces
    exact ⟨next.rest, (readsText_iff _ _).2 ⟨next.offset, hpieces⟩, skipTrivia_of_scanFrom hrest⟩
  · rintro ⟨rest, htext, hrest⟩ base
    obtain ⟨offset, hread⟩ := (readsText_iff base (base + 1)).1 htext
    obtain ⟨o, hfinish⟩ := scanFrom_finish hrest offset
    have hscan : scanFrom ⟨base, '"' :: (body ++ ['"'])⟩ = .ok [⟨.str [.literal text], base⟩, ⟨.eof, o⟩] := by
      rw [scanFrom_quote_iff]
      exact ⟨_, _, _, hread, hfinish, by rw [partsOf_chars, String.ofList_toList]⟩
    obtain ⟨unfinished, hcovers⟩ := Covers.of_scanFrom _ hscan
    obtain ⟨front, hends, -⟩ := hcovers.ends
    have ho : o = base + byteLength body + 2 := by
      have hlast := congrArg List.getLast? hends
      simp only [List.getLast?_append, List.getLast?_cons_cons, List.getLast?_singleton, Option.some_or,
        Option.some.injEq, Lexeme.mk.injEq, true_and] at hlast
      have hquote : ('"' : Char).utf8Size = 1 := by decide
      rw [hlast, byteLength_cons, byteLength_append, byteLength_cons, byteLength_nil, hquote]
      omega
    rw [scan, String.toList_ofList, hscan, ho]

/-- A body has one text. -/
theorem Decodes.unique {body : List Char} {text text' : String} (h : Decodes body text) (h' : Decodes body text') :
    text = text' := by
  have heq := (h 0).symm.trans (h' 0)
  simpa using heq

theorem decodes_nil : Decodes [] "" :=
  decodes_iff.2 ⟨[], ⟨1, by rw [List.nil_append, readPieces]; rfl⟩, rfl⟩

/-- What is read as one character is the first character of the text. -/
theorem ReadsChar.decodes_iff {c : Char} {form body : List Char} (h : ReadsChar c form (body ++ ['"']))
    {text : String} :
    Decodes (form ++ body) text ↔ ∃ text', text = String.singleton c ++ text' ∧ Decodes body text' := by
  simp only [Token.decodes_iff, List.append_assoc, h.readsText_iff]
  constructor
  · rintro ⟨rest, ⟨text', htext, hread⟩, hrest⟩
    refine ⟨String.ofList text', ?_, rest, ?_, hrest⟩
    · rw [← String.toList_inj, htext]
      simp
    · rwa [String.toList_ofList]
  · rintro ⟨text', rfl, rest, hread, hrest⟩
    exact ⟨rest, ⟨text'.toList, by simp, hread⟩, hrest⟩

/-! ## Written texts -/

/-- Behind a written text, a body has its own text. -/
theorem decodes_append {front : String} {forms : List (List Char)} (h : List.Forall₂ Written front.toList forms)
    {body : List Char} {text : String} :
    Decodes (forms.flatten ++ body) text ↔ ∃ text', text = front ++ text' ∧ Decodes body text' := by
  have hchars : ∀ {cs forms}, List.Forall₂ Written cs forms → ∀ {text}, Decodes (forms.flatten ++ body) text ↔
      ∃ text', text = String.ofList cs ++ text' ∧ Decodes body text' := by
    intro cs forms h
    induction h with
    | nil => simp
    | @cons c form cs forms hc _ ih =>
      intro text
      rw [List.flatten_cons, List.append_assoc, (hc.readsChar _).decodes_iff]
      constructor
      · rintro ⟨text₁, rfl, hrest⟩
        obtain ⟨text', rfl, hbody⟩ := ih.1 hrest
        exact ⟨text', by rw [← String.toList_inj]; simp, hbody⟩
      · rintro ⟨text', rfl, hbody⟩
        exact ⟨String.ofList cs ++ text', by rw [← String.toList_inj]; simp, ih.2 ⟨text', rfl, hbody⟩⟩
  have hfront := @hchars _ _ h text
  rwa [String.ofList_toList] at hfront

/-- **However its characters are written, a text is read as it is.** -/
theorem decodes_written {text : String} {forms : List (List Char)} (h : List.Forall₂ Written text.toList forms) :
    Decodes forms.flatten text := by
  have hend : Decodes (forms.flatten ++ []) text := (decodes_append h).2 ⟨"", by simp, decodes_nil⟩
  rwa [List.append_nil] at hend

/-- A backslash, a letter that is no escape behind it, a letter by its code point, and a rocket by its pair. -/
theorem decodes_written_forms : Decodes "\\\\n\\u00e9\\ud83D\\uDe80".toList "\\né🚀" := by
  have hhigh : Hex4 0xD83D "d83D".toList := by decide
  have hlow : Hex4 0xDE80 "De80".toList := by decide
  have hrocket : Written '🚀' "\\ud83D\\uDe80".toList := .pair (by decide) (by decide) (by decide) hhigh hlow
  have hforms : List.Forall₂ Written "\\né🚀".toList
      ["\\\\".toList, "n".toList, "\\u00e9".toList, "\\ud83D\\uDe80".toList] :=
    .cons (.short (by decide)) (.cons (.plain (by decide) (by decide)) (.cons (.codePoint (by decide))
      (.cons hrocket .nil)))
  have hdecodes := decodes_written hforms
  have hbody : List.flatten ["\\\\".toList, "n".toList, "\\u00e9".toList, "\\ud83D\\uDe80".toList] =
      "\\\\n\\u00e9\\ud83D\\uDe80".toList := by decide +kernel
  rwa [hbody] at hdecodes

/-! ## Surrogates that belong to no pair -/

/-- Behind any written text and in front of a body, a text in a string is read as the replacement character. -/
def Replaced (form body : List Char) : Prop :=
  ∀ (front : String) (forms : List (List Char)), List.Forall₂ Written front.toList forms → ∀ text,
    Decodes (forms.flatten ++ (form ++ body)) text ↔ ∃ text', text = front ++ "\uFFFD" ++ text' ∧ Decodes body text'

theorem ReadsChar.replaced {form body : List Char} (h : ReadsChar '\uFFFD' form (body ++ ['"'])) :
    Replaced form body := by
  intro front forms hfront text
  rw [decodes_append hfront]
  constructor
  · rintro ⟨text₁, rfl, hrest⟩
    obtain ⟨text', rfl, hbody⟩ := h.decodes_iff.1 hrest
    exact ⟨text', String.append_assoc.symm, hbody⟩
  · rintro ⟨text', rfl, hbody⟩
    exact ⟨"\uFFFD" ++ text', String.append_assoc, h.decodes_iff.2 ⟨text', rfl, hbody⟩⟩

theorem startsCodePoint_append_quote (body : List Char) :
    startsCodePoint (body ++ ['"']) = startsCodePoint body := by
  rcases body with - | ⟨a, - | ⟨b, body⟩⟩ <;> simp [startsCodePoint]

theorem charOrReplacement_low {n : Nat} (h : IsLowSurrogate n) : charOrReplacement n = '\uFFFD' := by
  refine if_neg fun hvalid => ?_
  obtain ⟨hlow, hhigh⟩ := h
  rcases hvalid with h | h <;> omega

/-- **A surrogate that belongs to no pair is read as the replacement character.** A low one, and a high one with no
code point escape behind it, leave what comes next as it is. But a high one in front of the escape of anything but a low
one takes this escape along. -/
theorem decodes_surrogate {n : Nat} {ds : List Char} (hds : Hex4 n ds) (body : List Char) :
    (IsLowSurrogate n → Replaced ('\\' :: 'u' :: ds) body) ∧
    (IsHighSurrogate n → startsCodePoint body = false → Replaced ('\\' :: 'u' :: ds) body) ∧
    (IsHighSurrogate n → ∀ {m es}, Hex4 m es → ¬ IsLowSurrogate m →
      Replaced ('\\' :: 'u' :: (ds ++ '\\' :: 'u' :: es)) body) := by
  refine ⟨fun hlow => ?_, fun hhigh hbody => ?_, fun hhigh m es hes hm => ?_⟩
  · have hother : ¬ IsHighSurrogate n := by
      rintro ⟨-, hn⟩
      exact absurd hlow.1 (by omega)
    have hread := readsChar_codePoint hds hother (body ++ ['"'])
    rw [charOrReplacement_low hlow] at hread
    exact hread.replaced
  · rw [← startsCodePoint_append_quote] at hbody
    exact (readsChar_high hds hhigh hbody).replaced
  · have hread := readsChar_both hds hhigh hes (body ++ ['"'])
    have hm : ¬ (0xDC00 ≤ m ∧ m < 0xE000) := hm
    rw [if_neg hm] at hread
    exact hread.replaced

/-- In front of a letter as it is, a surrogate costs only itself; in front of one by its code point, a high one costs
both. -/
theorem decodes_surrogate_letter :
    Decodes ('a' :: '\\' :: 'u' :: ("dc00".toList ++ ['A'])) "a\uFFFDA" ∧
    Decodes ('a' :: '\\' :: 'u' :: ("d800".toList ++ ['A'])) "a\uFFFDA" ∧
    Decodes ('a' :: '\\' :: 'u' :: ("d800".toList ++ '\\' :: 'u' :: "0041".toList ++ [])) "a\uFFFD" := by
  have hlow : Hex4 0xDC00 "dc00".toList := by decide
  have hhigh : Hex4 0xD800 "d800".toList := by decide
  have hletter : Hex4 0x41 "0041".toList := by decide
  have hfront : List.Forall₂ Written "a".toList [['a']] := .cons (.plain (by decide) (by decide)) .nil
  have hbody : Decodes ['A'] "A" := by
    have hplain : Decodes (['A'] ++ []) "A" :=
      (readsChar_plain (by decide) (by decide) ['"']).decodes_iff.2 ⟨"", rfl, decodes_nil⟩
    exact hplain
  refine ⟨?_, ?_, ?_⟩
  · exact ((decodes_surrogate hlow ['A']).1 (by decide) "a" [['a']] hfront _).2 ⟨"A", rfl, hbody⟩
  · exact ((decodes_surrogate hhigh ['A']).2.1 (by decide) (by decide) "a" [['a']] hfront _).2 ⟨"A", rfl, hbody⟩
  · have hboth := (decodes_surrogate hhigh []).2.2 (by decide) hletter (by decide)
    exact (hboth "a" [['a']] hfront _).2 ⟨"", rfl, decodes_nil⟩

/-- A letter by its code point is read as itself, but not behind a high surrogate. -/
theorem high_surrogate_takes_letter : Decodes "\\u0041".toList "A" ∧
    (∀ {n ds body}, Hex4 n ds → "\\u0041".toList = '\\' :: 'u' :: (ds ++ body) → ¬ IsLowSurrogate n) ∧
    Decodes ("\\ud800".toList ++ "\\u0041".toList) "\uFFFD" ∧
    ¬ Decodes ("\\ud800".toList ++ "\\u0041".toList) ("\uFFFD" ++ "A") := by
  have hhigh : Hex4 0xD800 "d800".toList := by decide
  have hletter : Hex4 0x41 "0041".toList := by decide
  have hboth : Decodes ("\\ud800\\u0041".toList ++ []) "\uFFFD" :=
    (readsChar_both hhigh (by decide) hletter ['"']).decodes_iff.2 ⟨"", rfl, decodes_nil⟩
  have hwritten : Written 'A' "\\u0041".toList := .codePoint hletter
  refine ⟨?_, ?_, hboth, fun h => absurd (hboth.unique h) (by decide)⟩
  · have hread : Decodes ("\\u0041".toList ++ []) "A" :=
      (hwritten.readsChar ['"']).decodes_iff.2 ⟨"", rfl, decodes_nil⟩
    rwa [List.append_nil] at hread
  · intro n ds body hds heq
    have hread := hds.hex4? body
    rw [← (List.cons.inj (List.cons.inj heq).2).2] at hread
    cases hread
    decide

end Token
end DefTable
