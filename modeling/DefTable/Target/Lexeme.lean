import DefTable.Text.Name

/-!
# Lexemes of the generated file

The words and signs of the language that the generated file is written in. `Lexeme.scan` cuts a text into them, and
yields nothing when the text has a character or a literal that the language does not know, or when its brackets do not
match. White space and comments are skipped, but for comments that document.
-/

namespace DefTable.Target

open Text

inductive Bracket where
  | round | square | curly
deriving DecidableEq, Repr

/-- Words and signs. -/
inductive Lexeme where
  | word (text : String)
  | lifetime
  | number
  | quotation
  /-- A sign of one character, and whether another sign follows it directly. -/
  | sign (c : Char) (joint : Bool)
  | opening (b : Bracket)
  | closing (b : Bracket)
  /-- A comment that documents what follows it, or else what it stands in. -/
  | document (outer : Bool)
deriving DecidableEq, Repr

namespace Lexeme

/-! ## Blanks -/

/-- Whether a character is white space. The marks for the direction of writing count as such. -/
def isBlank (c : Char) : Bool :=
  inRanges [(0x09, 0x0D), (0x20, 0x20), (0x85, 0x85), (0xA0, 0xA0), (0x1680, 0x1680), (0x2000, 0x200A), (0x200E, 0x200F),
    (0x2028, 0x2029), (0x202F, 0x202F), (0x205F, 0x205F), (0x3000, 0x3000)] c

/-- What skipped characters are part of. -/
inductive Blank where
  | space
  | line
  /-- A comment between marks, inside of a number of others. -/
  | block (depth : Nat)

/-- Whether two slashes start a comment that documents, by what follows them. -/
def documentsLine (cs : List Char) : Bool :=
  ['!'].isPrefixOf cs || (['/'].isPrefixOf cs && !(['/', '/'].isPrefixOf cs))

/-- Whether a slash and an asterisk start a comment that documents, by what follows them. -/
def documentsBlock (cs : List Char) : Bool :=
  ['!'].isPrefixOf cs || (['*'].isPrefixOf cs && !(['*', '*'].isPrefixOf cs) && !(['*', '/'].isPrefixOf cs))

/-- Skips white space and comments up to a lexeme. -/
def skipBlanks : Blank → List Char → Option (List Char)
  | .space, '/' :: '/' :: cs => if documentsLine cs then some ('/' :: '/' :: cs) else skipBlanks .line cs
  | .space, '/' :: '*' :: cs => if documentsBlock cs then some ('/' :: '*' :: cs) else skipBlanks (.block 0) cs
  | .space, c :: cs => if isBlank c then skipBlanks .space cs else some (c :: cs)
  | .line, c :: cs => skipBlanks (if c = '\n' then .space else .line) cs
  | .block depth, '/' :: '*' :: cs => skipBlanks (.block (depth + 1)) cs
  | .block 0, '*' :: '/' :: cs => skipBlanks .space cs
  | .block (depth + 1), '*' :: '/' :: cs => skipBlanks (.block depth) cs
  | .block depth, _ :: cs => skipBlanks (.block depth) cs
  | .block _, [] => none
  | _, [] => some []

theorem skipBlanks_suffix (b : Blank) (cs : List Char) {rest} (h : skipBlanks b cs = some rest) : rest <:+ cs := by
  fun_induction skipBlanks b cs with
  | case1 | case3 => cases h; exact List.suffix_rfl
  | case2 cs _ ih => exact (ih h).trans ⟨['/', '/'], rfl⟩
  | case4 cs _ ih => exact (ih h).trans ⟨['/', '*'], rfl⟩
  | case5 c cs _ _ _ ih => exact (ih h).trans (List.suffix_cons _ _)
  | case6 => cases h; exact List.suffix_rfl
  | case7 c cs ih => exact (ih h).trans (List.suffix_cons _ _)
  | case8 depth cs ih => exact (ih h).trans ⟨['/', '*'], rfl⟩
  | case9 cs ih => exact (ih h).trans ⟨['*', '/'], rfl⟩
  | case10 depth cs ih => exact (ih h).trans ⟨['*', '/'], rfl⟩
  | case11 depth c cs _ _ _ ih => exact (ih h).trans (List.suffix_cons _ _)
  | case12 => cases h
  | case13 => cases h; exact List.suffix_rfl

/-! ## Comments that document -/

/-- How a comment that documents goes on behind its first two marks, and what follows these. -/
def document? : Char → List Char → Option (Blank × List Char)
  | '/', '/' :: cs => if documentsLine cs then some (.line, cs) else none
  | '/', '*' :: cs => if documentsBlock cs then some (.block 0, cs) else none
  | _, _ => none

/-- What is left behind a comment that documents. Only a line feed may follow a carriage return in it. -/
def documentRest : Blank → List Char → Option (List Char)
  | .space, cs => some cs
  | .line, [] => some []
  | .block _, [] => none
  | b, '\r' :: cs => if ['\n'].isPrefixOf cs then documentRest b cs else none
  | .line, c :: cs => if c = '\n' then some cs else documentRest .line cs
  | .block depth, '/' :: '*' :: cs => documentRest (.block (depth + 1)) cs
  | .block 0, '*' :: '/' :: cs => some cs
  | .block (depth + 1), '*' :: '/' :: cs => documentRest (.block depth) cs
  | .block depth, _ :: cs => documentRest (.block depth) cs

theorem document?_suffix {c : Char} {cs rest : List Char} {b : Blank} (h : document? c cs = some (b, rest)) :
    rest <:+ cs := by
  unfold document? at h
  split at h
  · split at h
    · cases h; exact List.suffix_cons _ _
    · cases h
  · split at h
    · cases h; exact List.suffix_cons _ _
    · cases h
  · cases h

theorem documentRest_suffix (b : Blank) (cs : List Char) {rest} (h : documentRest b cs = some rest) : rest <:+ cs := by
  fun_induction documentRest b cs with
  | case1 | case2 => cases h; exact List.suffix_rfl
  | case3 | case5 => cases h
  | case4 b cs _ _ ih => exact (ih h).trans (List.suffix_cons _ _)
  | case6 => cases h; exact List.suffix_cons _ _
  | case7 c cs _ _ ih => exact (ih h).trans (List.suffix_cons _ _)
  | case8 depth cs ih => exact (ih h).trans ⟨['/', '*'], rfl⟩
  | case9 cs => cases h; exact ⟨['*', '/'], rfl⟩
  | case10 depth cs ih => exact (ih h).trans ⟨['*', '/'], rfl⟩
  | case11 depth c cs _ _ _ _ ih => exact (ih h).trans (List.suffix_cons _ _)

/-! ## Words -/

def isWordStart (c : Char) : Bool :=
  c = '_' || isNameStart c

def afterWord (cs : List Char) : List Char :=
  cs.dropWhile isNameContinue

def wordAt (cs : List Char) : List Char :=
  cs.takeWhile isNameContinue

/-- The words that cannot be written in raw form. -/
def neverRaw : List String :=
  ["_", "super", "self", "Self", "crate"]

/-- A word of a character and those that follow, in raw form or not, and what is left behind it. -/
def word? : Char → List Char → Option (Lexeme × List Char)
  | 'r', '#' :: c :: cs =>
    if isWordStart c && !neverRaw.contains (String.ofList (wordAt (c :: cs))) then
      some (.word (String.ofList ('r' :: '#' :: wordAt (c :: cs))), afterWord cs)
    else none
  | c, cs => if isWordStart c then some (.word (String.ofList (c :: wordAt cs)), afterWord cs) else none

theorem word?_suffix {c : Char} {cs rest : List Char} {l : Lexeme} (h : word? c cs = some (l, rest)) : rest <:+ cs := by
  unfold word? at h
  split at h
  · next c' cs' =>
    split at h
    · cases h; exact (List.dropWhile_suffix _).trans ⟨['#', c'], rfl⟩
    · cases h
  · split at h
    · cases h; exact List.dropWhile_suffix _
    · cases h

/-! ## Strings -/

/-- What the next character of a string is read as. -/
inductive InString where
  | plain
  /-- Behind a carriage return, which only a line feed may follow. -/
  | carriageReturn
  | escape
  | firstHex | secondHex
  | openBrace
  /-- Behind some digits of a code point, with their value. -/
  | codePoint (digits value : Nat)
  /-- Behind the end of a line with a backslash. -/
  | continued
  | closed

namespace InString

/-- How to go on behind a character without special meaning so far. -/
def afterPlain (c : Char) : InString :=
  if c = '"' then closed
  else if c = '\\' then escape
  else if c = '\r' then carriageReturn
  else plain

/-- How to go on behind a character, unless it must not stand there. -/
def step (c : Char) : InString → Option InString
  | plain => some (afterPlain c)
  | carriageReturn => if c = '\n' then some plain else none
  | escape =>
    if c = 'x' then some firstHex
    else if c = 'u' then some openBrace
    else if c = '\n' then some continued
    else if ['n', 'r', 't', '\\', '\x27', '"', '0'].contains c then some plain
    else none
  | firstHex => if '0' ≤ c ∧ c ≤ '7' then some secondHex else none
  | secondHex => if (hexValue? c).isSome then some plain else none
  | openBrace => if c = '{' then some (codePoint 0 0) else none
  | codePoint digits value =>
    if c = '}' then if 0 < digits ∧ value.isValidChar then some plain else none
    else if c = '_' then if 0 < digits then some (codePoint digits value) else none
    else
      match hexValue? c with
      | some d => if digits < 6 then some (codePoint (digits + 1) (value * 16 + d)) else none
      | none => none
  | continued => if c = ' ' ∨ c = '\t' ∨ c = '\n' ∨ c = '\r' then some continued else some (afterPlain c)
  | closed => none

end InString

/-- What is left of a text behind the quote that closes a string. -/
def stringRest : InString → List Char → Option (List Char)
  | _, [] => none
  | mode, c :: cs =>
    match mode.step c with
    | none => none
    | some .closed => some cs
    | some mode => stringRest mode cs

theorem stringRest_suffix : ∀ (mode : InString) (cs : List Char) {rest}, stringRest mode cs = some rest → rest <:+ cs
  | _, [], _, h => by simp [stringRest] at h
  | mode, c :: cs, rest, h => by
    unfold stringRest at h
    split at h
    · cases h
    · cases h; exact List.suffix_cons _ _
    · exact (stringRest_suffix _ _ h).trans (List.suffix_cons _ _)

/-- What is left of a text behind the quote and the number of signs that close a raw string. -/
def rawRest (signs : Nat) : List Char → Option (List Char)
  | [] => none
  | '"' :: cs => if (List.replicate signs '#').isPrefixOf cs then some (cs.drop signs) else rawRest signs cs
  | _ :: cs => rawRest signs cs

theorem rawRest_suffix (signs : Nat) : ∀ (cs : List Char) {rest}, rawRest signs cs = some rest → rest <:+ cs
  | [], _, h => by simp [rawRest] at h
  | c :: cs, rest, h => by
    unfold rawRest at h
    split at h
    · contradiction
    · next cs' heq =>
      cases heq
      split at h
      · cases h; exact (List.drop_suffix _ _).trans (List.suffix_cons _ _)
      · exact (rawRest_suffix signs _ h).trans (List.suffix_cons _ _)
    · next heq =>
      cases heq
      exact (rawRest_suffix signs _ h).trans (List.suffix_cons _ _)

/-- What is left behind a raw string, from the sign or quote after its mark on. -/
def rawString? (cs : List Char) : Option (List Char) :=
  match cs.dropWhile (· = '#') with
  | '"' :: rest => rawRest (cs.takeWhile (· = '#')).length rest
  | _ => none

theorem rawString?_suffix {cs rest : List Char} (h : rawString? cs = some rest) : rest <:+ cs := by
  unfold rawString? at h
  split at h
  · next heq =>
    have hd : cs.dropWhile (· = '#') <:+ cs := List.dropWhile_suffix _
    rw [heq] at hd
    exact (rawRest_suffix _ _ h).trans ((List.suffix_cons _ _).trans hd)
  · cases h

/-- What is left of a text behind an escape that is under way. -/
def escapeRest : InString → List Char → Option (List Char)
  | _, [] => none
  | mode, c :: cs =>
    match mode.step c with
    | some .plain => some cs
    | some .continued => none
    | some mode => escapeRest mode cs
    | none => none

theorem escapeRest_suffix : ∀ (mode : InString) (cs : List Char) {rest}, escapeRest mode cs = some rest → rest <:+ cs
  | _, [], _, h => by simp [escapeRest] at h
  | mode, c :: cs, rest, h => by
    unfold escapeRest at h
    split at h
    · cases h; exact List.suffix_cons _ _
    · cases h
    · exact (escapeRest_suffix _ _ h).trans (List.suffix_cons _ _)
    · cases h

def afterQuote : List Char → Option (List Char)
  | '\x27' :: cs => some cs
  | _ => none

theorem afterQuote_suffix {cs rest : List Char} (h : afterQuote cs = some rest) : rest <:+ cs := by
  unfold afterQuote at h
  split at h
  · cases h; exact List.suffix_cons _ _
  · cases h

/-- What is left behind a character between quotes, from behind the opening one on. -/
def character? : List Char → Option (List Char)
  | '\\' :: cs => (escapeRest .escape cs).bind afterQuote
  | _ :: cs => afterQuote cs
  | [] => none

theorem character?_suffix {cs rest : List Char} (h : character? cs = some rest) : rest <:+ cs := by
  unfold character? at h
  split at h
  · obtain ⟨mid, hm, ha⟩ := Option.bind_eq_some_iff.mp h
    exact (afterQuote_suffix ha).trans ((escapeRest_suffix _ _ hm).trans (List.suffix_cons _ _))
  · exact (afterQuote_suffix h).trans (List.suffix_cons _ _)
  · cases h

def afterSuffix (cs : List Char) : List Char :=
  if cs.head?.any isWordStart then afterWord cs else cs

theorem afterSuffix_suffix (cs : List Char) : afterSuffix cs <:+ cs := by
  unfold afterSuffix
  split
  · exact List.dropWhile_suffix _
  · exact List.suffix_rfl

/-! ## Numbers -/

def isDigitOrBar (c : Char) : Bool :=
  c.isDigit || c = '_'

def afterSign : List Char → List Char
  | '+' :: cs => cs
  | '-' :: cs => cs
  | cs => cs

/-- What is left behind an exponent, from behind its letter on, if it has digits. -/
def exponent? (cs : List Char) : Option (List Char) :=
  if ((afterSign (cs.dropWhile (· = '_'))).takeWhile isDigitOrBar).any Char.isDigit then
    some ((afterSign (cs.dropWhile (· = '_'))).dropWhile isDigitOrBar)
  else none

/-- What is left behind a number with a point or an exponent, from behind its first digit on. An exponent without
digits is none, and then only a number with a point is left. -/
def float? (cs : List Char) : Option (List Char) :=
  match cs.dropWhile isDigitOrBar with
  | '.' :: rest =>
    if rest.head?.any fun c => c = '.' || isWordStart c then none
    else
      match rest.dropWhile isDigitOrBar with
      | 'e' :: more => some ((exponent? more).getD ('e' :: more))
      | 'E' :: more => some ((exponent? more).getD ('E' :: more))
      | rest => some rest
  | 'e' :: rest => exponent? rest
  | 'E' :: rest => exponent? rest
  | _ => none

def isBaseDigit (base : Nat) (c : Char) : Bool :=
  c = '_' || (hexValue? c).any (· < base)

/-- What is left behind digits of a base, unless a decimal digit among them is too large. -/
def digitsOfBase? (base : Nat) (cs : List Char) : Option (List Char) :=
  if (cs.dropWhile (isBaseDigit base)).head?.any Char.isDigit
      || !(cs.takeWhile (isBaseDigit base)).any (· ≠ '_') then
    none
  else some (cs.dropWhile (isBaseDigit base))

def whole? : Char → List Char → Option (List Char)
  | '0', 'x' :: cs => digitsOfBase? 16 cs
  | '0', 'o' :: cs => digitsOfBase? 8 cs
  | '0', 'b' :: cs => digitsOfBase? 2 cs
  | _, cs => some (cs.dropWhile isDigitOrBar)

/-- What is left behind a literal with its suffix, by what is left behind the literal. No character of a name may
follow. -/
def complete? (cs : List Char) : Option (List Char) :=
  if (afterSuffix cs).head?.any isNameContinue then none else some (afterSuffix cs)

def number? (c : Char) (cs : List Char) : Option (List Char) :=
  if c.isDigit then ((float? cs).or (whole? c cs)).bind complete? else none

theorem afterSign_suffix (cs : List Char) : afterSign cs <:+ cs := by
  unfold afterSign
  split
  · exact List.suffix_cons _ _
  · exact List.suffix_cons _ _
  · exact List.suffix_rfl

theorem exponent?_suffix {cs rest : List Char} (h : exponent? cs = some rest) : rest <:+ cs := by
  unfold exponent? at h
  split at h
  · cases h
    exact (List.dropWhile_suffix _).trans ((afterSign_suffix _).trans (List.dropWhile_suffix _))
  · cases h

theorem exponent?_getD_suffix (c : Char) (cs : List Char) : (exponent? cs).getD (c :: cs) <:+ c :: cs := by
  cases h : exponent? cs with
  | none => exact List.suffix_rfl
  | some rest => exact (exponent?_suffix h).trans (List.suffix_cons _ _)

theorem float?_suffix {cs rest : List Char} (h : float? cs = some rest) : rest <:+ cs := by
  unfold float? at h
  have hd : cs.dropWhile isDigitOrBar <:+ cs := List.dropWhile_suffix _
  split at h
  · next frac heq =>
    rw [heq] at hd
    have hf : frac.dropWhile isDigitOrBar <:+ cs :=
      (List.dropWhile_suffix _).trans ((List.suffix_cons _ _).trans hd)
    split at h
    · cases h
    · split at h
      · next heq' => cases h; rw [heq'] at hf; exact (exponent?_getD_suffix _ _).trans hf
      · next heq' => cases h; rw [heq'] at hf; exact (exponent?_getD_suffix _ _).trans hf
      · cases h; exact hf
  · next heq => rw [heq] at hd; exact (exponent?_suffix h).trans ((List.suffix_cons _ _).trans hd)
  · next heq => rw [heq] at hd; exact (exponent?_suffix h).trans ((List.suffix_cons _ _).trans hd)
  · cases h

theorem digitsOfBase?_suffix {base : Nat} {cs rest : List Char} (h : digitsOfBase? base cs = some rest) :
    rest <:+ cs := by
  unfold digitsOfBase? at h
  split at h
  · cases h
  · cases h; exact List.dropWhile_suffix _

theorem whole?_suffix {c : Char} {cs rest : List Char} (h : whole? c cs = some rest) : rest <:+ cs := by
  unfold whole? at h
  split at h
  · exact (digitsOfBase?_suffix h).trans (List.suffix_cons _ _)
  · exact (digitsOfBase?_suffix h).trans (List.suffix_cons _ _)
  · exact (digitsOfBase?_suffix h).trans (List.suffix_cons _ _)
  · cases h; exact List.dropWhile_suffix _

theorem number?_suffix {c : Char} {cs rest : List Char} (h : number? c cs = some rest) : rest <:+ cs := by
  unfold number? at h
  split at h
  · obtain ⟨mid, hm, hc⟩ := Option.bind_eq_some_iff.mp h
    have hmid : mid <:+ cs := by
      rcases Option.or_eq_some_iff.mp hm with hf | ⟨_, hw⟩
      · exact float?_suffix hf
      · exact whole?_suffix hw
    unfold complete? at hc
    split at hc
    · cases hc
    · cases hc; exact (afterSuffix_suffix _).trans hmid
  · cases h

/-! ## Quotations -/

/-- What is left behind a string or a character, by its first character and what follows. A mark in front says that it
holds bytes or ends in a null; that does not narrow what may stand in it. -/
def quotation? : Char → List Char → Option (List Char)
  | '"', cs => stringRest .plain cs
  | '\x27', cs => character? cs
  | 'r', cs => rawString? cs
  | 'b', '\x27' :: cs => character? cs
  | 'b', '"' :: cs => stringRest .plain cs
  | 'b', 'r' :: cs => rawString? cs
  | 'c', '"' :: cs => stringRest .plain cs
  | 'c', 'r' :: cs => rawString? cs
  | _, _ => none

theorem quotation?_suffix {c : Char} {cs rest : List Char} (h : quotation? c cs = some rest) : rest <:+ cs := by
  unfold quotation? at h
  split at h
  · exact stringRest_suffix _ _ h
  · exact character?_suffix h
  · exact rawString?_suffix h
  · exact (character?_suffix h).trans (List.suffix_cons _ _)
  · exact (stringRest_suffix _ _ h).trans (List.suffix_cons _ _)
  · exact (rawString?_suffix h).trans (List.suffix_cons _ _)
  · exact (stringRest_suffix _ _ h).trans (List.suffix_cons _ _)
  · exact (rawString?_suffix h).trans (List.suffix_cons _ _)
  · cases h

/-- The beginnings of marked strings, which are no words even where the string is not complete. -/
def stringMarks : List (List Char) :=
  ["r\"", "r#\"", "r##", "b\"", "b\x27", "br\"", "br#", "c\"", "cr\"", "cr#"].map String.toList

/-! ## Signs -/

/-- The bracket of a character. -/
def bracket? : Char → Option Lexeme
  | '(' => some (.opening .round)
  | '[' => some (.opening .square)
  | '{' => some (.opening .curly)
  | ')' => some (.closing .round)
  | ']' => some (.closing .square)
  | '}' => some (.closing .curly)
  | _ => none

/-- Whether a character is a sign. -/
def isSign (c : Char) : Bool :=
  "~!@#$%^&*-=+|;:,<.>/?".toList.contains c

/-- Whether a text starts with a sign. A comment does not. -/
def startsSign : List Char → Bool
  | '/' :: '/' :: _ => false
  | '/' :: '*' :: _ => false
  | c :: _ => isSign c
  | [] => false

/-- What is left behind a lifetime, from behind its quote on. -/
def lifetime? : List Char → Option (List Char)
  | c :: cs =>
    match word? c cs with
    | some (_, rest) => if (afterQuote rest).isSome then none else some rest
    | none => none
  | [] => none

theorem lifetime?_suffix {cs rest : List Char} (h : lifetime? cs = some rest) : rest <:+ cs := by
  unfold lifetime? at h
  split at h
  · split at h
    · next hw =>
      split at h
      · cases h
      · cases h; exact (word?_suffix hw).trans (List.suffix_cons _ _)
    · cases h
  · cases h

/-! ## Texts as lexemes -/

/-- A lexeme other than a literal, by its first character and what follows, and what is left behind it. -/
def plain? (c : Char) (cs : List Char) : Option (Lexeme × List Char) :=
  match document? c cs with
  | some (b, cs) => (documentRest b cs).map fun rest => (.document (!(['!'].isPrefixOf cs)), rest)
  | none =>
    if isSign c then some (.sign c (startsSign cs), cs)
    else if c = '\x27' then (lifetime? cs).map fun rest => (.lifetime, rest)
    else if stringMarks.any fun mark => mark.isPrefixOf (c :: cs) then none
    else word? c cs

/-- A lexeme by its first character and what follows, and what is left behind it. -/
def read (c : Char) (cs : List Char) : Option (Lexeme × List Char) :=
  match bracket? c with
  | some l => some (l, cs)
  | none =>
    match quotation? c cs with
    | some rest => some (.quotation, afterSuffix rest)
    | none =>
      match number? c cs with
      | some rest => some (.number, rest)
      | none => plain? c cs

theorem plain?_suffix {c : Char} {cs rest : List Char} {l : Lexeme} (h : plain? c cs = some (l, rest)) :
    rest <:+ cs := by
  unfold plain? at h
  split at h
  · next hd =>
    obtain ⟨r, hr, he⟩ := Option.map_eq_some_iff.mp h
    cases he
    exact (documentRest_suffix _ _ hr).trans (document?_suffix hd)
  · split at h
    · cases h; exact List.suffix_rfl
    · split at h
      · obtain ⟨r, hr, he⟩ := Option.map_eq_some_iff.mp h
        cases he
        exact lifetime?_suffix hr
      · split at h
        · cases h
        · exact word?_suffix h

theorem read_suffix {c : Char} {cs rest : List Char} {l : Lexeme} (h : read c cs = some (l, rest)) : rest <:+ cs := by
  unfold read at h
  split at h
  · cases h; exact List.suffix_rfl
  · split at h
    · next hq => cases h; exact (afterSuffix_suffix _).trans (quotation?_suffix hq)
    · split at h
      · next hn => cases h; exact number?_suffix hn
      · exact plain?_suffix h

/-- The lexemes of a text, whether its brackets match or not. -/
def scanAll (cs : List Char) : Option (List Lexeme) :=
  match _hb : skipBlanks .space cs with
  | none => none
  | some [] => some []
  | some (c :: more) =>
    match _hr : read c more with
    | none => none
    | some (l, rest) => (scanAll rest).map (l :: ·)
termination_by cs.length
decreasing_by
  have hskip := (skipBlanks_suffix _ _ _hb).length_le
  have hread := (read_suffix _hr).length_le
  rw [List.length_cons] at hskip
  omega

/-- Whether the brackets match, behind some that are open. -/
def balanced : List Bracket → List Lexeme → Bool
  | opened, .opening b :: ls => balanced (b :: opened) ls
  | b' :: opened, .closing b :: ls => b = b' && balanced opened ls
  | [], .closing _ :: _ => false
  | opened, _ :: ls => balanced opened ls
  | opened, [] => opened.isEmpty

/-- What is left of a text behind the mark of its byte order. -/
def afterByteOrderMark : List Char → List Char
  | '\uFEFF' :: cs => cs
  | cs => cs

def scan (s : String) : Option (List Lexeme) :=
  (scanAll (afterByteOrderMark s.toList)).filter (balanced [])

end Lexeme

end DefTable.Target
