import DefTable.Proofs.BytePlaces

/-!
# A scanner of bytes

Cutting a source into tokens byte by byte (`Bytewise.scan`). The position is a number of bytes. Names, numbers and
strings are slices of the source, and so is what an operator or an unexpected character is found in. The source of an
interpolation is skipped by two functions that call each other, one between parentheses and one between quotes; they
look at single bytes, pass two at once behind a backslash, and may run past the end.
-/

namespace DefTable

open Text Token

namespace Bytewise

def fault {α : Type} (cause : SyntaxError.Cause) (offset : Nat) : Except Crash α :=
  .error (.fault (SyntaxError.diagnostic ⟨cause, offset⟩))

theorem lt_of_peek {text : List Char} {pos : Nat} {c : Char} (h : peek text pos = some c) : pos < byteLength text := by
  obtain ⟨b, hb, -⟩ := Option.map_eq_some_iff.1 h
  rw [← length_encode]
  exact (List.getElem?_eq_some_iff.1 hb).1

section
variable (text : List Char)

/-! ## Blanks, names and numbers -/

/-- Passes bytes while they have a property. -/
def passWhile (p : Char → Bool) (pos : Nat) : Nat :=
  match _h : peek text pos with
  | some c => if p c then passWhile p (pos + 1) else pos
  | none => pos
termination_by byteLength text - pos
decreasing_by
  have := lt_of_peek _h
  omega

theorem passWhile_none {p : Char → Bool} {pos : Nat} (h : peek text pos = none) : passWhile text p pos = pos := by
  rw [passWhile]
  split
  · next h' => cases h.symm.trans h'
  · rfl

theorem passWhile_stop {p : Char → Bool} {pos : Nat} {c : Char} (h : peek text pos = some c) (hc : p c = false) :
    passWhile text p pos = pos := by
  rw [passWhile]
  split
  · next h' =>
    cases h.symm.trans h'
    exact if_neg (by rw [hc]; exact Bool.false_ne_true)
  · rfl

theorem passWhile_pass {p : Char → Bool} {pos : Nat} {c : Char} (h : peek text pos = some c) (hc : p c = true) :
    passWhile text p pos = passWhile text p (pos + 1) := by
  conv_lhs => rw [passWhile]
  split
  · next h' =>
    cases h.symm.trans h'
    exact if_pos hc
  · next h' => cases h.symm.trans h'

theorem le_passWhile (p : Char → Bool) (pos : Nat) : pos ≤ passWhile text p pos := by
  fun_induction passWhile text p pos with
  | case1 pos c h hc ih => exact Nat.le_of_succ_le ih
  | case2 => exact Nat.le_refl _
  | case3 => exact Nat.le_refl _

/-- Skips white space and comments. -/
def skipTrivia (pos : Nat) : Nat :=
  match _h : peek text pos with
  | some c =>
    if isBlank c then skipTrivia (pos + 1)
    else if c = '#' then skipTrivia (passWhile text (· ≠ '\n') pos)
    else pos
  | none => pos
termination_by byteLength text - pos
decreasing_by
  · have := lt_of_peek _h
    omega
  · next hc =>
    subst hc
    have := lt_of_peek _h
    have hpass := passWhile_pass text (p := (· ≠ '\n')) _h (by decide)
    have := le_passWhile text (· ≠ '\n') (pos + 1)
    omega

/-- Passes a name. -/
def passName (pos : Nat) : Nat :=
  match _h : peek text pos with
  | some c =>
    if isIdentContinue c then passName (pos + 1)
    else if c = ':' ∧ peek text (pos + 1) = some ':' ∧ (peek text (pos + 2)).any isIdentStart then passName (pos + 2)
    else pos
  | none => pos
termination_by byteLength text - pos
decreasing_by
  all_goals
    have := lt_of_peek _h
    omega

/-- Passes a number. -/
def passNumber (pos : Nat) : Nat :=
  let whole := passWhile text Char.isDigit pos
  let fraction :=
    if peek text whole = some '.' ∧ peek text (whole + 1) ≠ some '.' then passWhile text Char.isDigit (whole + 1)
    else whole
  if (peek text fraction).any fun c => c = 'e' || c = 'E' then
    let sign := if (peek text (fraction + 1)).any fun c => c = '+' || c = '-' then 1 else 0
    if (peek text (fraction + 1 + sign)).any Char.isDigit then passWhile text Char.isDigit (fraction + 1 + sign)
    else fraction
  else fraction

/-! ## Interpolations -/

variable (base : Nat)

mutual

/-- Skips to the parenthesis that closes an interpolation, with a number of parentheses open. -/
def skipInterpolation : Nat → Nat → Nat → Nat → Except Crash Nat
  | 0, _, _, _ => .error .exhausted
  | n + 1, depth, start, pos =>
    match peek text pos with
    | none => fault .unterminatedInterpolation (base + start)
    | some '(' => skipInterpolation n (depth + 1) start (pos + 1)
    | some ')' => if depth = 1 then .ok (pos + 1) else skipInterpolation n (depth - 1) start (pos + 1)
    | some '"' => do
      let next ← skipString n pos (pos + 1)
      skipInterpolation n depth start next
    | some '#' => skipInterpolation n depth start (skipTrivia text pos)
    | some _ => skipInterpolation n depth start (pos + 1)

/-- Skips to the quote that closes a string. -/
def skipString : Nat → Nat → Nat → Except Crash Nat
  | 0, _, _ => .error .exhausted
  | n + 1, start, pos =>
    match peek text pos with
    | none => fault .unterminatedString (base + start)
    | some '"' => .ok (pos + 1)
    | some '\\' =>
      if peek text (pos + 1) = some '(' then do
        let next ← skipInterpolation n 1 pos (pos + 2)
        skipString n start next
      else skipString n start (pos + 2)
    | some _ => skipString n start (pos + 1)

end

/-! ## Strings -/

/-- The value of four hexadecimal digits, if these come next. This slice is checked. -/
def hex4 (pos : Nat) : Option Nat :=
  match slice text pos (pos + 4) with
  | .ok digits => (hex4? digits).map Prod.fst
  | .error _ => none

/-- A code point escape behind its letter. -/
def unicode (start pos : Nat) : Except Crash (Char × Nat) :=
  match hex4 text pos with
  | none => fault .unicodeEscape (base + start)
  | some high =>
    if 0xD800 ≤ high ∧ high < 0xDC00 then do
      let rest ← sliceFrom text (pos + 4)
      if ['\\', 'u'].isPrefixOf rest then
        match hex4 text (pos + 6) with
        | none => fault .unicodeEscape (base + start)
        | some low => .ok (if 0xDC00 ≤ low ∧ low < 0xE000 then surrogatePair high low else '\uFFFD', pos + 10)
      else .ok ('\uFFFD', pos + 4)
    else .ok (charOrReplacement high, pos + 4)

/-- An escape whose backslash is at a position. -/
def escape (n quote start : Nat) : Except Crash (Piece × Nat) :=
  match peek text (start + 1) with
  | none => fault .unterminatedString (base + quote)
  | some 'u' => do
    let (c, next) ← unicode text base start (start + 2)
    return (.char c, next)
  | some '(' => do
    let next ← skipInterpolation text base n 1 start (start + 2)
    let inner ← slice text (start + 2) (next - 1)
    return (.interpolation (String.ofList inner) (base + start + 2), next)
  | some d =>
    match shortEscape? d with
    | some c => .ok (.char c, start + 2)
    | none =>
      .error (.fault (.unlocated ("invalid escape sequence \"\\" ++ String.singleton d ++ "\"") (base + start)))

/-- The pieces of a string, up to and with the closing quote. -/
def pieces (quote : Nat) : Nat → Nat → Except Crash (List Piece × Nat)
  | 0, _ => .error .exhausted
  | n + 1, pos => do
    match ← sliceFrom text pos with
    | [] => fault .unterminatedString (base + quote)
    | '"' :: _ => return ([], pos + 1)
    | '\\' :: _ => do
      let (piece, next) ← escape text base n quote pos
      let (ps, last) ← pieces quote n next
      return (piece :: ps, last)
    | c :: _ => do
      let (ps, last) ← pieces quote n (pos + c.utf8Size)
      return (.char c :: ps, last)

/-! ## Tokens -/

def sigilName (make : String → Token) (cause : SyntaxError.Cause) (sigil : Char) (pos : Nat) :
    Except Crash (Token × Nat) := do
  let next := passName text (pos + 1)
  match ← slice text (pos + 1) next with
  | [] => fault cause (base + pos)
  | name => return (make (String.ofList (sigil :: name)), next)

def number (pos : Nat) : Except Crash (Token × Nat) := do
  let next := passNumber text pos
  let digits ← slice text pos next
  return (.number (String.ofList digits), next)

/-- What starts with a dot. -/
def dot (pos : Nat) : Except Crash (Token × Nat) :=
  match peek text (pos + 1) with
  | none => .ok (.dot, pos + 1)
  | some c =>
    if c = '.' then .ok (.dotDot, pos + 2)
    else if c.isDigit then number text pos
    else if isIdentStart c then do
      let next := passName text (pos + 1)
      let name ← slice text (pos + 1) next
      return (.field (String.ofList name), next)
    else .ok (.dot, pos + 1)

/-- An operator, or a character that starts no token. -/
def operator (pos : Nat) : Except Crash (Token × Nat) := do
  match splitOperator? (← sliceFrom text pos) with
  | some (o, _) => return (.op o, pos + byteLength o.text.toList)
  | none =>
    match ← sliceFrom text pos with
    | [] => fault (.strayCharacter '?') (base + pos)
    | c :: _ => fault (.strayCharacter c) (base + pos)

/-- The token that starts at a position with the byte `c`. -/
def token (n pos : Nat) (c : Char) : Except Crash (Token × Nat) :=
  if c = '.' then dot text pos
  else if c = '$' then sigilName text base .variable .variableName '$' pos
  else if c = '@' then sigilName text base .format .formatName '@' pos
  else if c = '"' then do
    let (ps, next) ← pieces text base pos n (pos + 1)
    return (.str (partsOf ps), next)
  else if c.isDigit then number text pos
  else if isIdentStart c then do
    let next := passName text pos
    let name ← slice text pos next
    return (ofWord (String.ofList name), next)
  else
    match sign? c with
    | some t => .ok (t, pos + 1)
    | none =>
      if c = '?' then
        if peek text (pos + 1) = some '/' ∧ peek text (pos + 2) = some '/' then .ok (.alternative, pos + 3)
        else .ok (.question, pos + 1)
      else operator text base pos

/-- The tokens from a position on. -/
def tokens : Nat → Nat → Except Crash Lexemes
  | 0, _ => .error .exhausted
  | n + 1, pos =>
    let start := skipTrivia text pos
    match peek text start with
    | none => .ok [⟨.eof, base + start⟩]
    | some c => do
      let (t, next) ← token text base n start c
      let ls ← tokens n next
      return ⟨t, base + start⟩ :: ls

end

/-- **The tokens of a source**, read byte by byte. -/
def scan (source : String) (base : Nat) : Except Crash Lexemes :=
  tokens source.toList base (byteLength source.toList + 1) 0

end Bytewise
end DefTable
