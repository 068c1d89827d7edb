import DefTable.Token.Quotation

/-!
# Cutting a source into tokens

`Token.scan` turns a source into its tokens with their byte offsets; the last one is always the end of the source.
White space and comments separate tokens and leave no trace. Everywhere the longest token wins, but a number takes no
dot that is followed by another one, and a name takes `::` only before a letter.

Offsets are natural numbers. They are those of a machine as long as the base and the length of the source together fit
into a word of it, which holds for what is cut out of a source in memory.
-/

namespace DefTable

open Text

namespace Token

/-! ## Blanks and comments -/

/-- Whether a character separates tokens. -/
def isBlank (c : Char) : Bool :=
  c = ' ' || c = '\t' || c = '\n' || c = '\r'

/-- Skips white space and comments, which run from a number sign to the end of the line. -/
def skipTrivia (inComment : Bool) (offset : Nat) : List Char → Cursor
  | [] => ⟨offset, []⟩
  | c :: cs =>
    if inComment then skipTrivia (c != '\n') (offset + c.utf8Size) cs
    else if isBlank c then skipTrivia false (offset + c.utf8Size) cs
    else if c = '#' then skipTrivia true (offset + c.utf8Size) cs
    else ⟨offset, c :: cs⟩

theorem length_skipTrivia_le : ∀ (inComment : Bool) (offset : Nat) (cs : List Char),
    (skipTrivia inComment offset cs).rest.length ≤ cs.length
  | _, _, [] => by simp [skipTrivia]
  | inComment, offset, c :: cs => by
    unfold skipTrivia
    split
    · exact Nat.le_succ_of_le (length_skipTrivia_le _ _ _)
    · split
      · exact Nat.le_succ_of_le (length_skipTrivia_le _ _ _)
      · split
        · exact Nat.le_succ_of_le (length_skipTrivia_le _ _ _)
        · exact Nat.le_refl _

/-! ## Names -/

def isIdentStart (c : Char) : Bool :=
  c.isAlpha || c = '_'

def isIdentContinue (c : Char) : Bool :=
  c.isAlphanum || c = '_'

/-- Cuts a text behind the longest name at its start. The name may be empty, and may begin with what only continues a
name: who asks for a name looks at the first character where that matters. -/
def splitName : List Char → List Char × List Char
  | [] => ([], [])
  | ':' :: ':' :: c :: cs =>
    if isIdentStart c then
      let (name, rest) := splitName cs
      (':' :: ':' :: c :: name, rest)
    else ([], ':' :: ':' :: c :: cs)
  | c :: cs =>
    if isIdentContinue c then
      let (name, rest) := splitName cs
      (c :: name, rest)
    else ([], c :: cs)

/-- Cutting loses nothing. -/
theorem splitName_append (cs : List Char) : (splitName cs).1 ++ (splitName cs).2 = cs := by
  fun_induction splitName cs <;> simp_all

/-! ## Numbers -/

/-- Cuts a text behind the digits at its start. -/
def splitDigits (cs : List Char) : List Char × List Char :=
  (cs.takeWhile Char.isDigit, cs.dropWhile Char.isDigit)

/-- Cuts a text behind a decimal point and the digits after it, if it starts with a point that is not followed by
another one. -/
def splitFraction : List Char → List Char × List Char
  | '.' :: cs =>
    if cs.head? = some '.' then ([], '.' :: cs)
    else ('.' :: (splitDigits cs).1, (splitDigits cs).2)
  | cs => ([], cs)

/-- Cuts a text behind its sign, if it starts with one. -/
def splitSign : List Char → List Char × List Char
  | '+' :: cs => (['+'], cs)
  | '-' :: cs => (['-'], cs)
  | cs => ([], cs)

/-- Cuts a text behind an exponent, if it starts with one that has digits. -/
def splitExponent : List Char → List Char × List Char
  | [] => ([], [])
  | c :: cs =>
    if (c = 'e' || c = 'E') && (splitSign cs).2.head?.any Char.isDigit then
      (c :: ((splitSign cs).1 ++ (splitDigits (splitSign cs).2).1), (splitDigits (splitSign cs).2).2)
    else ([], c :: cs)

/-- Cuts a text behind the number at its start. -/
def splitNumber (cs : List Char) : List Char × List Char :=
  let (whole, rest) := splitDigits cs
  let (fraction, rest) := splitFraction rest
  let (exponent, rest) := splitExponent rest
  (whole ++ fraction ++ exponent, rest)

theorem splitDigits_append (cs : List Char) : (splitDigits cs).1 ++ (splitDigits cs).2 = cs :=
  List.takeWhile_append_dropWhile

theorem splitFraction_append (cs : List Char) : (splitFraction cs).1 ++ (splitFraction cs).2 = cs := by
  unfold splitFraction
  split
  · split
    · rfl
    · rw [List.cons_append, splitDigits_append]
  · rfl

theorem splitSign_append (cs : List Char) : (splitSign cs).1 ++ (splitSign cs).2 = cs := by
  unfold splitSign
  split <;> rfl

theorem splitExponent_append (cs : List Char) : (splitExponent cs).1 ++ (splitExponent cs).2 = cs := by
  unfold splitExponent
  split
  · rfl
  · split
    · rw [List.cons_append, List.append_assoc, splitDigits_append, splitSign_append]
    · rfl

theorem splitNumber_append (cs : List Char) : (splitNumber cs).1 ++ (splitNumber cs).2 = cs := by
  unfold splitNumber
  rw [List.append_assoc, splitExponent_append, List.append_assoc, splitFraction_append, splitDigits_append]

/-! ## Operators -/

/-- Cuts a text behind the longest operator sign at its start. The operators that are words are reserved words, and a
comma is read with the punctuation. -/
def splitOperator? : List Char → Option (Operator × List Char)
  | '/' :: '/' :: '=' :: cs => some (.updateAlt, cs)
  | '/' :: '/' :: cs => some (.alt, cs)
  | '/' :: '=' :: cs => some (.updateDiv, cs)
  | '/' :: cs => some (.div, cs)
  | '|' :: '=' :: cs => some (.modify, cs)
  | '|' :: cs => some (.pipe, cs)
  | '+' :: '=' :: cs => some (.updateAdd, cs)
  | '+' :: cs => some (.add, cs)
  | '-' :: '=' :: cs => some (.updateSub, cs)
  | '-' :: cs => some (.sub, cs)
  | '*' :: '=' :: cs => some (.updateMul, cs)
  | '*' :: cs => some (.mul, cs)
  | '%' :: '=' :: cs => some (.updateMod, cs)
  | '%' :: cs => some (.mod, cs)
  | '=' :: '=' :: cs => some (.eq, cs)
  | '=' :: cs => some (.assign, cs)
  | '!' :: '=' :: cs => some (.ne, cs)
  | '<' :: '=' :: cs => some (.le, cs)
  | '<' :: cs => some (.lt, cs)
  | '>' :: '=' :: cs => some (.ge, cs)
  | '>' :: cs => some (.gt, cs)
  | _ => none

/-- What is left behind an operator is what stands behind its spelling. -/
theorem splitOperator?_append {cs : List Char} {op rest} (h : splitOperator? cs = some (op, rest)) :
    op.text.toList ++ rest = cs := by
  unfold splitOperator? at h
  split at h <;> cases h <;> rfl

/-! ## Tokens -/

/-- A name token, unless the name is empty. -/
def readName (make : String → Token) (cause : SyntaxError.Cause) (sigil : Char) (offset : Nat) (cs : List Char) :
    Except SyntaxError (Token × Cursor) :=
  match splitName cs with
  | ([], _) => .error ⟨cause, offset⟩
  | (name, rest) => .ok (make (String.ofList (sigil :: name)), .behind offset (sigil :: name) rest)

/-- A word: a reserved one, or an identifier. -/
def ofWord (word : String) : Token :=
  match Keyword.ofText? word with
  | some k => .keyword k
  | none => .ident word

/-- A token that is one sign of one byte. -/
def sign? : Char → Option Token
  | '(' => some .leftParen
  | ')' => some .rightParen
  | '[' => some .leftBracket
  | ']' => some .rightBracket
  | '{' => some .leftBrace
  | '}' => some .rightBrace
  | ':' => some .colon
  | ';' => some .semicolon
  | ',' => some (.op .comma)
  | _ => none

/-- Reads what starts with a dot. -/
def readDot (offset : Nat) (cs : List Char) : Token × Cursor :=
  match cs with
  | [] => (.dot, ⟨offset + 1, []⟩)
  | c :: cs =>
    if c = '.' then (.dotDot, ⟨offset + 2, cs⟩)
    else if c.isDigit then
      let (digits, rest) := splitNumber ('.' :: c :: cs)
      (.number (String.ofList digits), .behind offset digits rest)
    else if isIdentStart c then
      let (name, rest) := splitName (c :: cs)
      (.field (String.ofList name), .behind (offset + 1) name rest)
    else (.dot, ⟨offset + 1, c :: cs⟩)

/-- Reads the token that starts with the character `c` at an offset, in front of `cs`. -/
def read (offset : Nat) (c : Char) (cs : List Char) : Except SyntaxError (Token × Cursor) :=
  if c = '.' then .ok (readDot offset cs)
  else if c = '$' then readName .variable .variableName '$' offset cs
  else if c = '@' then readName .format .formatName '@' offset cs
  else if c = '"' then readString offset cs
  else if c.isDigit then
    let (digits, rest) := splitNumber (c :: cs)
    .ok (.number (String.ofList digits), .behind offset digits rest)
  else if isIdentStart c then
    let (name, rest) := splitName (c :: cs)
    .ok (ofWord (String.ofList name), .behind offset name rest)
  else
    match sign? c with
    | some t => .ok (t, ⟨offset + 1, cs⟩)
    | none =>
      match c, cs with
      | '?', '/' :: '/' :: cs => .ok (.alternative, ⟨offset + 3, cs⟩)
      | '?', cs => .ok (.question, ⟨offset + 1, cs⟩)
      | c, cs =>
        match splitOperator? (c :: cs) with
        | some (o, rest) => .ok (.op o, .behind offset o.text.toList rest)
        | none => .error ⟨.strayCharacter c, offset⟩

theorem length_le_of_append {as bs : List Char} {c : Char} {cs : List Char} (h : as ++ bs = c :: cs) (ha : as ≠ []) :
    bs.length ≤ cs.length := by
  have hl := congrArg List.length h
  have := List.length_pos_iff.2 ha
  simp only [List.length_append, List.length_cons] at hl
  omega

theorem isIdentContinue_of_isIdentStart {c : Char} (h : isIdentStart c = true) : isIdentContinue c = true := by
  simp only [isIdentStart, isIdentContinue, Bool.or_eq_true, Char.isAlphanum] at h ⊢
  exact h.imp_left Or.inl

theorem splitName_ne_nil {c : Char} (cs : List Char) (h : isIdentContinue c = true) : (splitName (c :: cs)).1 ≠ [] := by
  unfold splitName
  split
  · next heq => cases heq
  · next heq => cases heq; exact absurd h (by decide)
  · next heq => cases heq; rw [if_pos h]; exact List.cons_ne_nil _ _

theorem splitNumber_ne_nil {c : Char} (cs : List Char) (h : c.isDigit = true) : (splitNumber (c :: cs)).1 ≠ [] := by
  simp [splitNumber, splitDigits, h]

theorem splitNumber_dot_ne_nil {c : Char} (cs : List Char) (h : c.isDigit = true) :
    (splitNumber ('.' :: c :: cs)).1 ≠ [] := by
  have hdot : ('.' : Char).isDigit = false := by decide
  have hc : c ≠ '.' := fun hc => by simp [hc, hdot] at h
  simp [splitNumber, splitDigits, splitFraction, hdot, hc]

theorem length_readName_le {make cause sigil offset cs t next}
    (h : readName make cause sigil offset cs = .ok (t, next)) : next.rest.length ≤ cs.length := by
  unfold readName at h
  split at h
  · cases h
  · next name rest _ hsplit =>
    cases h
    have := congrArg List.length (splitName_append cs)
    simp only [hsplit, List.length_append] at this
    exact Nat.le.intro (by simpa [Cursor.behind, Nat.add_comm] using this)

theorem length_readDot_le (offset : Nat) (cs : List Char) : (readDot offset cs).2.rest.length ≤ cs.length := by
  unfold readDot
  split
  · exact Nat.le_refl _
  · next c cs =>
    split
    · exact Nat.le_succ _
    · split
      · next hd => exact length_le_of_append (splitNumber_append _) (splitNumber_dot_ne_nil cs hd)
      · split
        · next hs =>
          exact Nat.le_succ_of_le
            (length_le_of_append (splitName_append _) (splitName_ne_nil cs (isIdentContinue_of_isIdentStart hs)))
        · exact Nat.le_refl _

/-- Every token takes at least its first character. -/
theorem length_read_le {offset : Nat} {c : Char} {cs : List Char} {t next} (h : read offset c cs = .ok (t, next)) :
    next.rest.length ≤ cs.length := by
  unfold read at h
  split at h
  · have := length_readDot_le offset cs
    rwa [Except.ok.inj h] at this
  split at h
  · exact length_readName_le h
  split at h
  · exact length_readName_le h
  split at h
  · exact Nat.le_of_lt (length_readString_lt h)
  split at h
  · next hd => cases h; exact length_le_of_append (splitNumber_append _) (splitNumber_ne_nil cs hd)
  split at h
  · next hs =>
    cases h
    exact length_le_of_append (splitName_append _) (splitName_ne_nil cs (isIdentContinue_of_isIdentStart hs))
  split at h
  · cases h; exact Nat.le_refl _
  split at h
  · cases h; simp only [List.length_cons]; omega
  · cases h; exact Nat.le_refl _
  · split at h
    · next o rest hop =>
      cases h
      exact length_le_of_append (splitOperator?_append hop) (by cases o <;> decide)
    · cases h

/-- The tokens from a cursor on. -/
def scanFrom (cursor : Cursor) : Except SyntaxError (List Lexeme) :=
  match _htrivia : skipTrivia false cursor.offset cursor.rest with
  | ⟨offset, []⟩ => .ok [⟨.eof, offset⟩]
  | ⟨offset, c :: cs⟩ =>
    match _hread : read offset c cs with
    | .error e => .error e
    | .ok (t, next) =>
      match scanFrom next with
      | .error e => .error e
      | .ok lexemes => .ok (⟨t, offset⟩ :: lexemes)
termination_by cursor.rest.length
decreasing_by
  have := length_skipTrivia_le false cursor.offset cursor.rest
  have := length_read_le _hread
  simp_all
  omega

/-- The tokens of a source whose first byte has the offset `base`. -/
def scan (source : String) (base : Nat) : Except SyntaxError (List Lexeme) :=
  scanFrom ⟨base, source.toList⟩

end Token

end DefTable
