import DefTable.SyntaxError

/-!
# Strings in a source

Reading the body of a string behind its opening quote (`readString`). Escapes are decoded on the way. An interpolation
is not read but skipped to the parenthesis that closes it. While skipping, only parentheses, quotes, backslashes and
comments count; what a character is inside of is kept on a stack (`Enclosure.step`), and the text ends where the stack
runs out (`skipEnclosed`).
-/

namespace DefTable

open Text

/-- The rest of a source, and the byte offset at which it starts. -/
structure Cursor where
  offset : Nat
  rest : List Char
deriving DecidableEq, Repr

/-- The cursor behind a text that starts at an offset. -/
def Cursor.behind (offset : Nat) (text rest : List Char) : Cursor :=
  ⟨offset + byteLength text, rest⟩

namespace Token

/-! ## Interpolations -/

/-- What a skipped character is inside of. -/
inductive Enclosure where
  /-- An interpolation that starts at an offset, with a number of parentheses open besides its own. -/
  | interpolation (opened start : Nat)
  /-- A string that starts at an offset. -/
  | string (start : Nat)
  /-- The place behind a backslash at an offset. -/
  | escape (start : Nat)
  | comment
deriving DecidableEq, Repr

namespace Enclosure

/-- What the text behind a character is inside of, the innermost enclosure first. -/
def step (offset : Nat) (c : Char) : List Enclosure → List Enclosure
  | [] => []
  | .interpolation opened start :: below =>
    match c, opened with
    | ')', 0 => below
    | ')', opened + 1 => .interpolation opened start :: below
    | '(', opened => .interpolation (opened + 1) start :: below
    | '"', opened => .string offset :: .interpolation opened start :: below
    | '#', opened => .comment :: .interpolation opened start :: below
    | _, opened => .interpolation opened start :: below
  | .string start :: below =>
    match c with
    | '"' => below
    | '\\' => .escape offset :: .string start :: below
    | _ => .string start :: below
  | .escape start :: below => if c = '(' then .interpolation 0 start :: below else below
  | .comment :: below => if c = '\n' then below else .comment :: below

/-- The fault of a source that ends inside of the given enclosures. -/
def unterminated : List Enclosure → SyntaxError
  | .interpolation _ start :: _ => ⟨.unterminatedInterpolation, start⟩
  | .string start :: _ => ⟨.unterminatedString, start⟩
  | _ :: below => unterminated below
  | [] => ⟨.unterminatedInterpolation, 0⟩

end Enclosure

/-- Skips to the end of the outermost of the enclosures. The result is the skipped text without its last character,
and what comes after that. -/
def skipEnclosed (enclosures : List Enclosure) (offset : Nat) :
    List Char → Except SyntaxError (List Char × Cursor)
  | [] => .error (Enclosure.unterminated enclosures)
  | c :: cs =>
    match Enclosure.step offset c enclosures with
    | [] => .ok ([], ⟨offset + c.utf8Size, cs⟩)
    | inner =>
      match skipEnclosed inner (offset + c.utf8Size) cs with
      | .ok (text, next) => .ok (c :: text, next)
      | .error e => .error e

theorem length_skipEnclosed_lt : ∀ (cs : List Char) (enclosures : List Enclosure) (offset : Nat) {text next},
    skipEnclosed enclosures offset cs = .ok (text, next) → next.rest.length < cs.length
  | [], _, _, _, _, h => by simp [skipEnclosed] at h
  | c :: cs, enclosures, offset, text, next, h => by
    unfold skipEnclosed at h
    split at h
    · cases h; exact Nat.lt_succ_self _
    · split at h
      · next h' => cases h; exact Nat.lt_succ_of_lt (length_skipEnclosed_lt cs _ _ h')
      · cases h

/-! ## Escapes -/

inductive Piece where
  | char (c : Char)
  | interpolation (source : String) (offset : Nat)
deriving DecidableEq, Repr

/-- The character that a letter behind a backslash stands for. -/
def shortEscape? : Char → Option Char
  | '"' => some '"'
  | '\\' => some '\\'
  | '/' => some '/'
  | 'b' => some '\x08'
  | 'f' => some '\x0c'
  | 'n' => some '\n'
  | 'r' => some '\r'
  | 't' => some '\t'
  | _ => none

/-- The value of four hexadecimal digits, and what comes after them. -/
def hex4? : List Char → Option (Nat × List Char)
  | a :: b :: c :: d :: rest =>
    match hexValue? a, hexValue? b, hexValue? c, hexValue? d with
    | some a, some b, some c, some d => some (((a * 16 + b) * 16 + c) * 16 + d, rest)
    | _, _, _, _ => none
  | _ => none

theorem length_hex4?_lt {cs : List Char} {n rest} (h : hex4? cs = some (n, rest)) : rest.length < cs.length := by
  unfold hex4? at h
  split at h
  · split at h
    · cases h; simp only [List.length_cons]; omega
    · cases h
  · cases h

/-- The character of a code point, or the replacement character where there is none. -/
def charOrReplacement (n : Nat) : Char :=
  if n.isValidChar then Char.ofNat n else '\uFFFD'

def surrogatePair (high low : Nat) : Char :=
  charOrReplacement (0x10000 + (high - 0xD800) * 0x400 + (low - 0xDC00))

/-- Reads a code point escape behind its letter. A high surrogate takes the escape that follows it along; when that is
no low surrogate, both together give the replacement character. -/
def readUnicode (start offset : Nat) (cs : List Char) : Except SyntaxError (Char × Cursor) :=
  match hex4? cs with
  | none => .error ⟨.unicodeEscape, start⟩
  | some (high, rest) =>
    if 0xD800 ≤ high ∧ high < 0xDC00 then
      match rest with
      | '\\' :: 'u' :: cs' =>
        match hex4? cs' with
        | none => .error ⟨.unicodeEscape, start⟩
        | some (low, rest') =>
          .ok (if 0xDC00 ≤ low ∧ low < 0xE000 then surrogatePair high low else '\uFFFD', ⟨offset + 10, rest'⟩)
      | rest => .ok ('\uFFFD', ⟨offset + 4, rest⟩)
    else .ok (charOrReplacement high, ⟨offset + 4, rest⟩)

theorem length_readUnicode_lt {start offset : Nat} {cs : List Char} {c next}
    (h : readUnicode start offset cs = .ok (c, next)) : next.rest.length < cs.length := by
  unfold readUnicode at h
  split at h
  · cases h
  · next high rest hhex =>
    have hlt := length_hex4?_lt hhex
    split at h
    · split at h
      · next cs' =>
        split at h
        · cases h
        · next low rest' hlow =>
          have := length_hex4?_lt hlow
          cases h
          simp only [List.length_cons] at hlt
          show rest'.length < cs.length
          omega
      · cases h; exact hlt
    · cases h; exact hlt

/-- Reads an escape behind its backslash, which is at the offset `start` in a string whose quote is at `quote`. -/
def readEscape (quote start : Nat) : List Char → Except SyntaxError (Piece × Cursor)
  | [] => .error ⟨.unterminatedString, quote⟩
  | 'u' :: cs =>
    match readUnicode start (start + 2) cs with
    | .ok (c, next) => .ok (.char c, next)
    | .error e => .error e
  | '(' :: cs =>
    match skipEnclosed [.interpolation 0 start] (start + 2) cs with
    | .ok (text, next) => .ok (.interpolation (String.ofList text) (start + 2), next)
    | .error e => .error e
  | c :: cs =>
    match shortEscape? c with
    | some d => .ok (.char d, ⟨start + 2, cs⟩)
    | none => .error ⟨.unknownEscape c, start⟩

theorem length_readEscape_lt {quote start : Nat} {cs : List Char} {piece next}
    (h : readEscape quote start cs = .ok (piece, next)) : next.rest.length < cs.length := by
  unfold readEscape at h
  split at h
  · cases h
  · split at h
    · next h' => cases h; exact Nat.lt_succ_of_lt (length_readUnicode_lt h')
    · cases h
  · split at h
    · next h' => cases h; exact Nat.lt_succ_of_lt (length_skipEnclosed_lt _ _ _ h')
    · cases h
  · split at h
    · cases h; exact Nat.lt_succ_self _
    · cases h

/-! ## Strings -/

/-- Reads the pieces of a string whose quote is at the offset `quote`, up to and with the closing quote. -/
def readPieces (quote offset : Nat) : List Char → Except SyntaxError (List Piece × Cursor)
  | [] => .error ⟨.unterminatedString, quote⟩
  | '"' :: cs => .ok ([], ⟨offset + 1, cs⟩)
  | '\\' :: cs =>
    match _h : readEscape quote offset cs with
    | .error e => .error e
    | .ok (piece, next) =>
      match readPieces quote next.offset next.rest with
      | .error e => .error e
      | .ok (pieces, last) => .ok (piece :: pieces, last)
  | c :: cs =>
    match readPieces quote (offset + c.utf8Size) cs with
    | .error e => .error e
    | .ok (pieces, last) => .ok (.char c :: pieces, last)
termination_by cs => cs.length
decreasing_by
  · exact Nat.lt_succ_of_lt (length_readEscape_lt _h)
  · exact Nat.lt_succ_self _

theorem length_readPieces_lt (quote offset : Nat) (cs : List Char) {pieces next}
    (h : readPieces quote offset cs = .ok (pieces, next)) : next.rest.length < cs.length := by
  fun_induction readPieces quote offset cs generalizing pieces next with
  | case1 => cases h
  | case2 => cases h; exact Nat.lt_succ_self _
  | case3 => cases h
  | case4 => cases h
  | case5 offset cs piece next' hesc pieces' last hrest ih =>
    cases h
    have := length_readEscape_lt hesc
    have := ih hrest
    simp only [List.length_cons]
    omega
  | case6 => cases h
  | case7 offset c cs _ _ pieces' last hrest ih =>
    cases h
    exact Nat.lt_succ_of_lt (ih hrest)

/-- Collected characters, the last one first, as a part of a string; no characters make no part. -/
def literalPart (collected : List Char) : List StringPart :=
  if collected.isEmpty then [] else [.literal (String.ofList collected.reverse)]

/-- Joins the characters between interpolations into parts. -/
def gather (collected : List Char) : List Piece → List StringPart
  | [] => literalPart collected
  | .char c :: pieces => gather (c :: collected) pieces
  | .interpolation source offset :: pieces =>
    literalPart collected ++ .interpolation source offset :: gather [] pieces

/-- The parts of a string; a string without characters has one part without characters. -/
def partsOf (pieces : List Piece) : List StringPart :=
  match gather [] pieces with
  | [] => [.literal ""]
  | parts => parts

/-- Reads a string behind its opening quote, which is at the offset `quote`. -/
def readString (quote : Nat) (cs : List Char) : Except SyntaxError (Token × Cursor) :=
  match readPieces quote (quote + 1) cs with
  | .ok (pieces, next) => .ok (.str (partsOf pieces), next)
  | .error e => .error e

theorem length_readString_lt {quote : Nat} {cs : List Char} {t next}
    (h : readString quote cs = .ok (t, next)) : next.rest.length < cs.length := by
  unfold readString at h
  split at h
  · next h' => cases h; exact length_readPieces_lt _ _ _ h'
  · cases h

end Token

end DefTable
