import DefTable.Proofs.Procedures
import DefTable.Proofs.QueryRuns
import Mathlib.Data.List.Forall2

/-!
# Reading tokens by their positions

A parser keeps all tokens of a source and the position of the next one (`Grammar.Reader`). The position is moved up to
the last token and no further, and a sign `?//` is changed where it stands. Every step reads the token at the position,
and stops where there is none (`Stop.outOfRange`). On the tokens of a source this never happens, and what the parser
yields is what the productions yield for the tokens from the position on (`readAt_tells`).
-/

namespace DefTable
namespace Grammar

/-! ## Readers -/

/-- The tokens of a source, and the position of the next one. -/
structure Reader where
  tokens : Lexemes
  pos : Nat

/-- Why a parser stops. -/
inductive Stop where
  | halt (h : Halt)
  /-- There is no token at the position. -/
  | outOfRange

/-- A token that is what it was, or the operator of a sign `?//` that has been parted. -/
def MayPart (l l' : Lexeme) : Prop :=
  l' = l ∨ l.token = .alternative ∧ l' = ⟨.op .alt, l.offset⟩

namespace Reader

def index (r : Reader) : Except Stop Lexeme :=
  match r.tokens[r.pos]? with
  | some l => .ok l
  | none => .error .outOfRange

/-- The token behind the next one. -/
def behind (r : Reader) : Token :=
  match r.tokens[r.pos + 1]? with
  | some l => l.token
  | none => .eof

/-- The last token is never passed. -/
def advance (r : Reader) : Reader :=
  if r.pos < r.tokens.length - 1 then { r with pos := r.pos + 1 } else r

/-- Leaves the operator `//` at the position. -/
def part (r : Reader) (offset : Nat) : Reader :=
  { r with tokens := r.tokens.set r.pos ⟨.op .alt, offset⟩ }

/-- The tokens from the position on. -/
def rest (r : Reader) : Lexemes :=
  r.tokens.drop r.pos

/-- The last token is the end of the source, and the position is one of a token. -/
structure Valid (r : Reader) : Prop where
  ends : ∃ front o, r.tokens = front ++ [⟨.eof, o⟩]
  inside : r.pos < r.tokens.length

/-- Where a parser comes to: the position does not decrease and passes no end of a source, and tokens are what they
were, but for signs `?//` that have been parted. -/
structure Leads (r r' : Reader) : Prop where
  valid : r'.Valid
  le : r.pos ≤ r'.pos
  tokens : List.Forall₂ MayPart r.tokens r'.tokens
  passed : ∀ i, r.pos ≤ i → i < r'.pos → ∀ l, r.tokens[i]? = some l → l.token ≠ .eof

end Reader

/-! ## Productions on readers -/

namespace Procedure

variable {α : Type}

/-- What a procedure does to a reader, with productions for its calls and for strings. -/
def onTokens (call : (c : Routine) → Reader → Except Stop (c.Result × Reader))
    (text : List StringPart → Except Stop (Node .text)) : Procedure α → Reader → Except Stop (α × Reader)
  | .give a, r => .ok (a, r)
  | .refuse cause, r => do
    let l ← r.index
    .error (.halt (.fault ⟨cause l.token, l.offset⟩))
  | .look k, r => do
    let l ← r.index
    (k l.token).onTokens call text r
  | .lookBehind k, r => (k r.behind).onTokens call text r
  | .skip t _ k other, r => do
    let l ← r.index
    if l.token = t then k.onTokens call text r.advance else other.onTokens call text r
  | .quoted k other, r => do
    let l ← r.index
    match l.token with
    | .str parts => do
      let x ← text parts
      (k x).onTokens call text r.advance
    | _ => other.onTokens call text r
  | .part k other, r => do
    let l ← r.index
    if l.token = .alternative then k.onTokens call text (r.part l.offset) else other.onTokens call text r
  | .call c k, r => do
    let (x, r) ← call c r
    (k x).onTokens call text r

end Procedure

/-! ### Steps -/

namespace Procedure

variable {α : Type} {call : (c : Routine) → Reader → Except Stop (c.Result × Reader)}
  {text : List StringPart → Except Stop (Node .text)} {r : Reader} {l : Lexeme} {t : Token} {ht : t ≠ .eof}
  {k other : Procedure α}

theorem onTokens_look {k : Token → Procedure α} (hl : r.index = .ok l) :
    (look k).onTokens call text r = (k l.token).onTokens call text r := by
  rw [onTokens, hl]
  rfl

theorem onTokens_taken (hl : r.index = .ok l) (hnext : l.token = t) :
    (skip t ht k other).onTokens call text r = k.onTokens call text r.advance := by
  rw [onTokens, hl]
  exact if_pos hnext

theorem onTokens_passed (hl : r.index = .ok l) (hnext : l.token ≠ t) :
    (skip t ht k other).onTokens call text r = other.onTokens call text r := by
  rw [onTokens, hl]
  exact if_neg hnext

theorem onTokens_quoted {k : Node .text → Procedure α} {parts : List StringPart} (hl : r.index = .ok l)
    (hnext : l.token = .str parts) :
    (quoted k other).onTokens call text r = text parts >>= fun x => (k x).onTokens call text r.advance := by
  obtain ⟨_, o⟩ := l
  subst hnext
  rw [onTokens, hl]
  rfl

theorem onTokens_unquoted {k : Node .text → Procedure α} (hl : r.index = .ok l)
    (hnext : ∀ parts, l.token ≠ .str parts) :
    (quoted k other).onTokens call text r = other.onTokens call text r := by
  obtain ⟨t, o⟩ := l
  rw [onTokens, hl]
  cases t with
  | str parts => exact absurd rfl (hnext parts)
  | _ => rfl

theorem onTokens_parted (hl : r.index = .ok l) (hnext : l.token = .alternative) :
    (part k other).onTokens call text r = k.onTokens call text (r.part l.offset) := by
  rw [onTokens, hl]
  exact if_pos hnext

theorem onTokens_whole (hl : r.index = .ok l) (hnext : l.token ≠ .alternative) :
    (part k other).onTokens call text r = other.onTokens call text r := by
  rw [onTokens, hl]
  exact if_neg hnext

end Procedure

mutual

/-- The productions with a number of steps. -/
def readAt : Nat → (c : Routine) → Reader → Except Stop (c.Result × Reader)
  | 0, _, _ => .error (.halt .exhausted)
  | n + 1, c, r => c.procedure.onTokens (readAt n) (textAt n) r

/-- The string that the parts of a string token make. -/
def textAt : Nat → List StringPart → Except Stop (Node .text)
  | 0, _ => .error (.halt .exhausted)
  | n + 1, parts =>
    match parts with
    | [.literal s] => .ok (plainText s)
    | parts => do
      let qs ← fragmentsAt n parts
      return .text "" (.ofList qs)

def fragmentsAt : Nat → List StringPart → Except Stop (List Query)
  | 0, _ => .error (.halt .exhausted)
  | _ + 1, [] => .ok []
  | n + 1, .literal s :: parts => do
    let qs ← fragmentsAt n parts
    return Query.ofTerm (Term.ofText (plainText s)) :: qs
  | n + 1, .interpolation source offset :: parts => do
    let q ← sourceAt n source offset
    let qs ← fragmentsAt n parts
    return q :: qs

/-- The query that a source is, whose first byte has the given offset. -/
def sourceAt : Nat → String → Nat → Except Stop Query
  | 0, _, _ => .error (.halt .exhausted)
  | n + 1, source, base =>
    match Token.scan source base with
    | .error e => .error (.halt (.fault e))
    | .ok ls => do
      let (q, r) ← readAt n .pipe ⟨ls, 0⟩
      let l ← r.index
      if l.token = .eof then .ok q else .error (.halt (.fault ⟨.unexpected l.token .endOfQuery, l.offset⟩))

end

/-! ## Positions -/

namespace MayPart

theorem refl (l : Lexeme) : MayPart l l := .inl rfl

theorem trans {l₁ l₂ l₃ : Lexeme} (h : MayPart l₁ l₂) (h' : MayPart l₂ l₃) : MayPart l₁ l₃ := by
  rcases h with rfl | ⟨halt, rfl⟩
  · exact h'
  · rcases h' with rfl | ⟨hop, -⟩
    · exact .inr ⟨halt, rfl⟩
    · cases hop

theorem eof_iff {l l' : Lexeme} (h : MayPart l l') : l'.token = .eof ↔ l.token = .eof := by
  rcases h with rfl | ⟨halt, rfl⟩
  · rfl
  · simp [halt]

/-- Tokens that were parted twice, one by one. -/
theorem forall₂_trans {as bs cs : Lexemes} (h : List.Forall₂ MayPart as bs) (h' : List.Forall₂ MayPart bs cs) :
    List.Forall₂ MayPart as cs := by
  induction h generalizing cs with
  | nil =>
    cases h'
    exact .nil
  | cons hab _ ih =>
    cases h' with
    | cons hbc hrest => exact .cons (hab.trans hbc) (ih hrest)

end MayPart

namespace Reader

variable {r r' r'' : Reader} {l : Lexeme}

theorem eq_of_index (h : r.index = .ok l) : r.tokens[r.pos]? = some l := by
  unfold index at h
  split at h
  · cases h
    assumption
  · cases h

theorem index_of_eq (h : r.tokens[r.pos]? = some l) : r.index = .ok l := by
  rw [index, h]

/-- There is a next token just where the position is one of a token. -/
theorem index_ok_iff : (∃ l, r.index = .ok l) ↔ r.pos < r.tokens.length := by
  constructor
  · rintro ⟨l, h⟩
    exact (List.getElem?_eq_some_iff.1 (eq_of_index h)).1
  · exact fun hlt => ⟨_, index_of_eq (List.getElem?_eq_getElem hlt)⟩

theorem Valid.exists_index (hr : r.Valid) : ∃ l, r.index = .ok l :=
  index_ok_iff.2 hr.inside

theorem rest_of_index (h : r.index = .ok l) : r.rest = l :: r.tokens.drop (r.pos + 1) := by
  obtain ⟨hlt, rfl⟩ := List.getElem?_eq_some_iff.1 (eq_of_index h)
  exact List.drop_eq_getElem_cons hlt

theorem peek_rest (h : r.index = .ok l) : peek r.rest = l.token := by
  rw [rest_of_index h]
  rfl

theorem offset_rest (h : r.index = .ok l) : Grammar.offset r.rest = l.offset := by
  rw [rest_of_index h]
  rfl

theorem behind_eq (h : r.index = .ok l) : r.behind = peek r.rest.tail := by
  rw [rest_of_index h, List.tail_cons, behind]
  cases hnext : r.tokens[r.pos + 1]? with
  | none =>
    rw [List.drop_eq_nil_of_le (List.getElem?_eq_none_iff.1 hnext)]
    rfl
  | some l' =>
    obtain ⟨hlt, rfl⟩ := List.getElem?_eq_some_iff.1 hnext
    rw [List.drop_eq_getElem_cons hlt]
    rfl

/-- Behind a token that is not the end of a source there is another one. -/
theorem Valid.pos_lt (hr : r.Valid) (h : r.index = .ok l) (hl : l.token ≠ .eof) : r.pos < r.tokens.length - 1 := by
  obtain ⟨front, o, htokens⟩ := hr.ends
  have hinside := hr.inside
  have hget := eq_of_index h
  rw [htokens] at hget hinside ⊢
  rw [List.length_append, List.length_singleton] at hinside ⊢
  by_contra hle
  have hpos : r.pos = front.length := by omega
  rw [hpos, List.getElem?_concat_length] at hget
  cases hget
  exact hl rfl

theorem advance_eq (hr : r.Valid) (h : r.index = .ok l) (hl : l.token ≠ .eof) :
    r.advance = { r with pos := r.pos + 1 } :=
  if_pos (hr.pos_lt h hl)

theorem rest_advance (hr : r.Valid) (h : r.index = .ok l) (hl : l.token ≠ .eof) : r.advance.rest = r.rest.tail := by
  rw [advance_eq hr h hl, rest_of_index h]
  rfl

theorem rest_part (h : r.index = .ok l) (o : Nat) : (r.part o).rest = ⟨.op .alt, o⟩ :: r.rest.tail := by
  have hlt := (List.getElem?_eq_some_iff.1 (eq_of_index h)).1
  rw [rest_of_index h, List.tail_cons]
  show (r.tokens.set r.pos _).drop r.pos = _
  rw [List.drop_set, if_neg (Nat.lt_irrefl _), Nat.sub_self, List.drop_eq_getElem_cons hlt, List.set_cons_zero]

theorem index_part (h : r.index = .ok l) (o : Nat) : (r.part o).index = .ok ⟨.op .alt, o⟩ := by
  refine index_of_eq ?_
  show (r.tokens.set r.pos _)[r.pos]? = _
  rw [List.getElem?_set_self (List.getElem?_eq_some_iff.1 (eq_of_index h)).1]

namespace Leads

theorem refl (hr : r.Valid) : r.Leads r :=
  ⟨hr, Nat.le_refl _, List.forall₂_same.2 fun l _ => .refl l, fun _ hle hlt => absurd hle (Nat.not_le.2 hlt)⟩

/-- What stands at a place, before and after. -/
theorem parted (h : r.Leads r') {i : Nat} (hl : r.tokens[i]? = some l) : ∃ l', r'.tokens[i]? = some l' ∧ MayPart l l' := by
  obtain ⟨hlt, rfl⟩ := List.getElem?_eq_some_iff.1 hl
  have hlt' : i < r'.tokens.length := h.tokens.length_eq ▸ hlt
  exact ⟨_, List.getElem?_eq_getElem hlt', h.tokens.get hlt hlt'⟩

theorem unparted (h : r.Leads r') {i : Nat} {l' : Lexeme} (hl : r'.tokens[i]? = some l') :
    ∃ l, r.tokens[i]? = some l ∧ MayPart l l' := by
  obtain ⟨hlt', rfl⟩ := List.getElem?_eq_some_iff.1 hl
  have hlt : i < r.tokens.length := h.tokens.length_eq ▸ hlt'
  exact ⟨_, List.getElem?_eq_getElem hlt, h.tokens.get hlt hlt'⟩

theorem trans (h : r.Leads r') (h' : r'.Leads r'') : r.Leads r'' where
  valid := h'.valid
  le := Nat.le_trans h.le h'.le
  tokens := MayPart.forall₂_trans h.tokens h'.tokens
  passed i hle hlt l hl := by
    by_cases hi : i < r'.pos
    · exact h.passed i hle hi l hl
    · obtain ⟨l', hl', hparted⟩ := h.parted hl
      exact fun heof => h'.passed i (Nat.not_lt.1 hi) hlt l' hl' (hparted.eof_iff.2 heof)

end Leads

theorem leads_advance (hr : r.Valid) (h : r.index = .ok l) (hl : l.token ≠ .eof) : r.Leads r.advance := by
  have hlt := hr.pos_lt h hl
  rw [advance_eq hr h hl]
  refine ⟨⟨hr.ends, ?_⟩, Nat.le_succ _, (Leads.refl hr).tokens, fun i hle hi l' hl' => ?_⟩
  · show r.pos + 1 < r.tokens.length
    omega
  · have hi : i < r.pos + 1 := hi
    obtain rfl : i = r.pos := by omega
    rw [eq_of_index h] at hl'
    cases hl'
    exact hl

theorem leads_part (hr : r.Valid) (h : r.index = .ok l) (hl : l.token = .alternative) : r.Leads (r.part l.offset) := by
  have hne : l.token ≠ .eof := by simp [hl]
  have hlt := hr.pos_lt h hne
  have hget := eq_of_index h
  obtain ⟨front, o, htokens⟩ := hr.ends
  refine ⟨⟨⟨front.set r.pos ⟨.op .alt, l.offset⟩, o, ?_⟩, ?_⟩, Nat.le_refl _, ?_,
    fun _ hle hi => absurd hle (Nat.not_le.2 hi)⟩
  · show r.tokens.set r.pos _ = _
    rw [htokens, List.length_append, List.length_singleton] at hlt
    rw [htokens, List.set_append_left _ _ (by omega)]
  · show r.pos < (r.tokens.set r.pos _).length
    rw [List.length_set]
    exact hr.inside
  · refine List.forall₂_iff_get.2 ⟨(List.length_set ..).symm, fun i hi hi' => ?_⟩
    show MayPart (r.tokens.get ⟨i, hi⟩) ((r.tokens.set r.pos _).get ⟨i, hi'⟩)
    rw [List.get_eq_getElem, List.get_eq_getElem, List.getElem_set]
    split
    · next hpos =>
      subst hpos
      obtain ⟨_, rfl⟩ := List.getElem?_eq_some_iff.1 hget
      exact .inr ⟨hl, rfl⟩
    · exact .refl _

end Reader

/-! ## Readers and lists -/

/-- A run that has not run out of steps ends as another one. -/
inductive Tells {α β : Type} (Q : α → β → Prop) : Except Stop α → Parsed β → Prop where
  | exhausted (y : Parsed β) : Tells Q (.error (.halt .exhausted)) y
  | fault (e : SyntaxError) : Tells Q (.error (.halt (.fault e))) (.error (.fault e))
  | ok {a : α} {b : β} (h : Q a b) : Tells Q (.ok a) (.ok b)

namespace Tells

variable {α β γ δ : Type} {Q : α → β → Prop} {R : γ → δ → Prop} {x : Except Stop α} {y : Parsed β}

theorem bind (h : Tells Q x y) {f : α → Except Stop γ} {g : β → Parsed δ}
    (hf : ∀ a b, Q a b → Tells R (f a) (g b)) : Tells R (x >>= f) (y >>= g) := by
  cases h with
  | exhausted => exact .exhausted _
  | fault e => exact .fault e
  | ok h => exact hf _ _ h

theorem ne_outOfRange (h : Tells Q x y) : x ≠ .error .outOfRange := by
  cases h <;> nofun

end Tells

/-- A reader has come to where the lexemes are left. -/
def Comes {α : Type} (r : Reader) (x : α × Reader) (y : α × Lexemes) : Prop :=
  y = (x.1, x.2.rest) ∧ r.Leads x.2

theorem Comes.mono {α : Type} {r r' : Reader} (h : r.Leads r') {x : α × Reader} {y : α × Lexemes} (hx : Comes r' x y) :
    Comes r x y :=
  ⟨hx.1, h.trans hx.2⟩

section
variable {call : (c : Routine) → Reader → Except Stop (c.Result × Reader)}
  {call' : (c : Routine) → Lexemes → Parsed (c.Result × Lexemes)} {text : List StringPart → Except Stop (Node .text)}
  {text' : List StringPart → Parsed (Node .text)}

theorem Tells.moved {α : Type} {r r' : Reader} {x : Except Stop (α × Reader)} {y : Parsed (α × Lexemes)}
    (hleads : r.Leads r') (h : Tells (Comes r') x y) : Tells (Comes r) x y := by
  cases h with
  | exhausted => exact .exhausted _
  | fault e => exact .fault e
  | ok h => exact .ok (h.mono hleads)

/-- What a procedure does to a reader it does to the lexemes from the position on. -/
theorem Procedure.onTokens_tells (hcall : ∀ c r, r.Valid → Tells (Comes r) (call c r) (call' c r.rest))
    (htext : ∀ parts, Tells Eq (text parts) (text' parts)) {α : Type} (p : Procedure α) {r : Reader} (hr : r.Valid) :
    Tells (Comes r) (p.onTokens call text r) (p.onList call' text' r.rest) := by
  induction p generalizing r with
  | give a => exact .ok ⟨rfl, .refl hr⟩
  | refuse cause =>
    obtain ⟨l, hl⟩ := hr.exists_index
    rw [onTokens, onList, hl, Reader.rest_of_index hl]
    exact .fault _
  | look k ih =>
    obtain ⟨l, hl⟩ := hr.exists_index
    rw [onTokens_look hl, onList, Reader.peek_rest hl]
    exact ih _ hr
  | lookBehind k ih =>
    obtain ⟨l, hl⟩ := hr.exists_index
    rw [onTokens, onList, Reader.behind_eq hl]
    exact ih _ hr
  | skip t ht k other ihk iho =>
    obtain ⟨l, hl⟩ := hr.exists_index
    by_cases hnext : l.token = t
    · have hne : l.token ≠ .eof := hnext ▸ ht
      have hleads := Reader.leads_advance hr hl hne
      rw [onTokens_taken hl hnext, onList, if_pos ((Reader.peek_rest hl).trans hnext), ← Reader.rest_advance hr hl hne]
      exact (ihk hleads.valid).moved hleads
    · rw [onTokens_passed hl hnext, onList, Reader.peek_rest hl, if_neg hnext]
      exact iho hr
  | quoted k other ihk iho =>
    obtain ⟨l, hl⟩ := hr.exists_index
    by_cases hnext : ∃ parts, l.token = .str parts
    · obtain ⟨parts, hnext⟩ := hnext
      have hne : l.token ≠ .eof := by simp [hnext]
      have hleads := Reader.leads_advance hr hl hne
      rw [onTokens_quoted hl hnext, onList, (Reader.peek_rest hl).trans hnext, ← Reader.rest_advance hr hl hne]
      refine (htext parts).bind ?_
      rintro x _ rfl
      exact (ihk x hleads.valid).moved hleads
    · have hother : (quoted k other).onList call' text' r.rest = other.onList call' text' r.rest := by
        rw [onList, Reader.peek_rest hl]
        split
        · next parts hparts => exact absurd ⟨parts, hparts⟩ hnext
        · rfl
      rw [onTokens_unquoted hl (not_exists.1 hnext), hother]
      exact iho hr
  | part k other ihk iho =>
    obtain ⟨l, hl⟩ := hr.exists_index
    by_cases hnext : l.token = .alternative
    · have hleads := Reader.leads_part hr hl hnext
      rw [onTokens_parted hl hnext, onList, if_pos ((Reader.peek_rest hl).trans hnext), Reader.offset_rest hl,
        ← Reader.rest_part hl]
      exact (ihk hleads.valid).moved hleads
    · rw [onTokens_whole hl hnext, onList, Reader.peek_rest hl, if_neg hnext]
      exact iho hr
  | call c k ih =>
    rw [onTokens, onList]
    refine (hcall c r hr).bind ?_
    rintro ⟨x, r'⟩ _ ⟨rfl, hleads⟩
    exact (ih x hleads.valid).moved hleads

end

theorem valid_of_scan {source : String} {base : Nat} {ls : Lexemes} (h : Token.scan source base = .ok ls) :
    Reader.Valid ⟨ls, 0⟩ := by
  obtain ⟨front, o, rfl, -⟩ := endsOnce_of_scan h
  exact ⟨⟨front, o, rfl⟩, by simp⟩

/-- **What a parser yields is what the productions yield** for the tokens from its position on. -/
theorem readAt_tells (n : Nat) :
    (∀ c r, r.Valid → Tells (Comes r) (readAt n c r) (run n c r.rest)) ∧
    (∀ parts, Tells Eq (textAt n parts) (string n parts)) ∧
    (∀ parts, Tells Eq (fragmentsAt n parts) (fragments n parts)) ∧
    ∀ source base, Tells Eq (sourceAt n source base) (whole n source base) := by
  induction n with
  | zero =>
    exact ⟨fun _ _ _ => .exhausted _, fun _ => .exhausted _, fun _ => .exhausted _, fun _ _ => .exhausted _⟩
  | succ n ih =>
    obtain ⟨hcall, htext, hfragments, hsource⟩ := ih
    refine ⟨fun c r hr => ?_, fun parts => ?_, fun parts => ?_, fun source base => ?_⟩
    · rw [readAt, run_succ]
      exact Procedure.onTokens_tells hcall htext _ hr
    · unfold textAt
      split
      · exact .ok rfl
      · next hparts =>
        rw [string]
        · refine (hfragments parts).bind ?_
          rintro qs _ rfl
          exact .ok rfl
        · exact hparts
    · obtain - | ⟨s | ⟨source, base⟩, parts⟩ := parts
      · exact .ok rfl
      · refine (hfragments parts).bind ?_
        rintro qs _ rfl
        exact .ok rfl
      · refine (hsource source base).bind ?_
        rintro q _ rfl
        refine (hfragments parts).bind ?_
        rintro qs _ rfl
        exact .ok rfl
    · rw [sourceAt, whole]
      cases hscan : Token.scan source base with
      | error e => exact .fault e
      | ok ls =>
        have hr := valid_of_scan hscan
        refine (hcall .pipe ⟨ls, 0⟩ hr).bind ?_
        rintro ⟨q, r⟩ _ ⟨rfl, hleads⟩
        obtain ⟨l, hl⟩ := hleads.valid.exists_index
        dsimp only
        rw [hl, Reader.rest_of_index hl, expectEnd]
        show Tells _ (if l.token = .eof then _ else _) ((if l.token = .eof then _ else _) >>= _)
        split
        · exact .ok rfl
        · exact .fault _

end Grammar
end DefTable
