import DefTable.Proofs.Interpolations
import DefTable.Proofs.Places
import DefTable.Proofs.Respacing

/-!
# Where faults are

The lexemes that the parser has in front of it stand at their offsets in the source that it was given, also those of an
interpolation (`Stocked`); only the operator `//` that was made of a sign `?//` has kept the offset of the sign. This is
kept through every run, so an unexpected token is reported where it stands (`unexpected_stands`). Every fault is at a
place in the source, and line and column of the place lead back to it (`faults_recoverable`).
-/

namespace DefTable

open Text Token Grammar

/-! ## Tokens at their offsets -/

/-- What stands in a source at the offset of a token, also of one that is nested in it. The end of an interpolation is
the parenthesis that closes it. -/
def StandsAt (source : String) : Token → Nat → Prop
  | .eof, o => o = byteLength source.toList ∨
      ∃ inner start, Inside source 0 inner start ∧ o = start + byteLength inner.toList ∧ Stands source.toList o [')']
  | .str _, o => Stands source.toList o ['"']
  -- the operator may have been made of a sign `?//`
  | .op .alt, o => Stands source.toList o ['/', '/'] ∨ Stands source.toList o ['?', '/', '/']
  | t, o => Stands source.toList o t.spelling.toList

/-- A fault at a place in a source, which is where the token stands if one was unexpected. -/
def PointsAt (source : String) (e : SyntaxError) : Prop :=
  IsPlace source.toList e.offset ∧ ∀ found wanted, e.cause = .unexpected found wanted → StandsAt source found e.offset

theorem PointsAt.of_placed {source : String} {e : SyntaxError} (h : PlacedFault source.toList e) : PointsAt source e := by
  refine ⟨h.1, fun found wanted hcause => ?_⟩
  have hexpected := h.2
  rw [hcause] at hexpected
  cases hexpected

section
variable {source : String} {t : Token} {o : Nat}

theorem StandsAt.isPlace (h : StandsAt source t o) : IsPlace source.toList o := by
  unfold StandsAt at h
  split at h
  · obtain rfl | ⟨inner, start, -, -, h⟩ := h
    · exact ⟨source.toList, [], (List.append_nil _).symm, rfl⟩
    · exact h.isPlace
  · exact h.isPlace
  · exact h.elim Stands.isPlace Stands.isPlace
  · exact h.isPlace

/-- A lexeme that is a part of a source. -/
theorem StandsAt.of_lexeme {text : List Char} (htext : IsLexeme t o text) (h : Stands source.toList o text) :
    StandsAt source t o := by
  have hspelled := htext.spelled
  cases t with
  | str parts =>
    obtain ⟨body, rfl, -⟩ := hspelled
    have hquote : Stands source.toList o (['"'] ++ (body ++ ['"'])) := h
    exact hquote.left
  | eof => exact absurd rfl htext.ne_eof
  | op operator =>
    have hspelled : text = operator.text.toList := hspelled
    subst hspelled
    cases operator with
    | alt => exact .inl h
    | _ => exact h
  | _ =>
    cases hspelled
    exact h

end

/-! ## Nested sources -/

theorem Token.Inside.trans {source middle inner : String} {base start start' : Nat}
    (h : Inside source base middle start) (h' : Inside middle start inner start') :
    Inside source base inner start' := by
  induction h with
  | part hscan hl hpart => exact .deeper hscan hl hpart h'
  | deeper hscan hl hpart _ ih => exact .deeper hscan hl hpart (ih h')

/-- A source, or one that is nested in it, and its offset. -/
def Within (source inner : String) (start : Nat) : Prop :=
  inner = source ∧ start = 0 ∨ Inside source 0 inner start

section
variable {source inner : String} {start : Nat}

/-- A nested source stands in the source, with its closing parenthesis behind it. -/
theorem Within.cut (h : Within source inner start) : ∃ front back, source.toList = front ++ (inner.toList ++ back) ∧
    start = byteLength front ∧ ∀ c ∈ back.head?, c = ')' := by
  obtain ⟨rfl, rfl⟩ | h := h
  · exact ⟨[], [], (List.append_nil _).symm, rfl, nofun⟩
  · obtain ⟨front, back, hsource, rfl, -⟩ := h.interpolated
    refine ⟨front ++ ['\\', '('], ')' :: back, by rw [hsource]; simp, ?_, fun c hc => (Option.some.inj hc).symm⟩
    rw [Nat.zero_add, byteLength_append]
    rfl

theorem Within.stands (h : Within source inner start) : Stands source.toList start inner.toList := by
  obtain ⟨front, back, hsource, hstart, -⟩ := h.cut
  exact ⟨front, back, hsource, hstart⟩

theorem Within.part (h : Within source inner start) {ls : Lexemes} {parts : List StringPart} {o o' : Nat}
    {nested : String} (hscan : scan inner start = .ok ls) (hl : ⟨.str parts, o⟩ ∈ ls)
    (hpart : .interpolation nested o' ∈ parts) : Inside source 0 nested o' := by
  obtain ⟨rfl, rfl⟩ | h := h
  · exact .part hscan hl hpart
  · exact h.trans (.part hscan hl hpart)

/-- The end of a source is its last offset, or where the interpolation is closed. -/
theorem Within.standsAt_end (h : Within source inner start) :
    StandsAt source .eof (start + byteLength inner.toList) := by
  obtain ⟨rfl, rfl⟩ | h := h
  · exact .inl (Nat.zero_add _)
  · obtain ⟨front, back, hsource, hstart, -⟩ := h.interpolated
    refine .inr ⟨inner, start, h, rfl, front ++ ('\\' :: '(' :: inner.toList), back, by rw [hsource]; simp, ?_⟩
    have hopen : byteLength ('\\' :: '(' :: inner.toList) = 2 + byteLength inner.toList := by
      rw [byteLength_cons, byteLength_cons, ← Nat.add_assoc]
      rfl
    rw [hstart, Nat.zero_add, byteLength_append, hopen, Nat.add_assoc]

end

/-! ## What the parser has in front of it -/

/-- Lexemes of a source or of one nested in it, from one of them on: each is at its offset, and the end comes last. -/
structure Stocked (source : String) (ls : Lexemes) : Prop where
  stands : ∀ l ∈ ls, StandsAt source l.token l.offset
  nested : ∀ l ∈ ls, ∀ parts, l.token = .str parts → ∀ inner start, .interpolation inner start ∈ parts →
    Inside source 0 inner start
  ends : ∃ front o, ls = front ++ [⟨.eof, o⟩] ∧ ∀ l ∈ front, l.token ≠ .eof

namespace Stocked

variable {source : String} {ls : Lexemes}

theorem of_scan {inner : String} {start : Nat} (h : Within source inner start) (hscan : scan inner start = .ok ls) :
    Stocked source ls := by
  obtain ⟨unfinished, hcovers⟩ := covers_of_scan hscan
  obtain ⟨front, hls, hfront⟩ := hcovers.ends
  refine ⟨fun l hl => ?_, ?_, front, _, hls, hfront⟩
  · obtain ⟨t, o⟩ := l
    by_cases ht : t = .eof
    · subst ht
      rw [hls] at hl
      rcases List.mem_append.1 hl with hl | hl
      · exact absurd rfl (hfront _ hl)
      · cases List.mem_singleton.1 hl
        exact h.standsAt_end
    · obtain ⟨before, text, behind, hinner, rfl, htext⟩ := hcovers.mem hl ht
      have hstands := h.stands
      rw [hinner] at hstands
      exact .of_lexeme htext hstands.right.left
  · rintro ⟨t, o⟩ hl parts rfl inner' start' hpart
    exact h.part hscan hl hpart

theorem tail {l : Lexeme} (h : Stocked source (l :: ls)) (hl : l.token ≠ .eof) : Stocked source ls := by
  refine ⟨(List.forall_mem_cons.1 h.stands).2, (List.forall_mem_cons.1 h.nested).2, ?_⟩
  obtain ⟨front, o, hls, hfront⟩ := h.ends
  cases front with
  | nil =>
    cases hls
    exact absurd rfl hl
  | cons l' front =>
    cases hls
    exact ⟨front, o, rfl, (List.forall_mem_cons.1 hfront).2⟩

/-- The operator that a sign `?//` is taken for is where the sign is. -/
theorem operator {o : Nat} (h : Stocked source (⟨.alternative, o⟩ :: ls)) : Stocked source (⟨.op .alt, o⟩ :: ls) := by
  have hsign : StandsAt source .alternative o := h.stands _ List.mem_cons_self
  have htail := h.tail nofun
  obtain ⟨front, o', hls, hfront⟩ := htail.ends
  refine ⟨List.forall_mem_cons.2 ⟨.inr hsign, htail.stands⟩, List.forall_mem_cons.2 ⟨nofun, htail.nested⟩, ?_⟩
  exact ⟨⟨.op .alt, o⟩ :: front, o', by rw [hls]; rfl, List.forall_mem_cons.2 ⟨nofun, hfront⟩⟩

theorem peek (h : Stocked source ls) : StandsAt source (Grammar.peek ls) (offset ls) := by
  obtain ⟨front, o, hls, -⟩ := h.ends
  cases ls with
  | nil => exact absurd hls.symm (by simp)
  | cons l ls => exact h.stands l List.mem_cons_self

end Stocked

/-! ## Runs on one source -/

/-- A run beside itself, on the lexemes of a source. -/
def Grammar.Pairing.within (source : String) : Pairing where
  moves := Eq
  nested inner start inner' start' := inner' = inner ∧ start' = start ∧ Within source inner start
  Mode := Unit
  alike _ ls ls' := ls' = ls ∧ Stocked source ls
  patterns _ ls ls' := ls' = ls ∧ Stocked source ls
  fault e e' := e' = e ∧ PointsAt source e

section
variable {source : String} {ls : Lexemes}

theorem Stocked.begins (h : Stocked source ls) : (Pairing.within source).Begins () ls ls := by
  obtain ⟨front, o, hls, hfront⟩ := h.ends
  cases ls with
  | nil => exact absurd hls.symm (by simp)
  | cons l ls =>
    obtain ⟨t, o₁⟩ := l
    by_cases ht : t = .eof
    · subst ht
      cases front with
      | nil =>
        cases hls
        exact .finish o o
      | cons l' front =>
        cases hls
        exact absurd rfl (hfront _ List.mem_cons_self)
    · have htail := h.tail ht
      cases t with
      | str parts =>
        refine .string (List.forall₂_same.2 fun part hpart => ?_) ⟨rfl, htail⟩
        cases part with
        | literal s => exact .literal s
        | interpolation inner start =>
          exact .interpolation ⟨rfl, rfl, .inr (h.nested _ List.mem_cons_self parts rfl inner start hpart)⟩
      | alternative => exact .sign ⟨rfl, h.operator⟩
      | eof => exact absurd rfl ht
      | _ => exact .plain rfl nofun ⟨rfl, htail⟩ fun _ => ⟨rfl, htail⟩

theorem Stocked.both_alternative (h : Stocked source ls) :
    Both .alternative ((Pairing.within source).patterns ()) ls ls := by
  by_cases hpeek : Grammar.peek ls = .alternative
  · obtain ⟨o, hls⟩ := eq_cons_of_peek (by simp) hpeek
    generalize ls.tail = rest at hls
    subst hls
    exact .inl ⟨o, o, rest, rest, rfl, rfl, rfl, h.tail nofun⟩
  · exact .inr ⟨hpeek, hpeek⟩

/-- The next token is reported where it stands. -/
theorem Stocked.pointsAt (h : Stocked source ls) (wanted : Expectation) :
    PointsAt source ⟨.unexpected (Grammar.peek ls) wanted, offset ls⟩ := by
  refine ⟨h.peek.isPlace, ?_⟩
  rintro _ _ ⟨⟩
  exact h.peek

/-- **The lexemes stay at their offsets, and faults are where they point.** -/
def Grammar.Coupling.within (source : String) : Coupling :=
  { Pairing.within source with
    begins := by
      rintro _ _ ls ⟨rfl, h⟩
      exact h.begins
    alike_of_patterns := id
    behind_pattern := by
      rintro _ n n' _ _ _ ls p - - - ⟨rfl, h⟩
      exact h.both_alternative
    unexpected := by
      rintro _ _ ls ⟨rfl, h⟩ wanted
      exact ⟨rfl, h.pointsAt wanted⟩
    directive := by
      rintro _ _ ls ⟨rfl, h⟩
      exact ⟨rfl, .of_placed ⟨h.peek.isPlace, rfl⟩⟩
    scans := by
      rintro _ inner _ start ⟨rfl, rfl, h⟩
      cases hscan : scan inner start with
      | ok ls => exact ⟨(), .ok ⟨rfl, .of_scan h hscan⟩⟩
      | error e =>
        have hplaced := placed_scan h.stands hscan
        exact ⟨(), .fault ⟨rfl, .of_placed hplaced⟩⟩ }

end

/-! ## Results -/

/-- The result of a run that is paired with itself. -/
theorem Grammar.Pairing.Agree.pointsAt {source : String} {α : Type} {Q : α → α → Prop} {x : Parsed α} {h : Halt}
    (hagree : (Pairing.within source).Agree Q x x) (hx : x = .error h) : ∃ e, h = .fault e ∧ PointsAt source e := by
  subst hx
  cases hagree with
  | fault h => exact ⟨_, rfl, h.2⟩

theorem Query.pointsAt_of_parse {source : String} {d : Diagnostic} (h : Query.parse source = .error d) :
    ∃ e, whole (enoughSteps source) source 0 = .error (.fault e) ∧ d = e.diagnostic.locate source ∧
      PointsAt source e := by
  have hwithin : (Coupling.within source).nested source 0 source 0 := ⟨rfl, rfl, .inl ⟨rfl, rfl⟩⟩
  have hagree := (Coupling.within source).whole_agree hwithin (Nat.le_refl _) (Nat.le_refl _)
  unfold Query.parse at h
  split at h
  · cases h
  · next halt hwhole =>
    cases h
    obtain ⟨e, rfl, he⟩ := Pairing.Agree.pointsAt hagree hwhole
    exact ⟨e, hwhole, rfl, he⟩

theorem Definition.pointsAt_of_parseAll {source : String} {d : Diagnostic} (h : Definition.parseAll source = .error d) :
    ∃ e, (scanned (scan source 0) >>= definitions (enoughSteps source)) = .error (.fault e) ∧
      d = e.diagnostic.locate source ∧ PointsAt source e := by
  have hwithin : Within source source 0 := .inl ⟨rfl, rfl⟩
  unfold Definition.parseAll at h
  cases hscan : scan source 0 with
  | error e =>
    have hplaced := placed_scan hwithin.stands hscan
    rw [hscan] at h
    cases h
    exact ⟨e, rfl, rfl, .of_placed hplaced⟩
  | ok ls =>
    rw [hscan, scanned] at h
    dsimp only at h
    have hw := weight_scan_le hscan
    have henough : 16 * weight ls + 2 ≤ enoughSteps source := by
      unfold enoughSteps
      omega
    have hagree := (Coupling.within source).definitions_agree (i := ()) ⟨rfl, .of_scan hwithin hscan⟩ (Nat.le_refl _)
      (Nat.le_refl _) henough
    split at h
    · cases h
    · next halt hdefinitions =>
      cases h
      obtain ⟨e, rfl, he⟩ := Pairing.Agree.pointsAt hagree hdefinitions
      exact ⟨e, hdefinitions, rfl, he⟩

/-- **An unexpected token is reported where it stands.** A query or a program that is refused because of a token it has
names the token that stands at the offset of the message: its spelling, the first quote of a string, and for the end the
end of the source or the parenthesis that closes an interpolation, at any depth. Only an operator `//` may have been
made of a sign `?//`; then this stands there, and the operator begins one byte later. -/
theorem unexpected_stands (source : String) :
    (∀ d, Query.parse source = .error d → ∃ e, whole (enoughSteps source) source 0 = .error (.fault e) ∧
      d = e.diagnostic.locate source ∧
      ∀ found wanted, e.cause = .unexpected found wanted → StandsAt source found d.offset) ∧
    ∀ d, Definition.parseAll source = .error d →
      ∃ e, (scanned (scan source 0) >>= definitions (enoughSteps source)) = .error (.fault e) ∧
        d = e.diagnostic.locate source ∧
        ∀ found wanted, e.cause = .unexpected found wanted → StandsAt source found d.offset := by
  constructor
  · intro d hd
    obtain ⟨e, he, rfl, -, hstands⟩ := Query.pointsAt_of_parse hd
    exact ⟨e, he, rfl, hstands⟩
  · intro d hd
    obtain ⟨e, he, rfl, -, hstands⟩ := Definition.pointsAt_of_parseAll hd
    exact ⟨e, he, rfl, hstands⟩

/-- The end of an interpolation is where it is closed. -/
theorem unexpected_stands_interpolation :
    Query.parse "\"é\\(1 + )\"" = .error ⟨"unexpected end of input, expected term", 9, ⟨1, 9⟩⟩ ∧
      StandsAt "\"é\\(1 + )\"" .eof 9 := by
  have hwhole : whole (enoughSteps "\"é\\(1 + )\"") "\"é\\(1 + )\"" 0 = .error (.fault ⟨.unexpected .eof .term, 9⟩) :=
    error_of_fault? (by decide +kernel)
  have hparse : Query.parse "\"é\\(1 + )\"" = .error ⟨"unexpected end of input, expected term", 9, ⟨1, 9⟩⟩ :=
    error_of_fault? (by decide +kernel)
  obtain ⟨e, he, -, hstands⟩ := (unexpected_stands _).1 _ hparse
  rw [hwhole] at he
  cases he
  exact ⟨hparse, hstands _ _ rfl⟩

/-- An operator that was made of a sign is reported where the sign is, one byte in front of it. -/
theorem operator_reported_at_sign :
    whole (enoughSteps "\x7ba: 1?// 2\x7d") "\x7ba: 1?// 2\x7d" 0 =
        .error (.fault ⟨.unexpected (.op .alt) (.token .rightBrace), 5⟩) ∧
      Query.parse "\x7ba: 1?// 2\x7d" = .error ⟨"unexpected \"//\", expected \"\x7d\"", 5, ⟨1, 6⟩⟩ ∧
      ¬ Stands "\x7ba: 1?// 2\x7d".toList 5 Operator.alt.text.toList := by
  refine ⟨error_of_fault? (by decide +kernel), error_of_fault? (by decide +kernel), fun h => ?_⟩
  have hsource : "\x7ba: 1?// 2\x7d".toList = "\x7ba: 1".toList ++ "?// 2\x7d".toList := rfl
  have hprefix := h.isPrefix hsource rfl
  revert hprefix
  decide

/-- **Offsets are absolute, and line and column lead back to them.** A source that starts at another offset has all
offsets moved by it, once, those of its tokens, its interpolations and its fault. A query or a program is refused at a
place in its source, at any depth of interpolations, and what is passed up to the line and column is what stands in
front of this place. -/
theorem faults_recoverable :
    (∀ source base, scan source base = shiftResult base (List.map (.shift base)) (scan source 0)) ∧
    ∀ source d, (Query.parse source = .error d ∨ Definition.parseAll source = .error d) →
      ∃ front back, source.toList = front ++ back ∧ d.offset = byteLength front ∧
        1 ≤ d.position.line ∧ 1 ≤ d.position.column ∧ d.position.front? source.toList = some front := by
  constructor
  · intro source base
    have hshift := scan_shift (k := base) source 0
    rwa [Nat.zero_add] at hshift
  · intro source d hd
    obtain ⟨e, rfl, front, back, hsource, hoffset⟩ :
        ∃ e : SyntaxError, d = e.diagnostic.locate source ∧ IsPlace source.toList e.offset := by
      rcases hd with hd | hd
      · obtain ⟨e, -, hlocated, hplace, -⟩ := Query.pointsAt_of_parse hd
        exact ⟨e, hlocated, hplace⟩
      · obtain ⟨e, -, hlocated, hplace, -⟩ := Definition.pointsAt_of_parseAll hd
        exact ⟨e, hlocated, hplace⟩
    have hposition : (e.diagnostic.locate source).position = front.foldl Position.next Position.start := by
      rw [← Position.ofOffset_front front back hsource, ← hoffset]
      rfl
    have hone := Position.one_le_foldl_next Position.start (Nat.le_refl 1) (Nat.le_refl 1) front
    refine ⟨front, back, hsource, hoffset, ?_⟩
    rw [hposition, hsource]
    exact ⟨hone.1, hone.2, Position.front?_foldl_next front back⟩

/-- Two interpolations deep, behind a character of two bytes and a line feed. -/
theorem faults_recoverable_nested :
    Query.parse "\"\\(\"é\\(\n1 2)\")\"" = .error ⟨"unexpected number 2, expected end of query", 11, ⟨2, 3⟩⟩ ∧
      ∃ front back, "\"\\(\"é\\(\n1 2)\")\"".toList = front ++ back ∧ 11 = byteLength front ∧ 1 ≤ 2 ∧ 1 ≤ 3 ∧
        Position.front? ⟨2, 3⟩ "\"\\(\"é\\(\n1 2)\")\"".toList = some front := by
  have hparse : Query.parse "\"\\(\"é\\(\n1 2)\")\"" =
      .error ⟨"unexpected number 2, expected end of query", 11, ⟨2, 3⟩⟩ := error_of_fault? (by decide +kernel)
  exact ⟨hparse, faults_recoverable.2 _ _ (.inl hparse)⟩

end DefTable
