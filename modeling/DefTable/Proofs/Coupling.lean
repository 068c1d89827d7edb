import DefTable.Proofs.Correspondence

/-!
# Two runs of the parser

Two runs are paired by saying which lexemes they may have in front of them and with which faults they may end
(`Pairing`). They are coupled if both can always take the next token (`Coupling`): lexemes that are paired begin with
the same token, or one run has the sign `?//` where the other one has a question mark and the operator `//`, and what
follows is paired again. Coupled runs end alike (`Pairing.Agree`). Here this is shown for what reads single tokens, and
for lists.
-/

namespace DefTable

/-- A token that is looked at by itself, wherever the parser looks at it: neither a string, whose parts are read, nor a
question mark in one of its two forms, nor the end of a source. -/
def Token.isFixed : Token → Bool
  | .str _ => false
  | .question => false
  | .alternative => false
  | .eof => false
  | _ => true

theorem Token.ne_of_isFixed {t : Token} (ht : t.isFixed = true) :
    (∀ parts, t ≠ .str parts) ∧ t ≠ .question ∧ t ≠ .alternative ∧ t ≠ .eof := by
  refine ⟨?_, ?_, ?_, ?_⟩
  · rintro parts rfl
    cases ht
  all_goals
    rintro rfl
    cases ht

namespace Grammar

/-! ## Paired lexemes and results -/

/-- How two runs of the parser go together: what they may have in front of them, and with which faults they may end. -/
structure Pairing extends Change where
  /-- How the lexemes of a source go with those of the other one; nested sources may go together in another mode. -/
  Mode : Type
  alike : Mode → Lexemes → Lexemes → Prop
  /-- What they may have in front of them where patterns are read, which signs `?//` may separate. -/
  patterns : Mode → Lexemes → Lexemes → Prop
  fault : SyntaxError → SyntaxError → Prop

/-- One token comes next in both, and `R` holds of what follows; or it comes next in neither. -/
def Both (t : Token) (R : Lexemes → Lexemes → Prop) (ls ls' : Lexemes) : Prop :=
  (∃ o o' rest rest', ls = ⟨t, o⟩ :: rest ∧ ls' = ⟨t, o'⟩ :: rest' ∧ R rest rest') ∨ peek ls ≠ t ∧ peek ls' ≠ t

namespace Pairing

variable (κ : Pairing) (i : κ.Mode)

/-- How paired lexemes begin. The sign `?//` is read behind a term as a question mark in front of the operator `//`, and
may stand for these two. -/
inductive Begins : Lexemes → Lexemes → Prop where
  | finish (o o' : Nat) : Begins [⟨.eof, o⟩] [⟨.eof, o'⟩]
  | plain {t : Token} {o o' : Nat} {ls ls' : Lexemes} (ht : t.isPlain = true) (hsign : t ≠ .alternative)
      (h : κ.alike i ls ls') (has : t = .keyword .as → κ.patterns i ls ls') : Begins (⟨t, o⟩ :: ls) (⟨t, o'⟩ :: ls')
  | string {parts parts' : List StringPart} {o o' : Nat} {ls ls' : Lexemes}
      (hparts : List.Forall₂ κ.Part parts parts') (h : κ.alike i ls ls') :
      Begins (⟨.str parts, o⟩ :: ls) (⟨.str parts', o'⟩ :: ls')
  | sign {o o' : Nat} {ls ls' : Lexemes} (h : κ.alike i (⟨.op .alt, o⟩ :: ls) (⟨.op .alt, o'⟩ :: ls')) :
      Begins (⟨.alternative, o⟩ :: ls) (⟨.alternative, o'⟩ :: ls')
  | parted {o o' o₁ : Nat} {ls ls' : Lexemes} (h : κ.alike i (⟨.op .alt, o⟩ :: ls) (⟨.op .alt, o₁⟩ :: ls')) :
      Begins (⟨.alternative, o⟩ :: ls) (⟨.question, o'⟩ :: ⟨.op .alt, o₁⟩ :: ls')

/-- Two runs end alike: with values of which `Q` holds, or with paired faults. -/
inductive Agree {α β : Type} (Q : α → β → Prop) : Parsed α → Parsed β → Prop where
  | ok {a : α} {b : β} (h : Q a b) : Agree Q (.ok a) (.ok b)
  | fault {e e' : SyntaxError} (h : κ.fault e e') : Agree Q (.error (.fault e)) (.error (.fault e'))

/-- Both runs have the same value, leave paired lexemes, and the first one less than `w` of them. -/
def Leaves {α : Type} (w : Nat) (r r' : α × Lexemes) : Prop :=
  r.1 = r'.1 ∧ κ.alike i r.2 r'.2 ∧ weight r.2 < w

end Pairing

/-- **A pairing that is kept token by token**, and from a string to the sources of its interpolations. -/
structure Coupling extends Pairing where
  begins {i : Mode} {ls ls' : Lexemes} : alike i ls ls' → toPairing.Begins i ls ls'
  alike_of_patterns {i : Mode} {ls ls' : Lexemes} : patterns i ls ls' → alike i ls ls'
  /-- Behind a pattern a sign `?//` separates patterns in both runs or in none. -/
  behind_pattern {i : Mode} {n n' : Nat} {ls ls' ls₁ ls₁' : Lexemes} {p : Pattern} : patterns i ls ls' →
    pattern n ls = .ok (p, ls₁) → pattern n' ls' = .ok (p, ls₁') → alike i ls₁ ls₁' →
    Both .alternative (patterns i) ls₁ ls₁'
  unexpected {i : Mode} {ls ls' : Lexemes} : alike i ls ls' → ∀ wanted,
    fault ⟨.unexpected (peek ls) wanted, offset ls⟩ ⟨.unexpected (peek ls') wanted, offset ls'⟩
  directive {i : Mode} {ls ls' : Lexemes} : alike i ls ls' →
    fault ⟨.moduleDirective, offset ls⟩ ⟨.moduleDirective, offset ls'⟩
  scans {source source' : String} {o o' : Nat} : nested source o source' o' →
    ∃ i, toPairing.Agree (alike i) (scanned (Token.scan source o)) (scanned (Token.scan source' o'))

namespace Pairing

variable {κ : Pairing} {i : κ.Mode} {α β γ ε : Type} {Q : α → β → Prop} {R : γ → ε → Prop}

theorem Agree.bind {x : Parsed α} {y : Parsed β} {f : α → Parsed γ} {g : β → Parsed ε} (h : κ.Agree Q x y)
    (hf : ∀ a b, Q a b → κ.Agree R (f a) (g b)) : κ.Agree R (x >>= f) (y >>= g) := by
  cases h with
  | ok h => exact hf _ _ h
  | fault h => exact .fault h

/-- A production that took something, and what is done with the rest. -/
theorem Agree.before {x y : Parsed (α × Lexemes)} {f : α × Lexemes → Parsed γ} {g : α × Lexemes → Parsed ε} {w : Nat}
    (h : κ.Agree (κ.Leaves i w) x y)
    (hf : ∀ a {ls ls'}, κ.alike i ls ls' → weight ls < w → κ.Agree R (f (a, ls)) (g (a, ls'))) :
    κ.Agree R (x >>= f) (y >>= g) := by
  refine h.bind fun r r' hr => ?_
  obtain ⟨a, ls⟩ := r
  obtain ⟨a', ls'⟩ := r'
  obtain ⟨rfl, hls, hw⟩ := hr
  exact hf a hls hw

theorem Agree.left {a : α} {ls ls' : Lexemes} (hls : κ.alike i ls ls') {w : Nat} (h : weight ls < w) :
    κ.Agree (κ.Leaves i w) (.ok (a, ls)) (.ok (a, ls')) :=
  .ok ⟨rfl, hls, h⟩

theorem Agree.imp {Q' : α → β → Prop} {x : Parsed α} {y : Parsed β} (h : κ.Agree Q x y)
    (hQ : ∀ a b, x = .ok a → y = .ok b → Q a b → Q' a b) : κ.Agree Q' x y := by
  cases h with
  | ok h => exact .ok (hQ _ _ rfl rfl h)
  | fault h => exact .fault h

theorem Agree.leave_more {x y : Parsed (α × Lexemes)} {v w : Nat} (h : κ.Agree (κ.Leaves i v) x y) (hvw : v ≤ w) :
    κ.Agree (κ.Leaves i w) x y :=
  h.imp fun _ _ _ _ hleaves => ⟨hleaves.1, hleaves.2.1, Nat.lt_of_lt_of_le hleaves.2.2 hvw⟩

end Pairing

namespace Coupling

variable {κ : Coupling} {i : κ.Mode} {ls ls' : Lexemes}

/-! ## The next token -/

theorem unexpected_agree (h : κ.alike i ls ls') (wanted : Expectation) {α β : Type} {Q : α → β → Prop} :
    κ.Agree Q (.error (Grammar.unexpected ls wanted)) (.error (Grammar.unexpected ls' wanted)) :=
  .fault (κ.unexpected h wanted)

theorem peek_eq_iff (h : κ.alike i ls ls') {t : Token} (ht : t.isFixed = true) : peek ls' = t ↔ peek ls = t := by
  obtain ⟨hstr, hquestion, halternative, -⟩ := Token.ne_of_isFixed ht
  cases κ.begins h with
  | finish => rfl
  | plain => rfl
  | string => exact iff_of_false (hstr _).symm (hstr _).symm
  | sign => rfl
  | parted => exact iff_of_false hquestion.symm halternative.symm

theorem peek_eq_eof_iff (h : κ.alike i ls ls') : peek ls' = .eof ↔ peek ls = .eof := by
  cases κ.begins h with
  | finish => rfl
  | plain => rfl
  | string => simp [peek]
  | sign => rfl
  | parted => simp [peek]

theorem operator?_eq (h : κ.alike i ls ls') : operator? ls' = operator? ls := by
  cases κ.begins h <;> rfl

/-- Behind a token that is taken for what it is. -/
theorem tail (h : κ.alike i ls ls') (hfixed : (peek ls).isFixed = true) :
    κ.alike i ls.tail ls'.tail ∧ weight ls.tail < weight ls := by
  cases κ.begins h with
  | finish => cases hfixed
  | @plain t o o' ls ls' ht hsign hrest has =>
    have := t.weight_pos
    exact ⟨hrest, by simp only [List.tail_cons, weight_cons]; omega⟩
  | string => cases hfixed
  | sign => cases hfixed
  | parted => cases hfixed

theorem next (h : κ.alike i ls ls') {t : Token} (ht : t.isFixed = true) : Both t (κ.alike i) ls ls' := by
  have heof := (Token.ne_of_isFixed ht).2.2.2
  by_cases hpeek : peek ls = t
  · left
    obtain ⟨o, hls⟩ := eq_cons_of_peek heof hpeek
    obtain ⟨o', hls'⟩ := eq_cons_of_peek heof ((peek_eq_iff h ht).2 hpeek)
    exact ⟨o, o', _, _, hls, hls', (tail h (by rwa [hpeek])).1⟩
  · exact .inr ⟨hpeek, mt (peek_eq_iff h ht).1 hpeek⟩

/-- Behind the word `as`, patterns are read. -/
theorem next_as (h : κ.alike i ls ls') : Both (.keyword .as) (κ.patterns i) ls ls' := by
  rcases next h (t := .keyword .as) rfl with ⟨o, o', rest, rest', rfl, rfl, -⟩ | hneither
  · cases κ.begins h with
    | plain _ _ _ has => exact .inl ⟨o, o', rest, rest', rfl, rfl, has rfl⟩
  · exact .inr hneither

/-! ## Single tokens -/

theorem expect_agree {t : Token} (ht : t.isFixed = true) (h : κ.alike i ls ls') :
    κ.Agree (fun r r' => κ.alike i r r' ∧ weight r < weight ls) (expect t ls) (expect t ls') := by
  have heof := (Token.ne_of_isFixed ht).2.2.2
  have hcons : ∀ {ls : Lexemes}, peek ls ≠ t → expect t ls = .error (Grammar.unexpected ls (.token t)) := by
    intro ls hne
    cases ls with
    | nil => rfl
    | cons l ls => exact if_neg hne
  have hok : ∀ {ls : Lexemes}, peek ls = t → expect t ls = .ok ls.tail := by
    intro ls hpeek
    obtain ⟨o, hls⟩ := eq_cons_of_peek heof hpeek
    rw [hls]
    exact if_pos rfl
  by_cases hpeek : peek ls = t
  · rw [hok hpeek, hok ((peek_eq_iff h ht).2 hpeek)]
    exact .ok (tail h (by rwa [hpeek]))
  · rw [hcons hpeek, hcons (mt (peek_eq_iff h ht).1 hpeek)]
    exact unexpected_agree h _

theorem variableName_agree (h : κ.alike i ls ls') :
    κ.Agree (κ.Leaves i (weight ls)) (variableName ls) (variableName ls') := by
  cases κ.begins h with
  | @plain t o o' ls ls' ht hsign hrest has =>
    cases t with
    | «variable» name => exact .left hrest (by simp only [weight_cons, Token.weight]; omega)
    | _ => exact unexpected_agree h _
  | _ => exact unexpected_agree h _

theorem definitionName_agree (h : κ.alike i ls ls') :
    κ.Agree (κ.Leaves i (weight ls)) (definitionName ls) (definitionName ls') := by
  cases κ.begins h with
  | @plain t o o' ls ls' ht hsign hrest has =>
    have := t.weight_pos
    simp only [definitionName]
    split
    · exact .left hrest (by simp only [weight_cons]; omega)
    · exact unexpected_agree h _
  | _ => exact unexpected_agree h _

theorem parameters_agree (h : κ.alike i ls ls') :
    κ.Agree (κ.Leaves i (weight ls)) (parameters ls) (parameters ls') := by
  induction hw : weight ls using Nat.strong_induction_on generalizing ls ls'
  next w ih =>
  cases κ.begins h with
  | @plain t o o' ls ls' ht hsign hrest has =>
    have := t.weight_pos
    have hw : t.weight + weight ls = w := (weight_cons _ _).symm.trans hw
    rw [parameters_cons, parameters_cons]
    cases parameter? t with
    | none => exact unexpected_agree h _
    | some name =>
      dsimp only
      by_cases hpeek : peek ls = .semicolon
      · rw [if_pos hpeek, if_pos ((peek_eq_iff hrest rfl).2 hpeek)]
        obtain ⟨htail, hless⟩ := tail hrest (by rw [hpeek]; rfl)
        exact (ih _ (by omega) htail rfl).before fun names _ _ hls hlt => .left hls (by omega)
      · rw [if_neg hpeek, if_neg (mt (peek_eq_iff hrest rfl).1 hpeek)]
        exact .left hrest (by omega)
  | _ => exact unexpected_agree h _

theorem parameterList_agree (h : κ.alike i ls ls') :
    κ.Agree (κ.Leaves i (weight ls + 1)) (parameterList ls) (parameterList ls') := by
  have hnone : ∀ {ls : Lexemes}, peek ls ≠ .leftParen → parameterList ls = .ok ([], ls) := by
    intro ls hne
    unfold parameterList
    split
    · exact absurd rfl hne
    · rfl
  rcases next h (t := .leftParen) rfl with ⟨o, o', rest, rest', rfl, rfl, hrest⟩ | ⟨hne, hne'⟩
  · refine (parameters_agree hrest).before fun names _ _ hls hlt => ?_
    refine (expect_agree rfl hls).bind fun ls₁ ls₁' h₁ => .left h₁.1 ?_
    have := h₁.2
    simp only [weight_cons, Token.weight]
    omega
  · rw [hnone hne, hnone hne']
    exact .left h (Nat.lt_succ_self _)

/-! ## Lists, and what may be missing -/

section
variable {α : Type} {w : Nat}

theorem listed_agree {separator : Token} {R : Lexemes → Lexemes → Prop} {first first' : Parsed (α × Lexemes)}
    {further further' : Lexemes → Parsed (List α × Lexemes)}
    (hfirst : κ.Agree (fun r r' => κ.Leaves i w r r' ∧ Both separator R r.2 r'.2) first first')
    (hfurther : ∀ {ls ls'}, R ls ls' → weight ls + 1 < w →
      κ.Agree (κ.Leaves i (weight ls)) (further ls) (further' ls')) :
    κ.Agree (κ.Leaves i w) (listed separator first further) (listed separator first' further') := by
  refine hfirst.bind fun r r' hr => ?_
  obtain ⟨a, ls⟩ := r
  obtain ⟨a', ls'⟩ := r'
  obtain ⟨⟨rfl, hls, hlt⟩, hboth⟩ := hr
  have hpos := separator.weight_pos
  dsimp only at hlt hboth ⊢
  rcases hboth with ⟨o, o', rest, rest', rfl, rfl, hrest⟩ | ⟨hne, hne'⟩
  · simp only [weight_cons] at hlt
    simp only [peek, if_true, List.tail_cons]
    exact (hfurther hrest (by omega)).before fun xs _ _ hls hlt' => .left hls (by omega)
  · rw [if_neg hne, if_neg hne']
    exact .left hls hlt

/-- A list whose separator is taken for what it is. -/
theorem separated_agree {separator : Token} (hseparator : separator.isFixed = true)
    {first first' : Parsed (α × Lexemes)} {further further' : Lexemes → Parsed (List α × Lexemes)}
    (hfirst : κ.Agree (κ.Leaves i w) first first')
    (hfurther : ∀ {ls ls'}, κ.alike i ls ls' → weight ls + 1 < w →
      κ.Agree (κ.Leaves i (weight ls)) (further ls) (further' ls')) :
    κ.Agree (κ.Leaves i w) (listed separator first further) (listed separator first' further') :=
  listed_agree (hfirst.imp fun _ _ _ _ h => ⟨h, next h.2.1 hseparator⟩) hfurther

theorem optionally_agree {lead : Token} (hlead : lead.isFixed = true) {item item' : Lexemes → Parsed (α × Lexemes)}
    (hls : κ.alike i ls ls')
    (hitem : ∀ {ls₁ ls₁'}, κ.alike i ls₁ ls₁' → weight ls₁ < weight ls →
      κ.Agree (κ.Leaves i (weight ls₁)) (item ls₁) (item' ls₁')) :
    κ.Agree (κ.Leaves i (weight ls + 1)) (optionally lead item ls) (optionally lead item' ls') := by
  unfold optionally
  by_cases hpeek : peek ls = lead
  · rw [if_pos hpeek, if_pos ((peek_eq_iff hls hlead).2 hpeek)]
    obtain ⟨htail, hless⟩ := tail hls (by rwa [hpeek])
    exact (hitem htail hless).before fun a _ _ hls hlt => .left hls (by omega)
  · rw [if_neg hpeek, if_neg (mt (peek_eq_iff hls hlead).1 hpeek)]
    exact .left hls (Nat.lt_succ_self _)

end

end Coupling

/-! ## Corresponding lexemes -/

namespace Change

variable (δ : Change)

/-- Runs on corresponding lexemes, which end with corresponding faults at corresponding places. -/
def pairing : Pairing :=
  { δ with
    Mode := Unit
    alike := fun _ => δ.Alike
    patterns := fun _ => δ.Alike
    fault := fun e e' => δ.Cause e.cause e'.cause ∧ δ.moves e.offset e'.offset }

variable {δ}

theorem agree_iff {α β : Type} {Q : α → β → Prop} {x : Parsed α} {y : Parsed β} :
    δ.pairing.Agree Q x y ↔ δ.Agree Q x y := by
  constructor
  · rintro (h | ⟨hcause, ho⟩)
    · exact .ok h
    · exact .fault hcause ho
  · rintro (h | ⟨hcause, ho⟩)
    · exact .ok h
    · exact .fault ⟨hcause, ho⟩

theorem Alike.begins {ls ls' : Lexemes} (h : δ.Alike ls ls') : δ.pairing.Begins () ls ls' := by
  cases h with
  | finish => exact .finish _ _
  | @plain t o o' ls ls' ht ho h =>
    by_cases hsign : t = .alternative
    · subst hsign
      exact .sign (Alike.plain rfl ho h)
    · exact .plain ht hsign h fun _ => h
  | string hparts ho h => exact .string hparts h

theorem Alike.both_alternative {ls ls' : Lexemes} (h : δ.Alike ls ls') : Both .alternative δ.Alike ls ls' := by
  cases h with
  | finish => exact .inr ⟨nofun, nofun⟩
  | @plain t o o' ls ls' ht ho h =>
    by_cases hsign : t = .alternative
    · subst hsign
      exact .inl ⟨o, o', ls, ls', rfl, rfl, h⟩
    · exact .inr ⟨hsign, hsign⟩
  | string => exact .inr ⟨nofun, nofun⟩

theorem Alike.cause_unexpected {ls ls' : Lexemes} (h : δ.Alike ls ls') (wanted : Expectation) :
    δ.Cause (.unexpected (peek ls) wanted) (.unexpected (peek ls') wanted) := by
  cases h with
  | string hparts => exact .unexpected hparts wanted
  | _ => exact .same _

/-- **Where nested sources correspond, runs on corresponding lexemes are coupled.** -/
def coupling (hδ : δ.Scans) : Coupling :=
  { δ.pairing with
    begins := Alike.begins
    alike_of_patterns := id
    behind_pattern := fun _ _ _ h => Alike.both_alternative h
    unexpected := fun h wanted => ⟨Alike.cause_unexpected h wanted, Alike.moves_offset h⟩
    directive := fun h => ⟨.same _, Alike.moves_offset h⟩
    scans := fun h => ⟨(), agree_iff.2 (hδ _ _ _ _ h)⟩ }

end Change
end Grammar
end DefTable
