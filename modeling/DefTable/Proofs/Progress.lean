import DefTable.Proofs.Readers
import DefTable.Proofs.Interpolations
import DefTable.Proofs.ScanWeight
import Mathlib.Logic.Relation

/-!
# Parsers get on

Why a parser comes to an end. Until it has taken a token, a production calls only productions of lower ranks
(`Routine.guarded`). So where a chain of calls comes back to a production, the position has advanced, or a sign `?//` at
the position has been parted, which can be done once (`Reader.Progress`); and a string token leads to sources that are
shorter than it. A production whose lexemes weigh `w` needs at most `16 * w + 6` steps.
-/

namespace DefTable
namespace Grammar

open Procedure Relation

/-! ## Ranks -/

/-- How deep calls still nest before a token is taken. -/
def Routine.rank : Routine → Nat
  | .arguments | .bracket => 5
  | .pipe => 4
  | .binary _ => 3
  | .operand | .objectValue => 2
  | .definitions | .alternatives | .term | .objectEntries | .patternItems | .patternEntries => 1
  | _ => 0

/-- Whether a production always takes a token. -/
def Routine.consumes : Routine → Bool
  | .definitions | .binaryRest .. | .suffixes | .optionalValue | .branches | .elseBranch | .extraction => false
  | _ => true

/-- Until it has taken a token, a procedure calls only productions of lower ranks, which take one. -/
def Procedure.Guarded {α : Type} (rank : Nat) (consumes : Bool) : Procedure α → Prop
  | .give _ => consumes = false
  | .refuse _ => True
  | .look k => ∀ t, (k t).Guarded rank consumes
  | .lookBehind k => ∀ t, (k t).Guarded rank consumes
  | .skip _ _ _ other => other.Guarded rank consumes
  | .quoted _ other => other.Guarded rank consumes
  | .part _ other => consumes = false ∧ other.Guarded rank consumes
  | .call c _ => c.rank < rank ∧ c.consumes = true

theorem rank_le (c : Routine) : c.rank ≤ 5 := by
  cases c <;> simp [Routine.rank]

/-- **The procedures of the productions are guarded.** -/
theorem Routine.guarded (c : Routine) : c.procedure.Guarded c.rank c.consumes := by
  cases c with
  | definitions =>
    intro t
    cases t with
    | keyword k => cases k <;> trivial
    | eof => rfl
    | _ => trivial
  | pipe =>
    intro t
    by_cases h : t = .keyword .define
    · subst h
      trivial
    · show (if t = Token.keyword .define then _ else enter (.binary 1)).Guarded _ _
      rw [if_neg h]
      trivial
  | binaryRest least left =>
    intro t
    show (Procedure.bind (Procedure.bind (give t) _) _).Guarded 0 false
    rw [Procedure.bind]
    split
    · rfl
    · split
      · rfl
      · trivial
  | primary =>
    intro t
    cases t with
    | op o => cases o <;> trivial
    | keyword k => cases k <;> trivial
    | _ => trivial
  | suffixes =>
    intro t
    cases t with
    | dot =>
      intro u
      cases u <;> trivial
    | _ => trivial
  | parameters | objectEntry | pattern | patternEntry =>
    intro t
    cases t <;> trivial
  | binary least => exact ⟨Nat.lt_succ_self 2, rfl⟩
  | _ => trivial

/-! ## Requests -/

/-- What a procedure asks for on its way: a production at a reader, or the string that the parts of the token at a
reader make. -/
inductive Request where
  | enter (c : Routine) (r : Reader)
  | quote (parts : List StringPart) (r : Reader)

def Request.reader : Request → Reader
  | enter _ r | quote _ r => r

section
variable (call : (c : Routine) → Reader → Except Stop (c.Result × Reader))
  (text : List StringPart → Except Stop (Node .text))

/-- A procedure at a reader makes a request. -/
inductive Procedure.Makes {α : Type} : Procedure α → Reader → Request → Prop where
  | look {k : Token → Procedure α} {r l e} (hl : r.index = .ok l) (h : Makes (k l.token) r e) : Makes (.look k) r e
  | lookBehind {k : Token → Procedure α} {r e} (h : Makes (k r.behind) r e) : Makes (.lookBehind k) r e
  | taken {t ht} {k other : Procedure α} {r l e} (hl : r.index = .ok l) (hnext : l.token = t)
      (h : Makes k r.advance e) : Makes (.skip t ht k other) r e
  | passed {t ht} {k other : Procedure α} {r l e} (hl : r.index = .ok l) (hnext : l.token ≠ t) (h : Makes other r e) :
      Makes (.skip t ht k other) r e
  | quote {k : Node .text → Procedure α} {other : Procedure α} {r l parts} (hl : r.index = .ok l)
      (hnext : l.token = .str parts) : Makes (.quoted k other) r (.quote parts r)
  | quoted {k : Node .text → Procedure α} {other : Procedure α} {r l parts x e} (hl : r.index = .ok l)
      (hnext : l.token = .str parts) (hx : text parts = .ok x) (h : Makes (k x) r.advance e) :
      Makes (.quoted k other) r e
  | unquoted {k : Node .text → Procedure α} {other : Procedure α} {r l e} (hl : r.index = .ok l)
      (hnext : ∀ parts, l.token ≠ .str parts) (h : Makes other r e) : Makes (.quoted k other) r e
  | parted {k other : Procedure α} {r l e} (hl : r.index = .ok l) (hnext : l.token = .alternative)
      (h : Makes k (r.part l.offset) e) : Makes (.part k other) r e
  | whole {k other : Procedure α} {r l e} (hl : r.index = .ok l) (hnext : l.token ≠ .alternative)
      (h : Makes other r e) : Makes (.part k other) r e
  | enter {c : Routine} {k : c.Result → Procedure α} {r} : Makes (.call c k) r (.enter c r)
  | entered {c : Routine} {k : c.Result → Procedure α} {r x r' e} (hx : call c r = .ok (x, r'))
      (h : Makes (k x) r' e) : Makes (.call c k) r e

end

namespace Reader

/-- The position has advanced, or a sign `?//` at it has been parted. -/
def Progress (r r' : Reader) : Prop :=
  r.pos < r'.pos ∨ r.pos = r'.pos ∧
    ∃ o, r.tokens[r.pos]? = some ⟨.alternative, o⟩ ∧ r'.tokens[r'.pos]? = some ⟨.op .alt, o⟩

variable {r r' r'' : Reader}

theorem Progress.trans_leads (h : r.Progress r') (h' : r'.Leads r'') : r.Progress r'' := by
  rcases h with hlt | ⟨heq, o, hold, hnew⟩
  · exact .inl (Nat.lt_of_lt_of_le hlt h'.le)
  · rcases Nat.eq_or_lt_of_le h'.le with heq' | hlt
    · obtain ⟨l, hl, hparted⟩ := h'.parted hnew
      obtain rfl : l = ⟨.op .alt, o⟩ := hparted.resolve_right fun hpart => nomatch hpart.1
      exact .inr ⟨heq.trans heq', o, hold, heq' ▸ hl⟩
    · exact .inl (heq ▸ hlt)

theorem Progress.le (h : r.Progress r') : r.pos ≤ r'.pos := by
  rcases h with hlt | ⟨heq, -⟩
  · exact Nat.le_of_lt hlt
  · exact Nat.le_of_eq heq

theorem Leads.trans_progress (h : r.Leads r') (h' : r'.Progress r'') : r.Progress r'' := by
  rcases Nat.eq_or_lt_of_le h.le with heq | hlt
  · rcases h' with hlt' | ⟨heq', o, hold, hnew⟩
    · exact .inl (heq ▸ hlt')
    · obtain ⟨l, hl, hparted⟩ := h.unparted hold
      obtain rfl : ⟨.alternative, o⟩ = l := hparted.resolve_right fun hpart => nomatch hpart.2
      exact .inr ⟨heq.trans heq', o, heq ▸ hl, hnew⟩
  · exact .inl (Nat.lt_of_lt_of_le hlt h'.le)

/-- A sign is parted once. -/
theorem Progress.trans (h : r.Progress r') (h' : r'.Progress r'') : r.pos < r''.pos := by
  rcases h with hlt | ⟨heq, o, -, hnew⟩
  · exact Nat.lt_of_lt_of_le hlt h'.le
  · rcases h' with hlt' | ⟨-, o', hold, -⟩
    · exact heq ▸ hlt'
    · rw [hnew] at hold
      cases hold

/-! ### Weights -/

theorem weight_drop_add_le (ls : Lexemes) (i : Nat) : ∀ k, weight (ls.drop (i + k)) ≤ weight (ls.drop i)
  | 0 => Nat.le_refl _
  | k + 1 => by
    refine Nat.le_trans ?_ (weight_drop_add_le ls i k)
    rw [← Nat.add_assoc, ← List.drop_drop]
    cases ls.drop (i + k) with
    | nil => exact Nat.le_refl _
    | cons l ls => exact Nat.le_add_left _ _

theorem weight_le_of_mayPart {ls ls' : Lexemes} (h : List.Forall₂ MayPart ls ls') : weight ls' ≤ weight ls := by
  induction h with
  | nil => exact Nat.le_refl _
  | cons hparted _ ih =>
    rw [weight_cons, weight_cons]
    refine Nat.add_le_add ?_ ih
    rcases hparted with rfl | ⟨-, rfl⟩
    · exact Nat.le_refl _
    · exact Token.weight_pos _

theorem Leads.weight_le (h : r.Leads r') : weight r'.rest ≤ weight r.rest := by
  obtain ⟨k, hk⟩ := Nat.exists_eq_add_of_le h.le
  calc weight (r'.tokens.drop r'.pos)
    _ ≤ weight (r.tokens.drop r'.pos) := weight_le_of_mayPart (List.forall₂_drop _ h.tokens)
    _ ≤ weight (r.tokens.drop r.pos) := hk ▸ weight_drop_add_le _ _ k

theorem weight_lt_of_pos_lt (hr : r.Valid) (h : r.Leads r') (hlt : r.pos < r'.pos) :
    weight r'.rest < weight r.rest := by
  obtain ⟨l, hl⟩ := hr.exists_index
  obtain ⟨k, hk⟩ := Nat.exists_eq_add_of_lt hlt
  have hpos : r'.pos = r.pos + 1 + k := by omega
  calc weight (r'.tokens.drop r'.pos)
    _ ≤ weight (r.tokens.drop r'.pos) := weight_le_of_mayPart (List.forall₂_drop _ h.tokens)
    _ ≤ weight (r.tokens.drop (r.pos + 1)) := hpos ▸ weight_drop_add_le _ _ k
    _ < l.token.weight + weight (r.tokens.drop (r.pos + 1)) := Nat.lt_add_of_pos_left (Token.weight_pos _)
    _ = weight r.rest := by rw [rest_of_index hl, weight_cons]

theorem Progress.weight_lt (hr : r.Valid) (h : r.Leads r') (hprogress : r.Progress r') :
    weight r'.rest < weight r.rest := by
  rcases hprogress with hlt | ⟨heq, o, hold, hnew⟩
  · exact weight_lt_of_pos_lt hr h hlt
  · rw [rest_of_index (index_of_eq hold), rest_of_index (index_of_eq hnew), weight_cons, weight_cons, ← heq]
    have hrest := weight_le_of_mayPart (List.forall₂_drop (r.pos + 1) h.tokens)
    simp only [Token.weight]
    omega

end Reader

/-! ## Runs -/

section
variable {α : Type} {n rank : Nat} {consumes : Bool} {p : Procedure α} {r r' : Reader} {e : Request}

theorem Tells.of_ok {α β : Type} {Q : α → β → Prop} {x : α} {y : Parsed β} (h : Tells Q (.ok x) y) :
    ∃ b, y = .ok b ∧ Q x b := by
  cases h with
  | ok h => exact ⟨_, rfl, h⟩

theorem Tells.leads {x : α} {y : Parsed (α × Lexemes)} (h : Tells (Comes r) (.ok (x, r')) y) : r.Leads r' := by
  obtain ⟨_, -, -, hleads⟩ := h.of_ok
  exact hleads

theorem readAt_leads {c : Routine} {x : c.Result} (hr : r.Valid) (h : readAt n c r = .ok (x, r')) : r.Leads r' := by
  have htells := (readAt_tells n).1 c r hr
  rw [h] at htells
  exact htells.leads

theorem onTokens_leads {x : α} (hr : r.Valid) (h : p.onTokens (readAt n) (textAt n) r = .ok (x, r')) :
    r.Leads r' := by
  have htells := p.onTokens_tells (readAt_tells n).1 (readAt_tells n).2.1 hr
  rw [h] at htells
  exact htells.leads

theorem pos_lt_of_advance (hr : r.Valid) {l : Lexeme} (hl : r.index = .ok l) (hne : l.token ≠ .eof)
    (h : r.advance.Leads r') : r.pos < r'.pos := by
  have hle := h.le
  rw [Reader.advance_eq hr hl hne] at hle
  exact hle

/-- A guarded procedure that takes a token moves the position. -/
theorem Procedure.Guarded.pos_lt {x : α} (hp : p.Guarded rank true)
    (hcall : ∀ c r x r', c.consumes = true → r.Valid → readAt n c r = .ok (x, r') → r.pos < r'.pos) (hr : r.Valid)
    (h : p.onTokens (readAt n) (textAt n) r = .ok (x, r')) : r.pos < r'.pos := by
  induction p generalizing r with
  | give a => cases hp
  | refuse cause =>
    rw [onTokens] at h
    cases hl : r.index <;> rw [hl] at h <;> cases h
  | look k ih =>
    obtain ⟨l, hl⟩ := hr.exists_index
    rw [onTokens_look hl] at h
    exact ih _ (hp _) hr h
  | lookBehind k ih => exact ih _ (hp _) hr h
  | skip t ht k other ihk iho =>
    obtain ⟨l, hl⟩ := hr.exists_index
    by_cases hnext : l.token = t
    · rw [onTokens_taken hl hnext] at h
      have hne : l.token ≠ .eof := hnext ▸ ht
      exact pos_lt_of_advance hr hl hne (onTokens_leads (Reader.leads_advance hr hl hne).valid h)
    · rw [onTokens_passed hl hnext] at h
      exact iho hp hr h
  | quoted k other ihk iho =>
    obtain ⟨l, hl⟩ := hr.exists_index
    by_cases hnext : ∃ parts, l.token = .str parts
    · obtain ⟨parts, hnext⟩ := hnext
      rw [onTokens_quoted hl hnext] at h
      have hne : l.token ≠ .eof := by simp [hnext]
      cases hx : textAt n parts with
      | error e => rw [hx] at h; cases h
      | ok x =>
        rw [hx] at h
        exact pos_lt_of_advance hr hl hne (onTokens_leads (Reader.leads_advance hr hl hne).valid h)
    · rw [onTokens_unquoted hl (not_exists.1 hnext)] at h
      exact iho hp hr h
  | part k other ihk iho => cases hp.1
  | call c k ih =>
    rw [onTokens] at h
    cases hx : readAt n c r with
    | error e => rw [hx] at h; cases h
    | ok y =>
      rw [hx] at h
      exact Nat.lt_of_lt_of_le (hcall c r _ _ hp.2 hr hx) (onTokens_leads (readAt_leads hr hx).valid h).le

/-- A production that always takes a token moves the position. -/
theorem readAt_pos_lt : ∀ (n : Nat) (c : Routine) (r : Reader) (x : c.Result) (r' : Reader), c.consumes = true → r.Valid →
    readAt n c r = .ok (x, r') → r.pos < r'.pos
  | 0, _, _, _, _, _, _, h => nomatch h
  | n + 1, c, r, x, r', hc, hr, h => by
    have hguarded := c.guarded
    rw [hc] at hguarded
    exact hguarded.pos_lt (readAt_pos_lt n) hr h

/-- A request is made on the way. -/
theorem Procedure.Makes.leads (h : p.Makes (readAt n) (textAt n) r e) (hr : r.Valid) : r.Leads e.reader := by
  induction h with
  | look hl _ ih => exact ih hr
  | lookBehind _ ih => exact ih hr
  | @taken t ht k other r l e hl hnext _ ih =>
    have hleads := Reader.leads_advance hr hl (hnext ▸ ht)
    exact hleads.trans (ih hleads.valid)
  | passed hl hnext _ ih => exact ih hr
  | quote hl hnext => exact .refl hr
  | quoted hl hnext hx _ ih =>
    have hleads := Reader.leads_advance hr hl (hnext ▸ nofun)
    exact hleads.trans (ih hleads.valid)
  | unquoted hl hnext _ ih => exact ih hr
  | parted hl hnext _ ih =>
    have hleads := Reader.leads_part hr hl hnext
    exact hleads.trans (ih hleads.valid)
  | whole hl hnext _ ih => exact ih hr
  | enter => exact .refl hr
  | entered hx _ ih =>
    have hleads := readAt_leads hr hx
    exact hleads.trans (ih hleads.valid)

/-- A string is asked for at its token. -/
theorem Procedure.Makes.token {parts : List StringPart} (h : p.Makes (readAt n) (textAt n) r (.quote parts r')) :
    ∃ o, r'.tokens[r'.pos]? = some ⟨.str parts, o⟩ := by
  generalize he : Request.quote parts r' = e at h
  induction h with
  | @quote _ _ r l parts hl hnext =>
    cases he
    obtain ⟨_, o⟩ := l
    subst hnext
    exact ⟨o, Reader.eq_of_index hl⟩
  | enter => cases he
  | _ => exact (by assumption : _ → _) he

/-- What a guarded procedure calls before it has taken a token has a lower rank. -/
theorem Procedure.Makes.progress (h : p.Makes (readAt n) (textAt n) r e) (hp : p.Guarded rank consumes) (hr : r.Valid) :
    r.Progress e.reader ∨ e.reader = r ∧ ∀ c s, e = .enter c s → c.rank < rank := by
  induction h with
  | look hl _ ih => exact ih (hp _) hr
  | lookBehind _ ih => exact ih (hp _) hr
  | @taken t ht k other r l e hl hnext h =>
    have hne : l.token ≠ .eof := hnext ▸ ht
    exact .inl (.inl (pos_lt_of_advance hr hl hne (h.leads (Reader.leads_advance hr hl hne).valid)))
  | passed hl hnext _ ih => exact ih hp hr
  | quote hl hnext => exact .inr ⟨rfl, nofun⟩
  | @quoted k other r l parts x e hl hnext hx h =>
    have hne : l.token ≠ .eof := hnext ▸ nofun
    exact .inl (.inl (pos_lt_of_advance hr hl hne (h.leads (Reader.leads_advance hr hl hne).valid)))
  | unquoted hl hnext _ ih => exact ih hp hr
  | @parted k other r l e hl hnext h =>
    have hparted : r.Progress (r.part l.offset) :=
      .inr ⟨rfl, l.offset, hnext ▸ Reader.eq_of_index hl, Reader.eq_of_index (Reader.index_part hl _)⟩
    exact .inl (hparted.trans_leads (h.leads (Reader.leads_part hr hl hnext).valid))
  | whole hl hnext _ ih => exact ih hp.2 hr
  | enter =>
    refine .inr ⟨rfl, fun c s he => ?_⟩
    cases he
    exact hp.1
  | entered hx h =>
    have hlt := readAt_pos_lt n _ _ _ _ hp.2 hr hx
    exact .inl (.inl (Nat.lt_of_lt_of_le hlt (h.leads (readAt_leads hr hx).valid).le))

/-- A fault is one of the first part, or of what comes behind it. -/
theorem error_of_bind {ε α β : Type} {x : Except ε α} {f : α → Except ε β} {fault : ε} (h : x >>= f = .error fault) :
    x = .error fault ∨ ∃ a, x = .ok a ∧ f a = .error fault := by
  cases x with
  | error _ => exact .inl (congrArg _ (Except.error.inj h))
  | ok a => exact .inr ⟨a, rfl, h⟩

/-- The number of steps is not enough for what is asked for. -/
def Request.Exhausted (n : Nat) : Request → Prop
  | enter c r => readAt n c r = .error (.halt .exhausted)
  | quote parts _ => textAt n parts = .error (.halt .exhausted)

/-- A procedure runs out of steps in something that it asks for. -/
theorem exists_exhausted (hr : r.Valid) (h : p.onTokens (readAt n) (textAt n) r = .error (.halt .exhausted)) :
    ∃ e, p.Makes (readAt n) (textAt n) r e ∧ e.Exhausted n := by
  induction p generalizing r with
  | give a => cases h
  | refuse cause =>
    obtain ⟨l, hl⟩ := hr.exists_index
    rw [onTokens, hl] at h
    cases h
  | look k ih =>
    obtain ⟨l, hl⟩ := hr.exists_index
    rw [onTokens_look hl] at h
    obtain ⟨e, he, hx⟩ := ih _ hr h
    exact ⟨e, .look hl he, hx⟩
  | lookBehind k ih =>
    obtain ⟨e, he, hx⟩ := ih _ hr h
    exact ⟨e, .lookBehind he, hx⟩
  | skip t ht k other ihk iho =>
    obtain ⟨l, hl⟩ := hr.exists_index
    by_cases hnext : l.token = t
    · rw [onTokens_taken hl hnext] at h
      obtain ⟨e, he, hx⟩ := ihk (Reader.leads_advance hr hl (hnext ▸ ht)).valid h
      exact ⟨e, .taken hl hnext he, hx⟩
    · rw [onTokens_passed hl hnext] at h
      obtain ⟨e, he, hx⟩ := iho hr h
      exact ⟨e, .passed hl hnext he, hx⟩
  | quoted k other ihk iho =>
    obtain ⟨l, hl⟩ := hr.exists_index
    by_cases hnext : ∃ parts, l.token = .str parts
    · obtain ⟨parts, hnext⟩ := hnext
      rw [onTokens_quoted hl hnext] at h
      rcases error_of_bind h with hx | ⟨x, hx, h⟩
      · exact ⟨_, .quote hl hnext, hx⟩
      · obtain ⟨e, he, hx'⟩ := ihk x (Reader.leads_advance hr hl (by simp [hnext])).valid h
        exact ⟨e, .quoted hl hnext hx he, hx'⟩
    · have hnext := not_exists.1 hnext
      rw [onTokens_unquoted hl hnext] at h
      obtain ⟨e, he, hx⟩ := iho hr h
      exact ⟨e, .unquoted hl hnext he, hx⟩
  | part k other ihk iho =>
    obtain ⟨l, hl⟩ := hr.exists_index
    by_cases hnext : l.token = .alternative
    · rw [onTokens_parted hl hnext] at h
      obtain ⟨e, he, hx⟩ := ihk (Reader.leads_part hr hl hnext).valid h
      exact ⟨e, .parted hl hnext he, hx⟩
    · rw [onTokens_whole hl hnext] at h
      obtain ⟨e, he, hx⟩ := iho hr h
      exact ⟨e, .whole hl hnext he, hx⟩
  | call c k ih =>
    rcases error_of_bind h with hx | ⟨y, hx, h⟩
    · exact ⟨_, .enter, hx⟩
    · obtain ⟨e, he, hx'⟩ := ih y.1 (readAt_leads hr hx).valid h
      exact ⟨e, .entered hx he, hx'⟩

end

/-! ## Numbers of steps -/

/-- **A number of steps that is enough** for what a production, a string or a source weighs. -/
theorem steps_suffice (n : Nat) :
    (∀ c r, r.Valid → 16 * weight r.rest + c.rank < n → readAt n c r ≠ .error (.halt .exhausted)) ∧
    (∀ parts, 16 * Token.partsWeight parts + 1 < n → textAt n parts ≠ .error (.halt .exhausted)) ∧
    (∀ parts, 16 * Token.partsWeight parts < n → fragmentsAt n parts ≠ .error (.halt .exhausted)) ∧
    ∀ source base, 16 * source.length + 21 < n → sourceAt n source base ≠ .error (.halt .exhausted) := by
  induction n with
  | zero => exact ⟨nofun, nofun, nofun, nofun⟩
  | succ n ih =>
    obtain ⟨hcall, htext, hfragments, hsource⟩ := ih
    refine ⟨fun c r hr hn h => ?_, fun parts hn h => ?_, fun parts hn h => ?_, fun source base hn h => ?_⟩
    · obtain ⟨e, he, hx⟩ := exists_exhausted hr h
      have hleads := he.leads hr
      cases e with
      | enter d s =>
        refine hcall d s hleads.valid ?_ hx
        rcases he.progress c.guarded hr with hprogress | ⟨heq, hlower⟩
        · have hlt := hprogress.weight_lt hr hleads
          have hrank := rank_le d
          have hweight : weight s.rest < weight r.rest := hlt
          omega
        · have hrank := hlower d s rfl
          obtain rfl : s = r := heq
          omega
      | quote parts s =>
        refine htext parts ?_ hx
        obtain ⟨o, htoken⟩ := he.token
        have hle : weight s.rest ≤ weight r.rest := hleads.weight_le
        rw [Reader.rest_of_index (Reader.index_of_eq htoken), weight_cons, Token.weight] at hle
        omega
    · unfold textAt at h
      split at h
      · cases h
      · rcases error_of_bind h with hx | ⟨_, _, h⟩
        · exact hfragments parts (by omega) hx
        · cases h
    · obtain - | ⟨s | ⟨source, base⟩, parts⟩ := parts
      · cases h
      · rw [Token.partsWeight_cons, StringPart.weight] at hn
        rcases error_of_bind h with hx | ⟨_, _, h⟩
        · exact hfragments parts (by omega) hx
        · cases h
      · rw [Token.partsWeight_cons, StringPart.weight] at hn
        rcases error_of_bind h with hx | ⟨q, _, h⟩
        · exact hsource source base (by omega) hx
        · rcases error_of_bind h with hx | ⟨_, _, h⟩
          · exact hfragments parts (by omega) hx
          · cases h
    · rw [sourceAt] at h
      cases hscan : Token.scan source base with
      | error e =>
        rw [hscan] at h
        cases h
      | ok ls =>
        rw [hscan] at h
        have hr := valid_of_scan hscan
        have hweight := weight_scan_le hscan
        rcases error_of_bind h with hx | ⟨⟨q, r⟩, hx, h⟩
        · refine hcall .pipe ⟨ls, 0⟩ hr ?_ hx
          show 16 * weight ls + 4 < n
          omega
        · obtain ⟨l, hl⟩ := (readAt_leads hr hx).valid.exists_index
          dsimp only at h
          rw [hl] at h
          replace h : (if l.token = .eof then _ else _) = _ := h
          split at h <;> cases h

/-! ## Chains of calls -/

/-- A production at a reader calls another one, with some number of steps for what it has called before. -/
def Calls (x y : Routine × Reader) : Prop :=
  ∃ n, x.1.procedure.Makes (readAt n) (textAt n) x.2 (.enter y.1 y.2)

/-- A production at a reader takes a string that a source is a part of. -/
def Opens (x : Routine × Reader) (source : String) (base : Nat) : Prop :=
  ∃ n parts s, x.1.procedure.Makes (readAt n) (textAt n) x.2 (.quote parts s) ∧ .interpolation source base ∈ parts

section
variable {x y : Routine × Reader}

theorem Calls.progress (h : Calls x y) (hr : x.2.Valid) :
    x.2.Leads y.2 ∧ (x.2.Progress y.2 ∨ y.2 = x.2 ∧ y.1.rank < x.1.rank) := by
  obtain ⟨n, h⟩ := h
  exact ⟨h.leads hr, (h.progress x.1.guarded hr).imp_right (.imp_right fun hlower => hlower _ _ rfl)⟩

/-- A chain of calls without progress goes down in rank. -/
theorem chain_progress (h : TransGen Calls x y) (hr : x.2.Valid) :
    x.2.Leads y.2 ∧ (x.2.Progress y.2 ∨ y.2 = x.2 ∧ y.1.rank < x.1.rank) := by
  induction h with
  | single h => exact h.progress hr
  | tail _ h ih =>
    obtain ⟨hleads, hstep⟩ := ih
    obtain ⟨hleads', hstep'⟩ := h.progress hleads.valid
    refine ⟨hleads.trans hleads', ?_⟩
    rcases hstep with hprogress | ⟨heq, hlower⟩
    · exact .inl (hprogress.trans_leads hleads')
    · rcases hstep' with hprogress | ⟨heq', hlower'⟩
      · exact .inl (hleads.trans_progress hprogress)
      · exact .inr ⟨heq'.trans heq, hlower'.trans hlower⟩

/-- What a source is an interpolation of is a string among the tokens. -/
theorem Opens.token {source : String} {base : Nat} (hchain : ReflTransGen Calls x y) (h : Opens y source base)
    (hr : x.2.Valid) : ∃ parts o, ⟨.str parts, o⟩ ∈ x.2.tokens ∧ .interpolation source base ∈ parts := by
  have hleads : x.2.Leads y.2 := by
    rcases reflTransGen_iff_eq_or_transGen.1 hchain with rfl | hchain
    · exact .refl hr
    · exact (chain_progress hchain hr).1
  obtain ⟨n, parts, s, hquote, hpart⟩ := h
  obtain ⟨o, htoken⟩ := hquote.token
  obtain ⟨l, hl, hparted⟩ := (hleads.trans (hquote.leads hleads.valid)).unparted htoken
  obtain rfl : ⟨.str parts, o⟩ = l := hparted.resolve_right fun h => nomatch h.2
  exact ⟨parts, o, List.mem_of_getElem? hl, hpart⟩

end

/-! ## Sources -/

/-- An interpolation is shorter than the lexeme of its string. -/
theorem length_interpolation_lt {text source : String} {base start o : Nat} {ls : Lexemes} {parts : List StringPart}
    (hscan : Token.scan text base = .ok ls) (hl : ⟨.str parts, o⟩ ∈ ls)
    (hpart : .interpolation source start ∈ parts) :
    ∃ front lexeme back, text.toList = front ++ (lexeme ++ back) ∧ o = base + Text.byteLength front ∧
      Token.IsLexeme (.str parts) o lexeme ∧ source.length < lexeme.length := by
  obtain ⟨unfinished, hcovers⟩ := Token.covers_of_scan hscan
  obtain ⟨front, lexeme, back, htext, ho, hlexeme⟩ := hcovers.mem hl nofun
  obtain ⟨before, behind, hinner, -⟩ := hlexeme.interpolated hpart
  refine ⟨front, lexeme, back, htext, ho, hlexeme, ?_⟩
  rw [hinner, ← String.length_toList]
  simp only [List.length_append, List.length_cons]
  omega

theorem Tells.map_eq {α β : Type} {f : α → β} {Q : α → β → Prop} {x : Except Stop α} {y : Parsed β} (h : Tells Q x y)
    (hQ : ∀ a b, Q a b → b = f a) (hx : x ≠ .error (.halt .exhausted)) : x.map f = y.mapError .halt := by
  cases h with
  | exhausted => exact absurd rfl hx
  | fault => rfl
  | ok h => rw [hQ _ _ h]; rfl

/-- The steps for the length of a text are enough for the query that it is, which is what it is without positions. -/
theorem sourceAt_eq {text : String} {n : Nat} (base : Nat) (hn : enoughSteps text ≤ n) :
    sourceAt n text base ≠ .error (.halt .exhausted) ∧ sourceAt n text base = (whole n text base).mapError .halt := by
  unfold enoughSteps at hn
  have hx := (steps_suffice n).2.2.2 text base (by omega)
  have htells := ((readAt_tells n).2.2.2 text base).map_eq (f := id) (fun _ _ h => h.symm) hx
  rw [Except.map_id] at htells
  exact ⟨hx, htells⟩

/-- How the parser gets on from a production at a reader. -/
structure GetsOn (c : Routine) (r : Reader) : Prop where
  /-- The position does not decrease and passes no end of a source, and where a token is always taken it advances. -/
  returns : ∀ n x r', readAt n c r = .ok (x, r') → r.Leads r' ∧ (c.consumes = true → r.pos < r'.pos)
  /-- Where calls come back to the production, or to one of its rank, the position has advanced, or a sign `?//` at it
  has been parted. -/
  recurs : ∀ d s, TransGen Calls (c, r) (d, s) → r.Leads s ∧ (c.rank ≤ d.rank → r.Progress s)
  /-- A sign is parted once: where they come back again, the position has advanced. -/
  again : ∀ d s e t, TransGen Calls (c, r) (d, s) → TransGen Calls (d, s) (e, t) → c.rank ≤ d.rank → d.rank ≤ e.rank →
    r.pos < t.pos
  /-- The sources that are opened are interpolations of strings among the tokens. -/
  opens : ∀ d s source base, ReflTransGen Calls (c, r) (d, s) → Opens (d, s) source base →
    ∃ parts o, ⟨.str parts, o⟩ ∈ r.tokens ∧ .interpolation source base ∈ parts
  /-- The steps do not run out, and yield what they yield for the tokens from the position on. -/
  steps : ∀ n, 16 * weight r.rest + c.rank < n → readAt n c r ≠ .error (.halt .exhausted) ∧
    (readAt n c r).map (fun x => (x.1, x.2.rest)) = (run n c r.rest).mapError .halt

theorem getsOn (c : Routine) {r : Reader} (hr : r.Valid) : GetsOn c r where
  returns n x r' h := ⟨readAt_leads hr h, fun hc => readAt_pos_lt n c r x r' hc hr h⟩
  recurs d s h := by
    obtain ⟨hleads, hstep⟩ := chain_progress h hr
    exact ⟨hleads, fun hrank => hstep.resolve_right fun hlower => Nat.not_lt.2 hrank hlower.2⟩
  again d s e t h h' hd he := by
    obtain ⟨hleads, hstep⟩ := chain_progress h hr
    obtain ⟨-, hstep'⟩ := chain_progress h' hleads.valid
    have hprogress : r.Progress s := hstep.resolve_right fun hlower => Nat.not_lt.2 hd hlower.2
    have hprogress' : s.Progress t := hstep'.resolve_right fun hlower => Nat.not_lt.2 he hlower.2
    exact hprogress.trans hprogress'
  opens d s source base hchain h := h.token hchain hr
  steps n hn := by
    have hx := (steps_suffice n).1 c r hr hn
    exact ⟨hx, ((readAt_tells n).1 c r hr).map_eq (fun _ _ h => h.1) hx⟩

/-- **Parsing comes to an end.** On all tokens that end with the end of a source, from every position and for every
production: calls that come back have made progress, positions only increase and pass no end, and a number of steps that
is bounded by the weight of the tokens is enough. The interpolations of a text are shorter than the lexemes of their
strings; and the steps of a text, as many as `enoughSteps` has for its length, never run out, neither for the query
that it is nor for the definitions that it holds. -/
theorem parsing_ends :
    (∀ c r, r.Valid → GetsOn c r) ∧
    (∀ text base ls parts o source start, Token.scan text base = .ok ls → ⟨.str parts, o⟩ ∈ ls →
      .interpolation source start ∈ parts →
      ∃ front lexeme back, text.toList = front ++ (lexeme ++ back) ∧ o = base + Text.byteLength front ∧
        Token.IsLexeme (.str parts) o lexeme ∧ source.length < lexeme.length) ∧
    ∀ text base n, enoughSteps text ≤ n →
      (sourceAt n text base ≠ .error (.halt .exhausted) ∧
        sourceAt n text base = (whole n text base).mapError .halt) ∧
      ∀ ls, Token.scan text base = .ok ls → ∀ c, readAt n c ⟨ls, 0⟩ ≠ .error (.halt .exhausted) := by
  refine ⟨fun c r hr => getsOn c hr, fun text base ls parts o source start hscan hl hpart =>
    length_interpolation_lt hscan hl hpart, fun text base n hn => ⟨sourceAt_eq base hn, fun ls hscan c => ?_⟩⟩
  unfold enoughSteps at hn
  have hweight := weight_scan_le hscan
  have hrank := rank_le c
  refine (steps_suffice n).1 c ⟨ls, 0⟩ (valid_of_scan hscan) ?_
  show 16 * weight ls + c.rank < n
  omega

/-- A sign behind a term, and an interpolation in a string. -/
theorem parsing_ends_sign :
    (Reader.Valid ⟨[⟨.field "a", 0⟩, ⟨.alternative, 2⟩, ⟨.number "1", 5⟩, ⟨.eof, 6⟩], 0⟩ ∧
      GetsOn .term ⟨[⟨.field "a", 0⟩, ⟨.alternative, 2⟩, ⟨.number "1", 5⟩, ⟨.eof, 6⟩], 0⟩) ∧
    (∃ front lexeme back, ".a + \"\\(.b)\"".toList = front ++ (lexeme ++ back) ∧ 5 = 0 + Text.byteLength front ∧
      Token.IsLexeme (.str [.interpolation ".b" 8]) 5 lexeme ∧ ".b".length < lexeme.length) ∧
    sourceAt (enoughSteps ".a?//1") ".a?//1" 0 ≠ .error (.halt .exhausted) := by
  have hscan : (Token.scan ".a + \"\\(.b)\"" 0).toOption =
      some [⟨.field "a", 0⟩, ⟨.op .add, 3⟩, ⟨.str [.interpolation ".b" 8], 5⟩, ⟨.eof, 12⟩] := by decide +kernel
  have hvalid : Reader.Valid ⟨[⟨.field "a", 0⟩, ⟨.alternative, 2⟩, ⟨.number "1", 5⟩, ⟨.eof, 6⟩], 0⟩ :=
    ⟨⟨[⟨.field "a", 0⟩, ⟨.alternative, 2⟩, ⟨.number "1", 5⟩], 6, rfl⟩, by decide⟩
  exact ⟨⟨hvalid, parsing_ends.1 .term _ hvalid⟩,
    parsing_ends.2.1 _ _ _ _ _ _ _ (ok_of_toOption hscan) (by decide) List.mem_cons_self,
    (parsing_ends.2.2 _ 0 _ (Nat.le_refl _)).1.1⟩

end Grammar
end DefTable
