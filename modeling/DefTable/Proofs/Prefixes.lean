import DefTable.Proofs.Completions

/-!
# Runs on the front part of lexemes

Goals look one token ahead, so a run on the front part of lexemes is the same whatever comes behind, and can be cut there
(`Reaches.front`). Where a run takes a token, a goal takes it (`Reaches.taken`).
-/

namespace DefTable
namespace Grammar

open Goal

/-- Whether a dot in front of a token starts an access. -/
def Accesses (t : Token) : Prop :=
  (∃ parts, t = .str parts) ∨ t = .leftBracket

/-- Only a dot is looked behind, and only whether it starts an access. -/
theorem Goal.move_behind {g : Goal} {t u v : Token} (h : (g.move t u).isSingle = true) (hv : ¬ Accesses v) :
    g.move t v = g.move t u := by
  cases g with
  | suffixes =>
    cases t with
    | dot =>
      have hpass : suffixes.move .dot v = .pass [] := by
        cases v with
        | str parts => exact absurd (.inl ⟨parts, rfl⟩) hv
        | leftBracket => exact absurd (.inr rfl) hv
        | _ => rfl
      rw [hpass]
      cases u <;> first | rfl | cases h
    | _ => rfl
  | «variable» | pattern | dotted | quotation => cases t <;> rfl
  | _ => rfl

namespace Reaches

variable {gs gs' : List Goal} {front rest ls ls' : Lexemes}

theorem length_le (h : Reaches (gs, ls) (gs', ls')) : ls'.length ≤ ls.length := by
  obtain ⟨front, rest, rfl, rfl | ⟨o, tail, rfl, rfl⟩⟩ := h.leaves <;> simp

theorem move_front {g : Goal} {t : Token} {m : Move} {front' rest' : Lexemes} (h : g.move t (peek (front ++ rest)) = m)
    (hm : m.isSingle = true) (hfront : front'.map Lexeme.token = front.map Lexeme.token)
    (hrest : ¬ Accesses (peek rest')) : g.move t (peek (front' ++ rest')) = m := by
  cases front with
  | nil =>
    rw [List.map_eq_nil_iff.1 hfront]
    have hsingle : (g.move t (peek rest)).isSingle = true := by
      rw [show g.move t (peek rest) = m from h]
      exact hm
    exact (move_behind hsingle hrest).trans h
  | cons l front =>
    obtain ⟨o, front', rfl, -⟩ := exists_lexeme hfront
    exact h

/-- **A run on the front part of lexemes does not depend on what comes behind.** -/
theorem onFront (h : Reaches (gs, front ++ rest) (gs', ls')) (hshort : ls'.length ≤ rest.length)
    (haccess : Accesses (peek rest) → rest.length ≤ ls'.length) :
    ∃ gs₁, Reaches (gs, front ++ rest) (gs₁, rest) ∧ Reaches (gs₁, rest) (gs', ls') ∧
      ∀ {front' rest' : Lexemes}, front'.map Lexeme.token = front.map Lexeme.token → ¬ Accesses (peek rest') →
        Reaches (gs, front' ++ rest') (gs₁, rest') := by
  generalize hc : (gs, front ++ rest) = c at h
  induction h using Relation.ReflTransGen.head_induction_on generalizing gs front with
  | refl =>
    obtain ⟨rfl, rfl⟩ := Prod.mk.inj hc
    obtain rfl : front = [] := by
      rw [List.length_append] at hshort
      exact List.eq_nil_of_length_eq_zero (by omega)
    refine ⟨_, .refl, .refl, fun {front' rest'} hfront _ => ?_⟩
    rw [List.map_eq_nil_iff.1 hfront]
    exact .refl
  | @head c d hnext hrest ih =>
    subst hc
    obtain - | ⟨⟨t, o⟩, front⟩ := front
    · refine ⟨gs, .refl, .head hnext hrest, fun {front' rest'} hfront _ => ?_⟩
      rw [List.map_eq_nil_iff.1 hfront]
      exact .refl
    cases gs with
    | nil => cases hnext
    | cons g gs =>
      obtain ⟨gs₁, ls₁, hstep, rfl⟩ := next_cons_eq_some hnext
      obtain ⟨hmove, rfl⟩ | ⟨_, heq, hmove⟩ | ⟨_, l₁, heq, hmove⟩ | ⟨_, _, heq, hmove, rfl, rfl⟩ := step_cases hstep
      · obtain ⟨gs₂, hcut, hon, hany⟩ := @ih _ (⟨t, o⟩ :: front) rfl
        refine ⟨gs₂, .head hnext hcut, hon, fun {front' rest'} hfront haccess' => ?_⟩
        obtain ⟨o', front', rfl, hfront'⟩ := exists_lexeme hfront
        exact .pass (move_front hmove rfl hfront' haccess') (hany hfront haccess')
      · cases heq
        obtain ⟨gs₂, hcut, hon, hany⟩ := ih rfl
        refine ⟨gs₂, .head hnext hcut, hon, fun {front' rest'} hfront haccess' => ?_⟩
        obtain ⟨o', front', rfl, hfront'⟩ := exists_lexeme hfront
        exact .take (move_front hmove rfl hfront' haccess') (hany hfront' haccess')
      · cases front with
        | nil =>
          obtain ⟨-, hl₁⟩ := eq_dot_of_takeTwo hmove
          obtain rfl : rest = l₁ :: ls₁ := List.tail_eq_of_cons_eq heq
          have hlong := haccess hl₁
          have hlength := length_le (show Reaches (gs₁ ++ gs, ls₁) (gs', ls') from hrest)
          rw [List.length_cons] at hlong
          omega
        | cons l front =>
          cases heq
          obtain ⟨gs₂, hcut, hon, hany⟩ := ih rfl
          refine ⟨gs₂, .head hnext hcut, hon, fun {front' rest'} hfront haccess' => ?_⟩
          obtain ⟨o', _, rfl, hfront'⟩ := exists_lexeme hfront
          obtain ⟨o₁', _, rfl, htail⟩ := exists_lexeme hfront'
          exact .step (step_takeTwo hmove) (hany htail haccess')
      · cases heq
        obtain ⟨rfl, rfl⟩ := eq_suffixes_of_part hmove
        obtain ⟨gs₂, hcut, hon, hany⟩ := @ih _ (⟨.op .alt, o⟩ :: front) rfl
        refine ⟨gs₂, .head hnext hcut, hon, fun {front' rest'} hfront haccess' => ?_⟩
        obtain ⟨o', front', rfl, hfront'⟩ := exists_lexeme hfront
        have hoperator : (⟨.op .alt, o'⟩ :: front').map Lexeme.token = .op .alt :: front.map Lexeme.token := by
          rw [List.map_cons, hfront']
        exact .step (step_part rfl) (hany hoperator haccess')

end Reaches

/-! ## Moves that take nothing -/

/-- What the next two tokens lead to without being taken. -/
def Passes (t u : Token) : List Goal → List Goal → Prop :=
  Relation.ReflTransGen fun gs gs' => ∃ g gs₁ below, gs = g :: below ∧ g.move t u = .pass gs₁ ∧ gs' = gs₁ ++ below

theorem Passes.reaches {gs gs' : List Goal} {ls : Lexemes} (h : Passes (peek ls) (peek ls.tail) gs gs') :
    Reaches (gs, ls) (gs', ls) := by
  refine Relation.ReflTransGen.lift (fun gs => (gs, ls)) ?_ _ _ h
  rintro _ _ ⟨g, gs₁, below, rfl, hmove, rfl⟩
  exact next_cons (step_pass hmove)

namespace Reaches

variable {gs gs' : List Goal} {l : Lexeme} {ls ls' : Lexemes}

/-- A run without taking a token. -/
theorem passes (h : Reaches (gs, ls) (gs', ls)) (hne : peek ls ≠ .alternative) :
    Passes (peek ls) (peek ls.tail) gs gs' := by
  generalize hc : (gs, ls) = c at h
  induction h using Relation.ReflTransGen.head_induction_on generalizing gs with
  | refl =>
    cases hc
    exact .refl
  | @head c d hnext hrest ih =>
    subst hc
    cases gs with
    | nil => cases hnext
    | cons g gs =>
      obtain ⟨gs₁, ls₁, hstep, rfl⟩ := next_cons_eq_some hnext
      have hlength := length_le (show Reaches (gs₁ ++ gs, ls₁) (gs', ls) from hrest)
      obtain ⟨hmove, rfl⟩ | ⟨_, rfl, -⟩ | ⟨_, _, rfl, -⟩ | ⟨_, _, rfl, hmove, -, -⟩ := step_cases hstep
      · exact .head ⟨g, gs₁, gs, rfl, hmove, rfl⟩ (ih rfl)
      · rw [List.length_cons] at hlength
        omega
      · rw [List.length_cons, List.length_cons] at hlength
        omega
      · exact absurd (eq_suffixes_of_part hmove).2 hne

/-- **A token that is taken by itself is taken by a goal.** -/
theorem taken (h : Reaches (gs, l :: ls) (gs', ls')) (hshort : ls'.length ≤ ls.length) (hne : l.token ≠ .alternative)
    (hdot : l.token = .dot → ¬ Accesses (peek ls)) :
    ∃ g gs₁ below, Passes l.token (peek ls) gs (g :: below) ∧ g.move l.token (peek ls) = .take gs₁ ∧
      Reaches (gs₁ ++ below, ls) (gs', ls') := by
  generalize hc : (gs, l :: ls) = c at h
  induction h using Relation.ReflTransGen.head_induction_on generalizing gs with
  | refl =>
    cases hc
    rw [List.length_cons] at hshort
    omega
  | @head c d hnext hrest ih =>
    subst hc
    cases gs with
    | nil => cases hnext
    | cons g gs =>
      obtain ⟨gs₁, ls₁, hstep, rfl⟩ := next_cons_eq_some hnext
      obtain ⟨hmove, rfl⟩ | ⟨_, heq, hmove⟩ | ⟨_, _, heq, hmove⟩ | ⟨_, _, heq, hmove, -, -⟩ := step_cases hstep
      · obtain ⟨g', gs₂, below, hpasses, htake, hrest⟩ := ih rfl
        exact ⟨g', gs₂, below, .head ⟨g, gs₁, gs, rfl, hmove, rfl⟩ hpasses, htake, hrest⟩
      · cases heq
        exact ⟨g, gs₁, gs, .refl, hmove, hrest⟩
      · cases heq
        obtain ⟨hl, haccess⟩ := eq_dot_of_takeTwo hmove
        exact absurd haccess (hdot hl)
      · cases heq
        exact absurd (eq_suffixes_of_part hmove).2 hne

end Reaches

def Move.passed : Move → Option (List Goal)
  | .pass gs => some gs
  | _ => none

theorem Move.passed_eq_some {m : Move} {gs : List Goal} : m.passed = some gs ↔ m = .pass gs := by
  cases m <;> simp [passed]

/-- A label is not taken in the same places as a dot. -/
theorem Goal.passed_label {u : Token} (hu : ¬ Accesses u) (v : Token) (g : Goal) :
    (g.move .dot u).passed = (g.move (.keyword .label) v).passed := by
  cases g with
  | suffixes =>
    cases u with
    | str parts => exact absurd (.inl ⟨parts, rfl⟩) hu
    | leftBracket => exact absurd (.inr rfl) hu
    | _ => rfl
  | token t ht =>
    cases t with
    | keyword word => cases word <;> rfl
    | _ => rfl
  | more r => cases r <;> rfl
  | after s => cases s <;> rfl
  | _ => rfl

theorem passes_label {gs gs' : List Goal} {u : Token} (hu : ¬ Accesses u) (v : Token) :
    Passes .dot u gs gs' ↔ Passes (.keyword .label) v gs gs' := by
  unfold Passes
  simp only [← Move.passed_eq_some, Goal.passed_label hu v]

end Grammar
end DefTable
