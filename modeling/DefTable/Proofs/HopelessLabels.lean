import DefTable.Proofs.Prefixes

/-!
# Labels in front of a wanted `as`

A query ends in front of no `as` and of nothing that goes on a term (`pipe_ended`). So where the `as` of a reduction is
wanted behind a term, a label cannot be that term: what it labels takes every `as` behind it (`label_hopeless`).
-/

namespace DefTable
namespace Grammar

open Goal

/-- What may stand behind a query: neither a binding nor a suffix goes on with it. -/
def Ended (ls : Lexemes) : Prop :=
  peek ls ≠ .keyword .as ∧ ¬ StartsSuffix ls

/-- Suffixes are read until none starts. -/
theorem Goal.suffixes_step {gs : List Goal} {ls ls' : Lexemes} (h : Goal.suffixes.step ls = some (gs, ls')) :
    (gs = [] ∧ ls' = ls ∧ ¬ StartsSuffix ls) ∨ ∃ front, gs = front ++ [.suffixes] := by
  obtain - | ⟨⟨t, o⟩, ls⟩ := ls
  · cases h
    exact .inl ⟨rfl, rfl, id⟩
  cases t with
  | field | question | alternative =>
    cases h
    exact .inr ⟨[], rfl⟩
  | leftBracket =>
    cases h
    exact .inr ⟨[.bracket], rfl⟩
  | dot =>
    obtain - | ⟨⟨u, o₁⟩, ls⟩ := ls
    · cases h
      exact .inl ⟨rfl, rfl, id⟩
    cases u with
    | str =>
      cases h
      exact .inr ⟨[], rfl⟩
    | leftBracket =>
      cases h
      exact .inr ⟨[.bracket], rfl⟩
    | _ =>
      cases h
      exact .inl ⟨rfl, rfl, id⟩
  | _ =>
    cases h
    exact .inl ⟨rfl, rfl, id⟩

theorem Goal.suffixes_pass {ls : Lexemes} (h : ¬ StartsSuffix ls) :
    Goal.suffixes.move (peek ls) (peek ls.tail) = .pass [] := by
  obtain - | ⟨⟨t, o⟩, ls⟩ := ls
  · rfl
  cases t with
  | field | question | alternative | leftBracket => exact absurd trivial h
  | dot =>
    obtain - | ⟨⟨u, o₁⟩, ls⟩ := ls
    · rfl
    cases u with
    | str | leftBracket => exact absurd trivial h
    | _ => rfl
  | _ => rfl

namespace Reaches

variable {g : Goal} {gs below : List Goal} {ls ls₁ ls' : Lexemes}

theorem done_inv (h : Reaches ([], ls) ([], ls')) : ls' = ls :=
  congrArg Prod.snd h.nil_inv

theorem head_inv (h : Reaches (g :: below, ls) ([], ls')) :
    ∃ gs ls₁, g.step ls = some (gs, ls₁) ∧ Reaches (gs ++ below, ls₁) ([], ls') := by
  generalize hc : (g :: below, ls) = c at h
  cases h using Relation.ReflTransGen.head_induction_on with
  | refl => cases hc
  | head hnext hrest =>
    subst hc
    obtain ⟨gs, ls₁, hstep, rfl⟩ := next_cons_eq_some hnext
    exact ⟨gs, ls₁, hstep, hrest⟩

theorem pass_inv (h : Reaches (g :: below, ls) ([], ls')) (hmove : g.move (peek ls) (peek ls.tail) = .pass gs) :
    Reaches (gs ++ below, ls) ([], ls') :=
  h.goOn (.pass hmove .refl)

theorem take_inv {l : Lexeme} (h : Reaches (g :: below, l :: ls) ([], ls')) (hmove : g.move l.token (peek ls) = .take gs) :
    Reaches (gs ++ below, ls) ([], ls') :=
  h.goOn (.take hmove .refl)

theorem not_refused (h : Reaches (g :: below, ls) ([], ls')) : g.move (peek ls) (peek ls.tail) ≠ .refuse := by
  intro hmove
  obtain ⟨gs, ls₁, hstep, -⟩ := h.head_inv
  rw [step_refuse hmove] at hstep
  cases hstep

/-- A token that has to come next. -/
theorem token_inv {t : Token} {ht : t.isMark = true} (h : Reaches (.token t ht :: below, ls) ([], ls')) :
    ∃ o ls₁, ls = ⟨t, o⟩ :: ls₁ ∧ Reaches (below, ls₁) ([], ls') := by
  have hnext : peek ls = t := by
    by_contra hne
    exact h.not_refused (if_neg hne)
  obtain - | ⟨⟨u, o⟩, ls⟩ := ls
  · subst hnext
    cases ht
  · obtain rfl : u = t := hnext
    have hmove (v : Token) : (Goal.token u ht).move u v = .take [] := if_pos rfl
    exact ⟨o, ls, rfl, h.take_inv (hmove _)⟩

theorem token_take {t : Token} {ht : t.isMark = true} {l : Lexeme}
    (h : Reaches (.token t ht :: below, l :: ls) ([], ls')) : l.token = t ∧ Reaches (below, ls) ([], ls') := by
  obtain ⟨o, ls₁, heq, hbelow⟩ := h.token_inv
  obtain ⟨rfl, rfl⟩ := List.cons.inj heq
  exact ⟨rfl, hbelow⟩

/-- The last goal that reads suffixes leaves none. -/
theorem suffixes_ended (gs : List Goal) (h : Reaches (gs ++ [.suffixes], ls) ([], ls')) : ¬ StartsSuffix ls' := by
  generalize hc : (gs ++ [.suffixes], ls) = c at h
  induction h using Relation.ReflTransGen.head_induction_on generalizing gs ls with
  | refl => simp at hc
  | @head c d hnext hrest ih =>
    subst hc
    cases gs with
    | cons g gs =>
      obtain ⟨gs₁, ls₁, hstep, rfl⟩ := next_cons_eq_some hnext
      exact ih (gs₁ ++ gs) (Prod.ext (List.append_assoc gs₁ gs _) rfl)
    | nil =>
      obtain ⟨gs₁, ls₁, hstep, rfl⟩ := next_cons_eq_some hnext
      obtain ⟨rfl, rfl, hends⟩ | ⟨front, rfl⟩ := suffixes_step hstep
      · rwa [done_inv hrest]
      · exact ih front (Prod.ext (List.append_nil _).symm rfl)

end Reaches

mutual

theorem pipe_ended {ls ls' : Lexemes} (h : Reaches ([.pipe], ls) ([], ls')) : Ended ls' := by
  by_cases hnext : peek ls = .keyword .define
  · obtain ⟨o, hcons⟩ := eq_cons_of_peek (by simp) hnext
    have hlength : ls.length = ls.tail.length + 1 := congrArg List.length hcons
    rw [hcons] at h
    obtain ⟨ls₁, hname, hpipe⟩ := (h.take_inv rfl).split [.name]
    have := hname.length_le
    exact pipe_ended hpipe
  · obtain ⟨ls₁, hoperand, hrest⟩ := (h.pass_inv (if_neg hnext)).split [.operand]
    have := hoperand.length_le
    exact rest_ended (operand_ended hoperand) hrest
termination_by 3 * ls.length + 2

theorem operand_ended {ls ls' : Lexemes} (h : Reaches ([.operand], ls) ([], ls')) : Ended ls' := by
  obtain ⟨ls₁, hterm, hbinding⟩ := (h.pass_inv rfl).split [.term]
  have hlength := hterm.length_le
  by_cases hnext : peek ls₁ = .keyword .as
  · obtain ⟨o, hcons⟩ := eq_cons_of_peek (by simp) hnext
    have hlength₁ : ls₁.length = ls₁.tail.length + 1 := congrArg List.length hcons
    rw [hcons] at hbinding
    obtain ⟨ls₂, hpatterns, hpipe⟩ :=
      (hbinding.take_inv rfl).split [.pattern, .more .alternatives, .sign (.op .pipe)]
    have := hpatterns.length_le
    exact pipe_ended hpipe
  · obtain rfl := (hbinding.pass_inv (if_neg hnext)).done_inv
    exact ⟨hnext, (hterm.pass_inv rfl).suffixes_ended [.primary]⟩
termination_by 3 * ls.length + 1

theorem rest_ended {least : Nat} {ls ls' : Lexemes} (hls : Ended ls) (h : Reaches ([.rest least], ls) ([], ls')) :
    Ended ls' := by
  cases hop : operator? [⟨peek ls, 0⟩] with
  | none =>
    rwa [(h.pass_inv (goOn_none hop least)).done_inv]
  | some op =>
    have hmove (u : Token) : (Goal.rest least).move (peek ls) u =
        if op.precedence < least then .pass [] else .take (operands op ++ [.unchained op, .rest least]) :=
      goOn_some hop least
    by_cases hleast : op.precedence < least
    · rwa [(h.pass_inv ((hmove _).trans (if_pos hleast))).done_inv]
    have hne : peek ls ≠ .eof := by
      intro heof
      rw [heof] at hop
      cases hop
    obtain ⟨o, hcons⟩ := eq_cons_of_peek hne rfl
    have hlength : ls.length = ls.tail.length + 1 := congrArg List.length hcons
    have htake := (hmove (peek ls.tail)).trans (if_neg hleast)
    rw [hcons] at h
    have hall := h.take_inv htake
    rw [List.append_nil] at hall
    obtain ⟨ls₁, hright, hmore⟩ := hall.split _
    have := hright.length_le
    have hended : Ended ls₁ := by
      unfold operands at hright
      split at hright
      · exact pipe_ended hright
      · obtain ⟨ls₂, hoperand, hrest⟩ := hright.split [.operand]
        have := hoperand.length_le
        exact rest_ended (operand_ended hoperand) hrest
    have hunchained : (Goal.unchained op).move (peek ls₁) (peek ls₁.tail) = .pass [] := by
      by_contra hne
      refine hmore.not_refused (if_pos (by_contra fun hchain => hne (if_neg hchain)))
    exact rest_ended hended (hmore.pass_inv hunchained)
termination_by 3 * ls.length

end

/-! ## Where `as` is wanted -/

theorem Goal.eq_suffixes {g : Goal} (hg : g.sample = []) (hadmits : g.Admits (.keyword .as)) (hsteady : g.steady = true) :
    g = .suffixes := by
  cases g with
  | suffixes => rfl
  | more r => cases r <;> cases hadmits
  | after s =>
    cases s with
    | handler => cases hg
    | _ => cases hadmits
  | binding | rest | unchained | parameterList | branches => cases hadmits
  | dotted | quotation | call => cases hsteady
  | _ => cases hg

theorem Goal.eq_as {g : Goal} {ts : List Token} (h : g.sample = .keyword .as :: ts) : g = .word .as := by
  cases g with
  | token t ht =>
    obtain rfl : t = .keyword .as := List.head_eq_of_cons_eq h
    rfl
  | after s => cases s <;> cases h
  | _ => cases h

/-- Where `as` is wanted, it is wanted behind the suffixes of a term. -/
theorem Linked.exists_suffixes : ∀ {gs : List Goal}, Linked gs .eof → gs.all steady = true →
    wanted gs .eof = .keyword .as → ∃ k below, gs = List.replicate k .suffixes ++ .word .as :: below
  | [], _, _, hwanted => by cases hwanted
  | g :: gs, hlinked, hsteady, hwanted => by
    rw [List.all_cons, Bool.and_eq_true] at hsteady
    cases hg : g.sample with
    | nil =>
      rw [wanted, hg] at hwanted
      obtain hwanted : wanted gs .eof = .keyword .as := hwanted
      have hadmits := hlinked.1
      rw [hwanted] at hadmits
      obtain rfl := eq_suffixes hg hadmits hsteady.1
      obtain ⟨k, below, rfl⟩ := hlinked.2.2.exists_suffixes hsteady.2 hwanted
      exact ⟨k + 1, below, rfl⟩
    | cons t ts =>
      rw [wanted, hg] at hwanted
      obtain rfl : t = .keyword .as := hwanted
      exact ⟨0, gs, by rw [eq_as hg]; rfl⟩

theorem not_reaches_as {ls ls' : Lexemes} {below : List Goal} (hls : Ended ls) :
    ∀ k : Nat, ¬ Reaches (List.replicate k .suffixes ++ .word .as :: below, ls) ([], ls')
  | 0, h => by
    obtain ⟨o, ls₁, rfl, -⟩ := h.token_inv
    exact hls.1 rfl
  | k + 1, h => by
    rw [List.replicate_succ, List.cons_append] at h
    exact not_reaches_as hls k (h.pass_inv (suffixes_pass hls.2))

/-- **A label where `as` is wanted behind it leads nowhere.** -/
theorem label_hopeless {below : List Goal} {o : Nat} {ls ls' : Lexemes} (hlinked : Linked (.primary :: below) .eof)
    (hwanted : wanted below .eof = .keyword .as) : ¬ Reaches (.primary :: below, ⟨.keyword .label, o⟩ :: ls) ([], ls') := by
  intro h
  obtain ⟨k, below, rfl⟩ := hlinked.2.2.exists_suffixes hlinked.2.1 hwanted
  obtain ⟨ls₁, hlabel, hbelow⟩ := (h.take_inv rfl).split [.variable, .sign (.op .pipe), .pipe]
  obtain ⟨ls₂, -, hpipe⟩ := hlabel.split [.variable, .sign (.op .pipe)]
  exact not_reaches_as (pipe_ended hpipe) k hbelow

/-- On its way a run keeps goals linked, or comes to a label where `as` is wanted behind it. -/
theorem Reaches.linked_or_label {c d : List Goal × Lexemes} (h : Reaches c d) (hc : Linked c.1 .eof) :
    Linked d.1 .eof ∨ ∃ below o ls, Reaches c (.primary :: below, ⟨.keyword .label, o⟩ :: ls) ∧
      Linked (.primary :: below) .eof ∧ wanted below .eof = .keyword .as ∧
      Reaches (.variable :: .sign (.op .pipe) :: .pipe :: below, ls) d := by
  induction h using Relation.ReflTransGen.head_induction_on with
  | refl => exact .inl hc
  | @head c c' hnext hrest ih =>
    obtain ⟨gs, ls⟩ := c
    cases gs with
    | nil => cases hnext
    | cons g below =>
      obtain ⟨gs, ls₁, hstep, rfl⟩ := next_cons_eq_some hnext
      by_cases hlabel : g = .primary → peek ls = .keyword .label → wanted below .eof ≠ .keyword .as
      · obtain hlinked | ⟨below', o, ls', hreach, hrest'⟩ := ih (hc.step hstep hlabel)
        · exact .inl hlinked
        · exact .inr ⟨below', o, ls', .head hnext hreach, hrest'⟩
      · simp only [not_forall, not_not] at hlabel
        obtain ⟨rfl, hpeek, hwanted⟩ := hlabel
        obtain - | ⟨⟨t, o⟩, ls⟩ := ls
        · cases hpeek
        obtain rfl : t = .keyword .label := hpeek
        cases hstep
        exact .inr ⟨below, o, _, .refl, hc, hwanted, hrest⟩

/-! ## Where `as` comes from -/

def Goal.isAs : Goal → Bool
  | .token t _ => t = .keyword .as
  | _ => false

/-- Whether a move makes an `as` necessary. -/
def Move.wantsAs (m : Move) : Bool :=
  m.goals.any Goal.isAs

theorem Move.wantsAs_ite {c : Prop} [Decidable c] {m m' : Move} (h : m.wantsAs = false) (h' : m'.wantsAs = false) :
    (if c then m else m').wantsAs = false := by
  split
  · exact h
  · exact h'

namespace Goal

theorem wantsAs_openTerm {t : Token} (hreduce : t ≠ .keyword .reduce) (hforeach : t ≠ .keyword .foreach) :
    (openTerm t).wantsAs = false := by
  cases t with
  | keyword word =>
    cases word with
    | reduce => exact absurd rfl hreduce
    | «foreach» => exact absurd rfl hforeach
    | _ => rfl
  | op operator => cases operator <;> rfl
  | _ => rfl

theorem wantsAs_goOn (least : Nat) (t : Token) : (goOn least t).wantsAs = false := by
  unfold goOn
  split
  · rfl
  · refine Move.wantsAs_ite rfl ?_
    unfold operands
    split <;> rfl

/-- An `as` has to come next in the reductions only. -/
theorem reduction_of_mem {g : Goal} {t u : Token} (h : .word .as ∈ (g.move t u).goals) :
    g = .primary ∧ (t = .keyword .reduce ∨ t = .keyword .foreach) := by
  by_contra hne
  suffices hwants : (g.move t u).wantsAs = false by
    rw [Move.wantsAs, List.any_eq_true.2 ⟨_, h, rfl⟩] at hwants
    cases hwants
  cases g with
  | primary =>
    simp only [true_and, not_or] at hne
    exact wantsAs_openTerm hne.1 hne.2
  | suffixes =>
    show (openSuffix t u).wantsAs = false
    unfold openSuffix
    split <;> rfl
  | rest least => exact wantsAs_goOn least t
  | entries | patternEntry | «variable» | pattern | dotted | quotation => cases t <;> rfl
  | operand | term | value => rfl
  | bracket => exact Move.wantsAs_ite rfl (Move.wantsAs_ite rfl rfl)
  | more r => cases r <;> exact Move.wantsAs_ite rfl rfl
  | after s => cases s <;> exact Move.wantsAs_ite rfl rfl
  | _ => exact Move.wantsAs_ite rfl rfl

/-- The token that makes an `as` necessary is the word a reduction begins with. -/
theorem reduction_of_step {g : Goal} {gs : List Goal} {ls ls' : Lexemes} (hstep : g.step ls = some (gs, ls'))
    (hmem : .word .as ∈ gs) :
    g = .primary ∧ ∃ w o, (w = .reduce ∨ w = .foreach) ∧ ls = ⟨.keyword w, o⟩ :: ls' ∧
      gs = (openTerm (.keyword w)).goals := by
  have hgoals {t u : Token} {m : Move} (hmove : g.move t u = m) (hm : m.goals = gs) :
      g = .primary ∧ ∃ w, (w = .reduce ∨ w = .foreach) ∧ t = .keyword w ∧ openTerm t = m := by
    obtain ⟨rfl, hw | hw⟩ := reduction_of_mem (g := g) (t := t) (u := u) (by rwa [hmove, hm])
    · exact ⟨rfl, .reduce, .inl rfl, hw, hmove⟩
    · exact ⟨rfl, .foreach, .inr rfl, hw, hmove⟩
  obtain ⟨hmove, -⟩ | ⟨⟨t, o⟩, rfl, hmove⟩ | ⟨l, l', rfl, hmove⟩ | ⟨l, ls₁, rfl, hmove, rfl, -⟩ := step_cases hstep
  · obtain ⟨-, w, rfl | rfl, htoken, hopen⟩ := hgoals hmove rfl <;> rw [htoken] at hopen <;> cases hopen
  · obtain ⟨rfl, w, hw, htoken, hopen⟩ := hgoals hmove rfl
    subst htoken
    exact ⟨rfl, w, o, hw, rfl, (congrArg Move.goals hopen).symm⟩
  · obtain ⟨-, w, rfl | rfl, htoken, hopen⟩ := hgoals hmove rfl <;> rw [htoken] at hopen <;> cases hopen
  · obtain ⟨rfl, -⟩ := eq_suffixes_of_part hmove
    cases List.mem_singleton.1 hmem

end Goal

/-- The goals of a reduction, with the wanted `as` above others. -/
theorem eq_term_of_reduction {w : Keyword} (hw : w = .reduce ∨ w = .foreach) {above below : List Goal}
    (h : above ++ .word .as :: below = (openTerm (.keyword w)).goals) : above = [.term] := by
  obtain - | ⟨g, - | ⟨g', above⟩⟩ := above
  · obtain rfl | rfl := hw <;> cases List.head_eq_of_cons_eq h
  · obtain rfl | rfl := hw <;> rw [List.head_eq_of_cons_eq h]
  · exfalso
    have hmem : Goal.word .as ∈ ((openTerm (.keyword w)).goals).tail.tail := by
      rw [← h]
      simp
    obtain rfl | rfl := hw <;> revert hmem <;> decide

/-- **An `as` that has to come next comes from a reduction**, and what stands above it is read for its source. -/
theorem exists_reduction {gs above below : List Goal} {ls ls' : Lexemes} (hgs : Goal.word .as ∉ gs)
    (h : Reaches (gs, ls) (above ++ .word .as :: below, ls')) :
    ∃ w o below' ls₁, (w = .reduce ∨ w = .foreach) ∧ Reaches (gs, ls) (.primary :: below', ⟨.keyword w, o⟩ :: ls₁) ∧
      Reaches ([.term], ls₁) (above, ls') := by
  generalize hc : (above ++ .word .as :: below, ls') = c at h
  induction h generalizing above ls' with
  | refl =>
    obtain ⟨rfl, -⟩ := Prod.mk.inj hc
    simp at hgs
  | @tail c d hreach hnext ih =>
    subst hc
    obtain ⟨_ | ⟨g, rest⟩, ls₁⟩ := c
    · cases hnext
    obtain ⟨gs₁, ls₂, hstep, hd⟩ := next_cons_eq_some hnext
    obtain ⟨hgoals, rfl⟩ := Prod.mk.inj hd
    have earlier (above' : List Goal) (habove : above = gs₁ ++ above') (hrest : rest = above' ++ .word .as :: below) :
        ∃ w o below' ls₁, (w = .reduce ∨ w = .foreach) ∧
          Reaches (gs, ls) (.primary :: below', ⟨.keyword w, o⟩ :: ls₁) ∧ Reaches ([.term], ls₁) (above, ls') := by
      subst habove hrest
      obtain ⟨w, o, below', ls₃, hw, hreduction, hterm⟩ := @ih (g :: above') ls₁ rfl
      exact ⟨w, o, below', ls₃, hw, hreduction, hterm.trans (.step hstep .refl)⟩
    obtain ⟨above', hgs₁, hcut⟩ | ⟨above', habove, hcut⟩ := List.append_eq_append_iff.1 hgoals
    · obtain - | ⟨g', above'⟩ := above'
      · exact earlier [] (by rw [hgs₁, List.append_nil, List.append_nil]) hcut.symm
      obtain ⟨rfl, -⟩ := List.cons.inj hcut
      obtain ⟨rfl, w, o, hw, rfl, hopen⟩ := reduction_of_step hstep (by rw [hgs₁]; simp)
      obtain rfl := eq_term_of_reduction hw (hgs₁.symm.trans hopen)
      exact ⟨w, o, rest, ls', hw, hreach, .refl⟩
    · exact earlier above' habove hcut

end Grammar
end DefTable
