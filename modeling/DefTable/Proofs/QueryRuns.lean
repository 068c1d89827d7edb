import DefTable.Proofs.HopelessLabels
import DefTable.Proofs.GoalRuns
import DefTable.Proofs.Respacing
import DefTable.Proofs.Coverage

/-!
# Runs over whole sources

A source is a query just when a run from the goal of a query ends at the end of the source (`parse_ok`,
`exists_query`); where it is none, the run stands at the token of the fault (`parse_error`). The end of the source is
never taken, so there is a token in front of every goal (`Reaches.ends`).
-/

namespace DefTable
namespace Grammar

open Goal

/-- Lexemes of a source: the end of the source comes last, and only once. -/
def EndsOnce (ls : Lexemes) : Prop :=
  ∃ front o, ls = front ++ [⟨.eof, o⟩] ∧ ∀ l ∈ front, l.token ≠ .eof

theorem endsOnce_of_scan {source : String} {base : Nat} {ls : Lexemes} (h : Token.scan source base = .ok ls) :
    EndsOnce ls := by
  obtain ⟨front, rfl, hfront⟩ := Token.end_of_scan h
  exact ⟨front, _, rfl, hfront⟩

theorem EndsOnce.right {front : Lexemes} {l : Lexeme} {rest : Lexemes} (h : EndsOnce (front ++ l :: rest)) :
    EndsOnce (l :: rest) ∧ ∀ l' ∈ front, l'.token ≠ .eof := by
  obtain ⟨ls, o, heq, hls⟩ := h
  obtain ⟨a', rfl, hcut⟩ | ⟨a', rfl, hcut⟩ := List.append_eq_append_iff.1 heq
  · exact ⟨⟨a', o, hcut, fun l hl => hls l (List.mem_append_right _ hl)⟩, fun l hl => hls l (List.mem_append_left _ hl)⟩
  · obtain - | ⟨l', a'⟩ := a'
    · rw [List.append_nil]
      exact ⟨⟨[], o, hcut.symm, nofun⟩, hls⟩
    · have := congrArg List.length hcut
      simp at this

/-- Behind the end of a source there is nothing. -/
theorem EndsOnce.eq_end {o : Nat} {ls : Lexemes} (h : EndsOnce (⟨.eof, o⟩ :: ls)) : ls = [] := by
  obtain ⟨_ | ⟨l, front⟩, o', heq, hfront⟩ := h
  · exact (List.cons.inj heq).2
  · obtain ⟨rfl, -⟩ := List.cons.inj heq
    exact absurd rfl (hfront _ List.mem_cons_self)

/-! ## The end of a source -/

theorem Goal.step_end {g : Goal} {gs : List Goal} {ls ls' : Lexemes} (h : g.step ls = some (gs, ls'))
    (hend : ∃ l ∈ ls, l.token = .eof) : ∃ l ∈ ls', l.token = .eof := by
  obtain ⟨l, hl, heof⟩ := hend
  have not_taken {u : Token} (htakes : (g.move .eof u).takes = true) : False := by
    rw [takes_eof] at htakes
    cases htakes
  obtain ⟨-, rfl⟩ | ⟨l₁, rfl, hmove⟩ | ⟨l₁, l₂, rfl, hmove⟩ | ⟨l₁, ls₁, rfl, hmove, -, rfl⟩ := step_cases h
  · exact ⟨l, hl, heof⟩
  · obtain rfl | hl := List.mem_cons.1 hl
    · rw [heof] at hmove
      exact (not_taken (by rw [hmove]; rfl)).elim
    · exact ⟨l, hl, heof⟩
  · obtain ⟨hdot, haccess⟩ := eq_dot_of_takeTwo hmove
    obtain rfl | hl := List.mem_cons.1 hl
    · rw [heof] at hdot
      cases hdot
    obtain rfl | hl := List.mem_cons.1 hl
    · rw [heof] at haccess
      obtain ⟨_, hstr⟩ | hbracket := haccess
      · cases hstr
      · cases hbracket
    · exact ⟨l, hl, heof⟩
  · obtain ⟨-, hsign⟩ := eq_suffixes_of_part hmove
    obtain rfl | hl := List.mem_cons.1 hl
    · rw [heof] at hsign
      cases hsign
    · exact ⟨l, List.mem_cons_of_mem _ hl, heof⟩

/-- **The end of a source is never taken.** -/
theorem Reaches.ends {gs gs' : List Goal} {ls ls' : Lexemes} (h : Reaches (gs, ls) (gs', ls'))
    (hend : ∃ l ∈ ls, l.token = .eof) : ∃ l ∈ ls', l.token = .eof := by
  generalize hc : (gs, ls) = c at h
  induction h using Relation.ReflTransGen.head_induction_on generalizing gs ls with
  | refl =>
    cases hc
    exact hend
  | head hnext hrest ih =>
    subst hc
    cases gs with
    | nil => cases hnext
    | cons g gs =>
      obtain ⟨gs₁, ls₁, hstep, rfl⟩ := next_cons_eq_some hnext
      exact ih (Goal.step_end hstep hend) rfl

/-- What is left of a source when its end comes next. -/
theorem Reaches.eq_end {gs gs' : List Goal} {ls ls' : Lexemes} (h : Reaches (gs, ls) (gs', ls')) (hls : EndsOnce ls)
    (hend : peek ls' = .eof) : ∃ o, ls' = [⟨.eof, o⟩] := by
  obtain ⟨l, hl, -⟩ : ∃ l ∈ ls', l.token = .eof := by
    obtain ⟨front, o, rfl, -⟩ := hls
    exact h.ends ⟨_, List.mem_append_right _ List.mem_cons_self, rfl⟩
  obtain ⟨front, rest, rfl, hplace⟩ := h.leaves
  obtain rfl := hplace.eq (by rw [hend]; nofun)
  obtain - | ⟨⟨t, o⟩, ls'⟩ := ls'
  · cases hl
  obtain rfl : t = .eof := hend
  rw [hls.right.1.eq_end]
  exact ⟨o, rfl⟩

/-! ## Enough steps -/

theorem alike_self {front : Lexemes} {o : Nat} (h : ∀ l ∈ front, l.token ≠ .eof) :
    (Change.shifted 0).Alike (front ++ [⟨.eof, o⟩]) (front ++ [⟨.eof, o⟩]) := by
  induction front with
  | nil => exact .finish rfl
  | cons l front ih =>
    obtain ⟨t, o'⟩ := l
    obtain ⟨hne, hfront⟩ := List.forall_mem_cons.1 h
    cases t with
    | eof => exact absurd rfl hne
    | str parts =>
      have hparts := Change.parts_shift (k := 0) parts
      rw [List.map_id'' StringPart.shift_zero] at hparts
      exact .string hparts rfl (ih hfront)
    | _ => exact .plain rfl rfl (ih hfront)

/-- A term is read with enough steps. -/
theorem term_suffices {ls : Lexemes} (h : EndsOnce ls) {n : Nat} (hn : 16 * weight ls + 2 ≤ n) :
    term n ls ≠ .error .exhausted := by
  obtain ⟨front, o, rfl, hfront⟩ := h
  have hlockstep := Change.lockstep_of_le (Change.shifted_scans (k := 0)) (Nat.le_refl n) (Nat.le_refl n)
  exact (Change.agree_iff.1 (hlockstep.term (i := ()) (alike_self hfront) hn)).ne_exhausted

/-! ## Results of runs -/

theorem Reaches.not_stuck {gs below : List Goal} {g : Goal} {ls ls₁ ls' : Lexemes} (h : Reaches (gs, ls) ([], ls'))
    (h₁ : Reaches (gs, ls) (g :: below, ls₁)) : g.step ls₁ ≠ none := by
  intro hstep
  obtain ⟨gs, ls₂, hnext, -⟩ := (h.goOn h₁).head_inv
  rw [hstep] at hnext
  cases hnext

/-- A production whose goals are read yields a tree. -/
theorem Follows.exists_ok {α : Type} {gs : List Goal} {ls ls' : Lexemes} {r : Parsed (α × Lexemes)}
    (h : Follows gs ls r) (hr : r ≠ .error .exhausted) (hls : Uninterpolated ls) (hreach : Reaches (gs, ls) ([], ls')) :
    ∃ a, r = .ok (a, ls') := by
  match r, h with
  | .ok (a, ls₁), h =>
    rw [hreach.unique h]
    exact ⟨a, rfl⟩
  | .error (.fault e), h =>
    obtain ⟨g, below, ls₁, hstuck, hstep, -⟩ := h hls
    exact absurd hstep (hreach.not_stuck hstuck)
  | .error .exhausted, _ => exact absurd rfl hr

variable {source : String} {ls ls' : Lexemes}

/-- What becomes of the query that a source starts with. -/
theorem parse_cases (hscan : Token.scan source 0 = .ok ls) :
    ∃ n, pipe n ls ≠ .error .exhausted ∧
      ((∃ q ls', pipe n ls = .ok (q, ls') ∧ peek ls' = .eof ∧ Query.parse source = .ok q) ∨
        (∃ q ls' d, pipe n ls = .ok (q, ls') ∧ peek ls' ≠ .eof ∧ Query.parse source = .error d ∧ d.offset = offset ls') ∨
        ∃ e d, pipe n ls = .error (.fault e) ∧ Query.parse source = .error d ∧ d.offset = e.offset) := by
  obtain ⟨n, hn⟩ : ∃ n, enoughSteps source = n + 1 := ⟨16 * (source.length + 2) - 1, by unfold enoughSteps; omega⟩
  have hparse := Query.parse_eq source (Nat.le_of_eq hn)
  have henough := (enoughSteps_suffice source).1
  rw [hn] at henough
  rw [whole, hscan] at hparse henough
  simp only [scanned, bind, Except.bind] at hparse henough
  refine ⟨n, ?_⟩
  cases hpipe : pipe n ls with
  | error halt =>
    cases halt with
    | exhausted => simp [hpipe] at henough
    | fault e =>
      rw [hpipe] at hparse
      exact ⟨by simp, .inr (.inr ⟨e, _, rfl, hparse, rfl⟩)⟩
  | ok r =>
    obtain ⟨q, ls'⟩ := r
    rw [hpipe] at hparse
    refine ⟨by simp, ?_⟩
    by_cases hend : peek ls' = .eof
    · have hdone : expectEnd ls' = .ok () := if_pos hend
      simp only [hdone] at hparse
      exact .inl ⟨q, ls', rfl, hend, hparse⟩
    · have hmore : expectEnd ls' = .error (unexpected ls' .endOfQuery) := if_neg hend
      simp only [hmore] at hparse
      exact .inr (.inl ⟨q, ls', _, rfl, hend, hparse, rfl⟩)

/-- Where a query is accepted, its goal is read up to the end. -/
theorem parse_ok {q : Query} (hscan : Token.scan source 0 = .ok ls) (h : Query.parse source = .ok q) :
    ∃ o, Reaches ([.pipe], ls) ([], [⟨.eof, o⟩]) := by
  obtain ⟨n, -, ⟨q, ls', hpipe, hend, -⟩ | ⟨q, ls', d, -, -, herror, -⟩ | ⟨e, d, -, herror, -⟩⟩ := parse_cases hscan
  · have hfollows : Follows [.pipe] ls (pipe n ls) := (simulates n).pipe
    rw [hpipe] at hfollows
    obtain ⟨o, rfl⟩ := Reaches.eq_end hfollows (endsOnce_of_scan hscan) hend
    exact ⟨o, hfollows⟩
  · rw [h] at herror
    cases herror
  · rw [h] at herror
    cases herror

/-- A source whose goal is read up to the end is a query. -/
theorem exists_query (hscan : Token.scan source 0 = .ok ls) (hplain : Uninterpolated ls)
    {o : Nat} (h : Reaches ([.pipe], ls) ([], [⟨.eof, o⟩])) : ∃ q, Query.parse source = .ok q := by
  obtain ⟨n, hn, hcases⟩ := parse_cases hscan
  have hfollows : Follows [.pipe] ls (pipe n ls) := (simulates n).pipe
  obtain ⟨q, hq⟩ := hfollows.exists_ok hn hplain h
  obtain ⟨q, ls', -, -, hok⟩ | ⟨q', ls₁, d, hpipe, hne, -⟩ | ⟨e, d, hpipe, -⟩ := hcases
  · exact ⟨q, hok⟩
  · obtain ⟨rfl, rfl⟩ := Prod.mk.inj (Except.ok.inj (hq.symm.trans hpipe))
    exact absurd rfl hne
  · rw [hq] at hpipe
    cases hpipe

/-- **Where a source is refused, a run stands in front of the token of the fault.** -/
theorem parse_error {d : Diagnostic} (hscan : Token.scan source 0 = .ok ls) (hplain : Uninterpolated ls)
    (h : Query.parse source = .error d) : ∃ gs ls', Reaches ([.pipe], ls) (gs, ls') ∧ d.offset = offset ls' := by
  obtain ⟨n, -, hcases⟩ := parse_cases hscan
  have hfollows : Follows [.pipe] ls (pipe n ls) := (simulates n).pipe
  rw [h] at hcases
  obtain ⟨q, ls', -, -, hok⟩ | ⟨q, ls', d, hpipe, -, herror, ho⟩ | ⟨e, d, hpipe, herror, ho⟩ := hcases
  · cases hok
  · obtain rfl := Except.error.inj herror
    rw [hpipe] at hfollows
    exact ⟨[], ls', hfollows, ho⟩
  · obtain rfl := Except.error.inj herror
    rw [hpipe] at hfollows
    obtain ⟨g, below, ls', hreach, -, hoffset⟩ := hfollows hplain
    exact ⟨g :: below, ls', hreach, ho.trans hoffset⟩

end Grammar
end DefTable
