import DefTable.Grammar
import Mathlib.Data.List.TakeWhile

/-!
# Looking ahead

Cutting a source looks only a little ahead. `Ahead rest rest'` says that `rest'` looks the same as `rest` to what ends
in front of it; then a name, a number or an operator that is cut off in front of `rest` is cut off in front of `rest'`
as well (`Token.splitName_ahead`, `Token.splitNumber_ahead`, `Token.splitOperator?_ahead`). Nothing looks past a blank.
-/

namespace DefTable

open Text

namespace Token

/-! ## What comes behind a token -/

/-- A text that ends, or goes on with a blank or a comment. -/
def Stops (rest : List Char) : Prop :=
  ∀ c ∈ rest.head?, isBlank c = true ∨ c = '#'

theorem stops_nil : Stops [] := nofun

theorem stops_blank (rest : List Char) : Stops (' ' :: rest) := by
  rintro c ⟨⟩
  exact .inl rfl

theorem eq_of_isBlank {c : Char} (h : isBlank c = true) : c = ' ' ∨ c = '\t' ∨ c = '\n' ∨ c = '\r' := by
  simpa [isBlank, or_assoc] using h

theorem Stops.cases {rest : List Char} (h : Stops rest) :
    rest = [] ∨ ∃ c cs, rest = c :: cs ∧ (c = '#' ∨ c = ' ' ∨ c = '\t' ∨ c = '\n' ∨ c = '\r') := by
  cases rest with
  | nil => exact .inl rfl
  | cons c cs => exact .inr ⟨c, cs, rfl, (h c rfl).elim (fun hc => .inr (eq_of_isBlank hc)) .inl⟩

/-- A text that looks the same as another to a token in front of it. They may differ where the second one stops, behind
a quote, a digit and two dots; and a dot is only looked at together with the character behind it. -/
inductive Ahead : List Char → List Char → Prop where
  | stops {rest rest' : List Char} (h : Stops rest') : Ahead rest rest'
  | quote {rest rest' : List Char} : Ahead ('"' :: rest) ('"' :: rest')
  | digit {d : Char} {rest rest' : List Char} (hd : d.isDigit = true) : Ahead (d :: rest) (d :: rest')
  | dots {rest rest' : List Char} : Ahead ('.' :: '.' :: rest) ('.' :: '.' :: rest')
  | char {c : Char} {rest rest' : List Char} (hc : c = '.' → rest.head? ≠ some '.') (h : Ahead rest rest') :
      Ahead (c :: rest) (c :: rest')

namespace Ahead

variable {rest rest' : List Char}

theorem head (h : Ahead rest rest') : Stops rest' ∨ rest'.head? = rest.head? := by
  cases h with
  | stops h => exact .inl h
  | _ => exact .inr rfl

/-- What is not so of the first character is not so of the other either, if it is of no blank or comment. -/
theorem head_false (h : Ahead rest rest') {p : Char → Bool} (hp : ∀ {rest}, Stops rest → ∀ c ∈ rest.head?, p c = false)
    (hrest : ∀ c ∈ rest.head?, p c = false) : ∀ c ∈ rest'.head?, p c = false := by
  rcases h.head with h | h
  · exact hp h
  · rwa [h]

theorem prepend {as : List Char} (ha : ∀ c ∈ as, c ≠ '.') (h : Ahead rest rest') :
    Ahead (as ++ rest) (as ++ rest') := by
  induction as with
  | nil => exact h
  | cons c as ih =>
    exact .char (fun hc => absurd hc (ha c List.mem_cons_self)) (ih fun d hd => ha d (List.mem_cons_of_mem _ hd))

/-- A character that is no blank, no comment, no quote, no digit and no dot was there before. -/
theorem char_inv {c : Char} {cs rest : List Char} (h : Ahead rest (c :: cs)) (hstops : (isBlank c || c == '#') = false)
    (hothers : (c == '"' || c.isDigit || c == '.') = false) : ∃ ds, rest = c :: ds ∧ Ahead ds cs := by
  cases h with
  | stops h => rcases h c rfl with h | rfl <;> simp_all
  | quote => cases hothers
  | digit hd => simp_all
  | dots => cases hothers
  | char _ h => exact ⟨_, rfl, h⟩

/-- A text looks the same with something behind it that stops. -/
theorem append {tail : List Char} (ht : Stops tail) : ∀ rest : List Char, Ahead rest (rest ++ tail)
  | [] => .stops ht
  | [c] => .char (fun _ => by simp) (.stops ht)
  | c :: d :: rest => by
    by_cases hdots : c = '.' ∧ d = '.'
    · obtain ⟨rfl, rfl⟩ := hdots
      exact .dots
    · exact .char (fun hc hd => hdots ⟨hc, by simpa using hd⟩) (append ht (d :: rest))

end Ahead

/-! ## Names -/

theorem splitName_of_stops {rest : List Char} (h : Stops rest) : splitName rest = ([], rest) := by
  rcases h.cases with rfl | ⟨c, cs, rfl, rfl | rfl | rfl | rfl | rfl⟩ <;> rfl

theorem splitName_cons {c : Char} (h : isIdentContinue c = true) (cs : List Char) :
    splitName (c :: cs) = (c :: (splitName cs).1, (splitName cs).2) := by
  have hcolon : c ≠ ':' := by
    rintro rfl
    cases h
  rw [splitName.eq_3 _ _ (fun _ _ hc _ => hcolon hc), if_pos h]

theorem splitName_cons_none {c : Char} (hc : c ≠ ':') (h : isIdentContinue c = false) (cs : List Char) :
    splitName (c :: cs) = ([], c :: cs) := by
  rw [splitName.eq_3 _ _ (fun _ _ hcolon _ => hc hcolon), h, if_neg Bool.false_ne_true]

theorem splitName_colon {cs : List Char} (h : ∀ c ds, cs = ':' :: c :: ds → isIdentStart c = false) :
    splitName (':' :: cs) = ([], ':' :: cs) := by
  unfold splitName
  split
  · next heq => cases heq
  · next c ds heq =>
    cases heq
    rw [h c ds rfl, if_neg Bool.false_ne_true]
  · next heq =>
    cases heq
    rfl

/-- A name is made of what continues names, and of colons. -/
theorem mem_splitName {cs : List Char} {d : Char} (h : d ∈ (splitName cs).1) : isIdentContinue d = true ∨ d = ':' := by
  revert h
  fun_induction splitName cs with
  | case1 => simp
  | case2 c cs hc name rest hsplit ih =>
    rw [hsplit] at ih
    have hstart := isIdentContinue_of_isIdentStart hc
    simp only [List.mem_cons]
    rintro (rfl | rfl | rfl | h)
    · exact .inr rfl
    · exact .inr rfl
    · exact .inl hstart
    · exact ih h
  | case3 => simp
  | case4 c cs _ hc name rest hsplit ih =>
    rw [hsplit] at ih
    simp only [List.mem_cons]
    rintro (rfl | h)
    · exact .inl hc
    · exact ih h
  | case5 => simp

/-- What a name ends in front of looks so to all names. -/
theorem Ahead.splitName {rest rest' : List Char} (h : Ahead rest rest') (hrest : splitName rest = ([], rest)) :
    Token.splitName rest' = ([], rest') := by
  cases h with
  | stops h => exact splitName_of_stops h
  | quote => rfl
  | dots => rfl
  | @digit d rest rest' hd =>
    have hname : isIdentContinue d = true := by simp [isIdentContinue, Char.isAlphanum, hd]
    rw [splitName_cons hname] at hrest
    cases hrest
  | @char c rest rest' hc h =>
    cases hname : isIdentContinue c with
    | true =>
      rw [splitName_cons hname] at hrest
      cases hrest
    | false =>
      by_cases hcolon : c = ':'
      · subst hcolon
        refine splitName_colon fun c ds heq => ?_
        subst heq
        -- two colons, and a third character that was there before
        obtain ⟨cs, rfl, hcs⟩ := h.char_inv rfl rfl
        rcases hcs.head with hstops | hhead
        · rcases hstops.cases with hnil | ⟨d, _, heq, hd⟩
          · cases hnil
          · cases heq
            rcases hd with rfl | rfl | rfl | rfl | rfl <;> rfl
        · obtain ⟨cs, rfl⟩ := List.head?_eq_some_iff.1 hhead.symm
          cases hstart : isIdentStart c with
          | false => rfl
          | true =>
            rw [Token.splitName, if_pos hstart] at hrest
            cases hrest
      · exact splitName_cons_none hcolon hname _

/-- Cutting behind a name takes the same name in front of all that does not go on with it. -/
theorem splitName_append_of_none {cs name rest rest' : List Char} (h : splitName cs = (name, rest))
    (hr : splitName rest' = ([], rest')) : splitName (name ++ rest') = (name, rest') := by
  fun_induction splitName cs generalizing name rest with
  | case1 =>
    cases h
    exact hr
  | case2 c cs hc name' rest'' hsplit ih =>
    cases h
    simp only [List.cons_append, splitName, if_pos hc, ih hsplit]
  | case3 =>
    cases h
    exact hr
  | case4 c cs _ hc name' rest'' hsplit ih =>
    cases h
    rw [List.cons_append, splitName_cons hc, ih hsplit]
  | case5 =>
    cases h
    exact hr

/-- A name leaves what does not go on with it. -/
theorem splitName_rest {cs name rest : List Char} (h : splitName cs = (name, rest)) : splitName rest = ([], rest) := by
  fun_induction splitName cs generalizing name rest with
  | case1 => cases h; rfl
  | case2 c cs hc name' rest'' hsplit ih =>
    cases h
    exact ih hsplit
  | case3 c cs hc =>
    cases h
    rw [splitName, if_neg hc]
  | case4 c cs _ hc name' rest'' hsplit ih =>
    cases h
    exact ih hsplit
  | case5 c cs hcolon hc =>
    cases h
    rw [splitName.eq_3 _ _ hcolon, if_neg hc]

theorem splitName_ahead {cs name rest rest' : List Char} (h : splitName cs = (name, rest)) (hr : Ahead rest rest') :
    splitName (name ++ rest') = (name, rest') :=
  splitName_append_of_none h (hr.splitName (splitName_rest h))

/-! ## Numbers -/

theorem Stops.not_isDigit {rest : List Char} (h : Stops rest) : ∀ c ∈ rest.head?, c.isDigit = false := by
  intro c hc
  rcases h.cases with rfl | ⟨d, cs, rfl, hd⟩
  · cases hc
  · cases hc
    rcases hd with rfl | rfl | rfl | rfl | rfl <;> rfl

theorem splitDigits_eq {ds rest : List Char} (hd : ∀ d ∈ ds, d.isDigit = true)
    (hr : ∀ c ∈ rest.head?, c.isDigit = false) : splitDigits (ds ++ rest) = (ds, rest) := by
  unfold splitDigits
  rw [List.takeWhile_append_of_pos hd, List.dropWhile_append_of_pos hd]
  cases rest with
  | nil => simp
  | cons c cs =>
    have hc : c.isDigit = false := hr c rfl
    simp [hc]

theorem isDigit_of_splitDigits {cs : List Char} : ∀ d ∈ (splitDigits cs).1, d.isDigit = true :=
  fun _ hd => List.mem_takeWhile_imp hd

theorem not_isDigit_splitDigits (cs : List Char) : ∀ c ∈ (splitDigits cs).2.head?, c.isDigit = false := by
  intro c hc
  have hhead := List.head?_dropWhile_not Char.isDigit cs
  rw [show (cs.dropWhile Char.isDigit).head? = some c from hc] at hhead
  simpa using hhead

theorem splitDigits_cons {c : Char} (h : c.isDigit = true) (cs : List Char) :
    (splitDigits (c :: cs)).1 = c :: (splitDigits cs).1 := by
  simp [splitDigits, h]

/-- What is left behind digits is what is left behind the same digits in front of anything that looks the same. -/
theorem splitDigits_ahead {cs rest' : List Char} (h : Ahead (splitDigits cs).2 rest') :
    splitDigits ((splitDigits cs).1 ++ rest') = ((splitDigits cs).1, rest') :=
  splitDigits_eq isDigit_of_splitDigits (h.head_false Stops.not_isDigit (not_isDigit_splitDigits cs))

theorem splitSign_append_digit (cs : List Char) {d : Char} (hd : d.isDigit = true) (rest : List Char) :
    splitSign ((splitSign cs).1 ++ d :: rest) = ((splitSign cs).1, d :: rest) := by
  have hsign : (splitSign cs).1 = ['+'] ∨ (splitSign cs).1 = ['-'] ∨ (splitSign cs).1 = [] := by
    unfold splitSign
    split <;> simp
  rcases hsign with h | h | h
  · rw [h]
    rfl
  · rw [h]
    rfl
  · rw [h, List.nil_append]
    unfold splitSign
    split
    · next heq => cases heq; cases hd
    · next heq => cases heq; cases hd
    · rfl

theorem splitExponent_of_stops {rest : List Char} (h : Stops rest) : splitExponent rest = ([], rest) := by
  rcases h.cases with rfl | ⟨c, cs, rfl, rfl | rfl | rfl | rfl | rfl⟩ <;> rfl

/-- Whether digits come next, perhaps behind a sign. -/
def digitsAhead (cs : List Char) : Bool :=
  (splitSign cs).2.head?.any Char.isDigit

theorem Ahead.digitsAhead {rest rest' : List Char} (h : Ahead rest rest') (hrest : digitsAhead rest = false) :
    Token.digitsAhead rest' = false := by
  have hsigned : ∀ {rest rest' : List Char}, Ahead rest rest' → rest.head?.any Char.isDigit = false →
      rest'.head?.any Char.isDigit = false := fun {rest rest'} h hrest => by
    have hhead := h.head_false Stops.not_isDigit (by simpa [Option.any_eq_false] using hrest)
    simpa [Option.any_eq_false] using hhead
  cases h with
  | stops h => rcases h.cases with rfl | ⟨c, cs, rfl, rfl | rfl | rfl | rfl | rfl⟩ <;> rfl
  | quote => rfl
  | dots => rfl
  | @digit d rest rest' hd =>
    have hplus : d ≠ '+' := by rintro rfl; cases hd
    have hminus : d ≠ '-' := by rintro rfl; cases hd
    simp [Token.digitsAhead, splitSign, hplus, hminus, hd] at hrest
  | @char c rest rest' hc h =>
    by_cases hplus : c = '+'
    · subst hplus
      exact hsigned h hrest
    · by_cases hminus : c = '-'
      · subst hminus
        exact hsigned h hrest
      · simpa [Token.digitsAhead, splitSign, hplus, hminus] using hrest

/-- An exponent is made of its letter, a sign and digits. -/
theorem mem_splitExponent {cs : List Char} {c : Char} (h : c ∈ (splitExponent cs).1) :
    c = 'e' ∨ c = 'E' ∨ c = '+' ∨ c = '-' ∨ c.isDigit = true := by
  revert h
  fun_cases splitExponent cs with
  | case1 => simp
  | case2 d cs hd =>
    intro h
    rw [Bool.and_eq_true] at hd
    have hletter : d = 'e' ∨ d = 'E' := by simpa using hd.1
    have hsign : c ∈ (splitSign cs).1 → c = '+' ∨ c = '-' := by
      unfold splitSign
      split <;> simp +contextual
    simp only [List.mem_cons, List.mem_append] at h
    rcases h with rfl | h | h
    · rcases hletter with rfl | rfl <;> simp
    · rcases hsign h with rfl | rfl <;> simp
    · simp [isDigit_of_splitDigits c h]
  | case3 => simp

theorem splitExponent_ahead {cs rest' : List Char} (h : Ahead (splitExponent cs).2 rest') :
    splitExponent ((splitExponent cs).1 ++ rest') = ((splitExponent cs).1, rest') := by
  cases cs with
  | nil =>
    cases h with
    | stops h => exact splitExponent_of_stops h
  | cons c cs =>
    by_cases hc : ((c = 'e' || c = 'E') && (splitSign cs).2.head?.any Char.isDigit) = true
    · obtain ⟨he, d, hhead, hd⟩ :
          (c = 'e' || c = 'E') = true ∧ ∃ d, (splitSign cs).2.head? = some d ∧ d.isDigit = true := by
        simpa [Option.any_eq_true] using hc
      obtain ⟨ds, hds⟩ := List.head?_eq_some_iff.1 hhead
      have hdigits : (splitDigits (splitSign cs).2).1 = d :: (splitDigits ds).1 := by rw [hds, splitDigits_cons hd]
      have hcut : splitExponent (c :: cs) =
          (c :: ((splitSign cs).1 ++ (splitDigits (splitSign cs).2).1), (splitDigits (splitSign cs).2).2) := by
        rw [splitExponent, if_pos hc]
      rw [hcut] at h ⊢
      have hback := splitDigits_ahead h
      have hsign := splitSign_append_digit cs hd ((splitDigits ds).1 ++ rest')
      rw [hdigits, List.cons_append] at hback
      rw [hdigits, List.cons_append, List.append_assoc, List.cons_append, splitExponent, hsign]
      simp only [List.head?_cons, Option.any_some, hd, Bool.and_true, he, if_true, hback]
    · have hcut : splitExponent (c :: cs) = ([], c :: cs) := by rw [splitExponent, if_neg hc]
      rw [hcut] at h ⊢
      rw [List.nil_append]
      cases h with
      | stops h => exact splitExponent_of_stops h
      | quote => rfl
      | dots => rfl
      | digit hd =>
        have he : c ≠ 'e' := by rintro rfl; cases hd
        have hE : c ≠ 'E' := by rintro rfl; cases hd
        simp [splitExponent, he, hE]
      | @char c rest rest' _ h =>
        rw [splitExponent, if_neg]
        intro hc'
        rw [Bool.and_eq_true] at hc hc'
        refine hc ⟨hc'.1, ?_⟩
        rw [← Bool.not_eq_false]
        intro hnone
        rw [show (splitSign rest').2.head?.any Char.isDigit = false from h.digitsAhead hnone] at hc'
        cases hc'.2

theorem splitFraction_none {cs : List Char} (h : cs.head? ≠ some '.') : splitFraction cs = ([], cs) := by
  unfold splitFraction
  split
  · exact absurd rfl h
  · rfl

theorem splitFraction_ahead {cs rest' : List Char} (h : Ahead (splitFraction cs).2 rest') :
    splitFraction ((splitFraction cs).1 ++ rest') = ((splitFraction cs).1, rest') := by
  have hstops : ∀ {rest}, Stops rest → ∀ c ∈ rest.head?, (c == '.') = false := by
    intro rest hrest c hc
    rcases hrest.cases with rfl | ⟨d, cs, rfl, hd⟩
    · cases hc
    · cases hc
      rcases hd with rfl | rfl | rfl | rfl | rfl <;> rfl
  have hhead : ∀ {rest rest' : List Char}, Ahead rest rest' → rest.head? ≠ some '.' → rest'.head? ≠ some '.' := by
    intro rest rest' h hrest hdot
    have hfalse := h.head_false hstops (fun c hc => by
      rw [beq_eq_false_iff_ne]
      rintro rfl
      exact hrest hc) '.' hdot
    cases hfalse
  revert h
  fun_cases splitFraction cs with
  | case1 cs hdot =>
    intro h
    obtain ⟨ds, rfl⟩ := List.head?_eq_some_iff.1 hdot
    cases h with
    | stops h => exact splitFraction_none fun hhead => by simpa using hstops h '.' hhead
    | digit hd => cases hd
    | dots => rfl
    | char hc => exact absurd rfl (hc rfl)
  | case2 cs hdot =>
    intro h
    have hback := splitDigits_ahead h
    dsimp only at h ⊢
    rw [List.cons_append, splitFraction, if_neg, hback]
    intro hhead'
    cases hdigits : (splitDigits cs).1 with
    | nil =>
      have hcs := splitDigits_append cs
      rw [hdigits, List.nil_append] at hcs hhead'
      rw [hcs] at h
      exact hhead h hdot hhead'
    | cons d ds =>
      have hd : d.isDigit = true := isDigit_of_splitDigits d (by rw [hdigits]; exact List.mem_cons_self)
      rw [hdigits] at hhead'
      cases hhead'
      cases hd
  | case3 cs hcs =>
    intro h
    refine splitFraction_none (hhead h fun hdot => ?_)
    obtain ⟨ds, rfl⟩ := List.head?_eq_some_iff.1 hdot
    exact hcs ds rfl

/-- What looks the same behind a fraction does so before it. -/
theorem ahead_splitFraction {cs rest' : List Char} (h : Ahead (splitFraction cs).2 rest') :
    Ahead cs ((splitFraction cs).1 ++ rest') := by
  revert h
  fun_cases splitFraction cs with
  | case1 => exact id
  | case2 cs hdot =>
    intro h
    have hdigits : ∀ c ∈ (splitDigits cs).1, c ≠ '.' := by
      rintro c hc rfl
      cases isDigit_of_splitDigits '.' hc
    have htail := h.prepend hdigits
    dsimp only at htail
    rw [splitDigits_append] at htail
    exact .char (fun _ => hdot) htail
  | case3 => exact id

theorem ahead_splitExponent {cs rest' : List Char} (h : Ahead (splitExponent cs).2 rest') :
    Ahead cs ((splitExponent cs).1 ++ rest') := by
  have hdots : ∀ c ∈ (splitExponent cs).1, c ≠ '.' := by
    rintro c hc rfl
    rcases mem_splitExponent hc with h | h | h | h | h <;> cases h
  have hprepend := h.prepend hdots
  rwa [splitExponent_append] at hprepend

/-- Cutting behind a number takes the same number in front of anything that looks the same to it. -/
theorem splitNumber_ahead {cs rest' : List Char} (h : Ahead (splitNumber cs).2 rest') :
    splitNumber ((splitNumber cs).1 ++ rest') = ((splitNumber cs).1, rest') := by
  have h : Ahead (splitExponent (splitFraction (splitDigits cs).2).2).2 rest' := h
  have hexponent := splitExponent_ahead h
  have hbehindFraction := ahead_splitExponent h
  have hfraction := splitFraction_ahead hbehindFraction
  have hdigits := splitDigits_ahead (ahead_splitFraction hbehindFraction)
  have hcut : (splitNumber cs).1 = (splitDigits cs).1 ++ (splitFraction (splitDigits cs).2).1 ++
      (splitExponent (splitFraction (splitDigits cs).2).2).1 := rfl
  rw [hcut, List.append_assoc, List.append_assoc, splitNumber, hdigits]
  simp only [hfraction, hexponent, List.append_assoc]

/-! ## Operators -/

theorem splitOperator?_ne {cs : List Char} {o : Operator} {rest} (h : splitOperator? cs = some (o, rest)) :
    o ≠ .and ∧ o ≠ .or := by
  unfold splitOperator? at h
  split at h <;> cases h <;> exact ⟨nofun, nofun⟩

theorem splitOperator?_of_stops {o : Operator} {rest : List Char} (ho : o ≠ .and ∧ o ≠ .or) (hr : Stops rest) :
    o = .comma ∨ splitOperator? (o.text.toList ++ rest) = some (o, rest) := by
  rcases hr.cases with rfl | ⟨c, cs, rfl, rfl | rfl | rfl | rfl | rfl⟩ <;>
    cases o <;> first | exact .inr rfl | exact .inl rfl | simp_all

theorem splitOperator?_ahead {cs rest rest' : List Char} {o : Operator} (h : splitOperator? cs = some (o, rest))
    (hr : Ahead rest rest') : splitOperator? (o.text.toList ++ rest') = some (o, rest') := by
  have ho := splitOperator?_ne h
  rcases hr.head with hstops | hhead
  · rcases splitOperator?_of_stops ho hstops with rfl | h'
    · unfold splitOperator? at h
      split at h <;> cases h
    · exact h'
  · -- the character behind the sign, if there is one, is the one that was there before
    cases rest with
    | nil =>
      obtain rfl : rest' = [] := by simpa using hhead
      rwa [splitOperator?_append h]
    | cons d ds =>
      obtain ⟨ds', rfl⟩ := List.head?_eq_some_iff.1 hhead
      unfold splitOperator? at h
      split at h <;> cases h <;> simp_all [splitOperator?, Operator.text]

end Token

end DefTable
