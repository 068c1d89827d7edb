import DefTable.Proofs.ByteScanner

/-!
# Passing bytes

What is passed byte by byte is what is cut off character by character: blanks and comments (`skipTrivia_at`), names
(`passName_at`), numbers (`passNumber_at`). The positions that are reached are places of the text, so it can be sliced
there (`slice_between`).
-/

namespace DefTable

open Text Token

namespace Bytewise

/-! ## Characters beyond ASCII -/

namespace Wide

variable {c : Char}

theorem ne {x : Char} (h : Wide c) (hx : ¬ Wide x) : c ≠ x := by
  rintro rfl
  exact hx h

theorem isBlank (h : Wide c) : isBlank c = false := by
  simp [Token.isBlank, h.ne (x := ' ') (by decide), h.ne (x := '\t') (by decide), h.ne (x := '\n') (by decide),
    h.ne (x := '\r') (by decide)]

theorem isDigit (h : Wide c) : c.isDigit = false := by
  have hval : 128 ≤ c.val.toNat := h
  rw [Bool.eq_false_iff]
  intro hdigit
  exact absurd (Nat.le_trans hval (Char.isDigit_iff_toNat.1 hdigit).2) (by decide)

theorem isAlpha (h : Wide c) : c.isAlpha = false := by
  have hval : 128 ≤ c.toNat := h
  rw [Bool.eq_false_iff]
  intro halpha
  have hletter := isAlpha_iff_toNat.1 halpha
  omega

theorem isIdentStart (h : Wide c) : isIdentStart c = false := by
  simp [Token.isIdentStart, h.isAlpha, h.ne (x := '_') (by decide)]

theorem isIdentContinue (h : Wide c) : isIdentContinue c = false := by
  simp [Token.isIdentContinue, Char.isAlphanum, h.isAlpha, h.isDigit, h.ne (x := '_') (by decide)]

end Wide

/-! ## Places -/

namespace At

variable {text cs ds : List Char} {pos pos' : Nat} {c : Char}

theorem pos_eq (h : At text pos cs) (h' : At text pos' cs) : pos = pos' :=
  Nat.add_right_cancel (h.add_byteLength.trans h'.add_byteLength.symm)

theorem next (h : At text pos (c :: cs)) (hc : ¬ Wide c) : At text (pos + 1) cs := by
  have htail := h.tail
  rwa [utf8Size_of_not_wide hc] at htail

theorem peek_narrow (h : At text pos (c :: cs)) (hc : ¬ Wide c) : peek text pos = some c :=
  h.peek_eq.trans (Bytewise.peek_narrow hc cs)

theorem peek_wide (h : At text pos (c :: cs)) (hc : Wide c) : ∃ d, peek text pos = some d ∧ Wide d := by
  obtain ⟨d, hd, hwide⟩ := Bytewise.peek_wide hc cs c.utf8Size_pos
  exact ⟨d, h.peek_eq.trans hd, hwide⟩

theorem peek_any {p : Char → Bool} (h : At text pos cs) (hp : ∀ d, Wide d → p d = false) :
    (peek text pos).any p = cs.head?.any p := by
  rw [h.peek_eq, Bytewise.peek_any hp]

theorem peek_eq_some_iff {x : Char} (h : At text pos cs) (hx : ¬ Wide x) :
    peek text pos = some x ↔ cs.head? = some x := by
  rw [h.peek_eq, Bytewise.peek_eq_some_iff hx]

theorem peek_none_iff (h : At text pos cs) : peek text pos = none ↔ cs = [] := by
  rw [h.peek_eq]
  cases cs with
  | nil => exact ⟨fun _ => rfl, fun _ => rfl⟩
  | cons c cs =>
    rw [peek_lead]
    exact ⟨nofun, nofun⟩

end At

theorem slice_between {text as bs : List Char} {pos stop : Nat} (h : At text pos (as ++ bs)) (h' : At text stop bs) :
    slice text pos stop = .ok as :=
  slice_eq_ok_iff.2 ⟨bs, h, h'.pos_eq h.behind⟩

/-! ## Blanks and comments -/

section
variable {text cs : List Char} {pos : Nat} {p : Char → Bool}

/-- The bytes of a character are passed one by one. -/
theorem passWhile_add (k : Nat) : ∀ pos, (∀ i < k, ∃ d, peek text (pos + i) = some d ∧ p d = true) →
    passWhile text p pos = passWhile text p (pos + k) := by
  induction k with
  | zero => exact fun _ _ => rfl
  | succ k ih =>
    intro pos h
    obtain ⟨d, hd, hp⟩ := h 0 (Nat.succ_pos k)
    have hd : peek text pos = some d := hd
    rw [passWhile_pass text hd hp, ih (pos + 1), Nat.add_assoc, Nat.add_comm 1 k]
    intro i hi
    rw [Nat.add_assoc, Nat.add_comm 1 i]
    exact h (i + 1) (Nat.succ_lt_succ hi)

theorem passWhile_at (hp : (∀ d, Wide d → p d = true) ∨ ∀ d, Wide d → p d = false) (h : At text pos cs) :
    At text (passWhile text p pos) (cs.dropWhile p) := by
  induction cs generalizing pos with
  | nil =>
    rw [passWhile_none text (h.peek_none_iff.2 rfl)]
    exact h
  | cons c cs ih =>
    by_cases hc : Wide c
    · rcases hp with hp | hp
      · rw [List.dropWhile_cons_of_pos (hp c hc), passWhile_add c.utf8Size]
        · exact ih h.tail
        · intro i hi
          obtain ⟨d, hd, hwide⟩ := peek_wide hc cs hi
          exact ⟨d, (h.peek_add i).trans hd, hp d hwide⟩
      · obtain ⟨d, hd, hwide⟩ := h.peek_wide hc
        rw [List.dropWhile_cons_of_neg (by rw [hp c hc]; exact Bool.false_ne_true), passWhile_stop text hd (hp d hwide)]
        exact h
    · have hpeek := h.peek_narrow hc
      cases hpc : p c with
      | true =>
        rw [List.dropWhile_cons_of_pos hpc, passWhile_pass text hpeek hpc]
        exact ih (h.next hc)
      | false =>
        rw [List.dropWhile_cons_of_neg (by rw [hpc]; exact Bool.false_ne_true), passWhile_stop text hpeek hpc]
        exact h

theorem passDigits_at (h : At text pos cs) : At text (passWhile text Char.isDigit pos) (cs.dropWhile Char.isDigit) :=
  passWhile_at (.inr fun _ hd => hd.isDigit) h

/-- A comment ends in front of a line feed, which is a blank. -/
theorem skipTrivia_comment (cs : List Char) (offset : Nat) :
    ∃ offset', Token.skipTrivia true offset cs = Token.skipTrivia false offset' (cs.dropWhile (· ≠ '\n')) := by
  induction cs generalizing offset with
  | nil => exact ⟨offset, rfl⟩
  | cons c cs ih =>
    by_cases hc : c = '\n'
    · subst hc
      exact ⟨offset, rfl⟩
    · obtain ⟨offset', h⟩ := ih (offset + c.utf8Size)
      refine ⟨offset', ?_⟩
      rw [Token.skipTrivia, if_pos rfl, bne_iff_ne.2 hc, h, List.dropWhile_cons_of_pos (by simpa using hc)]

theorem skipTrivia_none (h : peek text pos = none) : skipTrivia text pos = pos := by
  rw [skipTrivia]
  split
  · next h' => cases h.symm.trans h'
  · rfl

theorem skipTrivia_some {c : Char} (h : peek text pos = some c) :
    skipTrivia text pos =
      if isBlank c then skipTrivia text (pos + 1)
      else if c = '#' then skipTrivia text (passWhile text (· ≠ '\n') pos)
      else pos := by
  conv_lhs => rw [skipTrivia]
  split
  · next h' =>
    cases h.symm.trans h'
    rfl
  · next h' => cases h.symm.trans h'

theorem skipTrivia_at {text : List Char} : ∀ {cs : List Char} {pos : Nat}, At text pos cs → ∀ offset,
    At text (skipTrivia text pos) (Token.skipTrivia false offset cs).rest
  | [], pos, h, offset => by
    rw [skipTrivia_none (h.peek_none_iff.2 rfl)]
    exact h
  | c :: cs, pos, h, offset => by
    have hskip : Token.skipTrivia false offset (c :: cs) =
        if isBlank c then Token.skipTrivia false (offset + c.utf8Size) cs
        else if c = '#' then Token.skipTrivia true (offset + c.utf8Size) cs else ⟨offset, c :: cs⟩ := by
      rw [Token.skipTrivia, if_neg Bool.false_ne_true]
    rw [hskip]
    by_cases hc : Wide c
    · obtain ⟨d, hd, hwide⟩ := h.peek_wide hc
      rw [skipTrivia_some hd, hwide.isBlank, hc.isBlank, if_neg Bool.false_ne_true, if_neg Bool.false_ne_true,
        if_neg (hwide.ne (by decide)), if_neg (hc.ne (by decide))]
      exact h
    · rw [skipTrivia_some (h.peek_narrow hc)]
      split
      · exact skipTrivia_at (h.next hc) _
      · split
        · next hhash =>
          subst hhash
          obtain ⟨offset', hcomment⟩ := skipTrivia_comment cs (offset + ('#' : Char).utf8Size)
          have hpass := passWhile_at (p := (· ≠ '\n')) (.inl fun d hd => decide_eq_true (hd.ne (by decide))) h
          rw [List.dropWhile_cons_of_pos (by decide)] at hpass
          rw [hcomment]
          exact skipTrivia_at hpass offset'
        · exact h
termination_by cs => cs.length
decreasing_by
  · exact Nat.lt_succ_of_le (List.length_dropWhile_le _ _)
  · exact Nat.lt_succ_self _

theorem skipTrivia_cursor (h : At text pos cs) (base : Nat) :
    ∃ rest, Token.skipTrivia false (base + pos) cs = ⟨base + skipTrivia text pos, rest⟩ ∧
      At text (skipTrivia text pos) rest := by
  have hat := skipTrivia_at h (base + pos)
  have hfinish := finish_skipTrivia false (base + pos) cs
  generalize Token.skipTrivia false (base + pos) cs = cursor at hat hfinish
  obtain ⟨offset, rest⟩ := cursor
  have hend := hat.add_byteLength
  have hstart := h.add_byteLength
  rw [Cursor.finish_mk] at hfinish
  dsimp only at hend
  obtain rfl : offset = base + skipTrivia text pos := by omega
  exact ⟨rest, rfl, hat⟩

/-! ## Names -/

theorem passName_none (h : peek text pos = none) : passName text pos = pos := by
  rw [passName]
  split
  · next h' => cases h.symm.trans h'
  · rfl

theorem passName_some {c : Char} (h : peek text pos = some c) :
    passName text pos =
      if isIdentContinue c then passName text (pos + 1)
      else if c = ':' ∧ peek text (pos + 1) = some ':' ∧ (peek text (pos + 2)).any isIdentStart then
        passName text (pos + 2)
      else pos := by
  conv_lhs => rw [passName]
  split
  · next h' =>
    cases h.symm.trans h'
    rfl
  · next h' => cases h.symm.trans h'

theorem narrow_of_isIdentContinue {c : Char} (h : isIdentContinue c = true) : ¬ Wide c := fun hc => by
  rw [hc.isIdentContinue] at h
  cases h

theorem passName_at (h : At text pos cs) : At text (passName text pos) (splitName cs).2 := by
  fun_induction splitName cs generalizing pos with
  | case1 =>
    rw [passName_none (h.peek_none_iff.2 rfl)]
    exact h
  | case2 c cs hstart name rest hsplit ih =>
    have hcontinue := isIdentContinue_of_isIdentStart hstart
    have hnext := h.next (by decide)
    have hsecond := hnext.next (by decide)
    have hc := hsecond.peek_narrow (narrow_of_isIdentContinue hcontinue)
    rw [passName_some (h.peek_narrow (by decide)), if_neg (by decide), if_pos, passName_some hc, if_pos hcontinue]
    · have hrest := ih (hsecond.next (narrow_of_isIdentContinue hcontinue))
      rwa [hsplit] at hrest
    · exact ⟨rfl, hnext.peek_narrow (by decide), by rw [hc]; exact hstart⟩
  | case3 c cs hstart =>
    have hnext := h.next (by decide)
    have hsecond := hnext.next (by decide)
    rw [passName_some (h.peek_narrow (by decide)), if_neg (by decide), if_neg]
    · exact h
    · rintro ⟨-, -, hany⟩
      rw [hsecond.peek_any fun d hd => hd.isIdentStart] at hany
      exact hstart hany
  | case4 c cs hcolons hcontinue name rest hsplit ih =>
    have hc := narrow_of_isIdentContinue hcontinue
    rw [passName_some (h.peek_narrow hc), if_pos hcontinue]
    have hrest := ih (h.next hc)
    rwa [hsplit] at hrest
  | case5 c cs hcolons hcontinue =>
    by_cases hc : Wide c
    · obtain ⟨d, hd, hwide⟩ := h.peek_wide hc
      rw [passName_some hd, hwide.isIdentContinue, if_neg Bool.false_ne_true, if_neg fun hd => hwide.ne (by decide) hd.1]
      exact h
    · rw [passName_some (h.peek_narrow hc), if_neg hcontinue, if_neg]
      · exact h
      · rintro ⟨rfl, hcolon, hany⟩
        have hnext := h.next (by decide)
        obtain - | ⟨c₁, cs⟩ := cs
        · rw [hnext.peek_none_iff.2 rfl] at hcolon
          cases hcolon
        · obtain rfl : c₁ = ':' := Option.some_inj.1 ((hnext.peek_eq_some_iff (by decide)).1 hcolon)
          have hsecond := hnext.next (by decide)
          rw [hsecond.peek_any fun d hd => hd.isIdentStart] at hany
          obtain - | ⟨c₂, cs⟩ := cs
          · cases hany
          · exact hcolons _ _ rfl rfl

/-! ## Numbers -/

theorem splitNumber_rest (cs : List Char) :
    (splitNumber cs).2 = (splitExponent (splitFraction (cs.dropWhile Char.isDigit)).2).2 := rfl

theorem passFraction_at (h : At text pos cs) :
    At text (if peek text pos = some '.' ∧ peek text (pos + 1) ≠ some '.' then passWhile text Char.isDigit (pos + 1)
      else pos) (splitFraction cs).2 := by
  fun_cases splitFraction cs with
  | case1 cs hhead =>
    have hdot : peek text (pos + 1) = some '.' := ((h.next (by decide)).peek_eq_some_iff (by decide)).2 hhead
    rw [if_neg fun hboth => hboth.2 hdot]
    exact h
  | case2 cs hhead =>
    have hnext := h.next (by decide)
    rw [if_pos ⟨h.peek_narrow (by decide), fun hdot => hhead ((hnext.peek_eq_some_iff (by decide)).1 hdot)⟩]
    exact passDigits_at hnext
  | case3 _ hcs =>
    rw [if_neg]
    · exact h
    · rintro ⟨hdot, -⟩
      rw [h.peek_eq_some_iff (by decide)] at hdot
      cases cs with
      | nil => cases hdot
      | cons c cs => exact hcs cs (by rw [Option.some_inj.1 hdot])

theorem passSign_at (h : At text pos cs) :
    At text (pos + if (peek text pos).any fun c => c = '+' || c = '-' then 1 else 0) (splitSign cs).2 := by
  rw [h.peek_any fun d hd => by simp [hd.ne (x := '+') (by decide), hd.ne (x := '-') (by decide)]]
  fun_cases splitSign cs with
  | case1 cs => exact h.next (by decide)
  | case2 cs => exact h.next (by decide)
  | case3 _ hplus hminus =>
    rw [if_neg]
    · exact h
    · cases cs with
      | nil => exact Bool.false_ne_true
      | cons c cs =>
        intro hsign
        simp only [List.head?_cons, Option.any_some, Bool.or_eq_true, decide_eq_true_eq] at hsign
        rcases hsign with rfl | rfl
        · exact hplus cs rfl
        · exact hminus cs rfl

theorem passExponent_at (h : At text pos cs) :
    At text (if (peek text pos).any fun c => c = 'e' || c = 'E' then
        let sign := if (peek text (pos + 1)).any fun c => c = '+' || c = '-' then 1 else 0
        if (peek text (pos + 1 + sign)).any Char.isDigit then passWhile text Char.isDigit (pos + 1 + sign) else pos
      else pos) (splitExponent cs).2 := by
  rw [h.peek_any fun d hd => by simp [hd.ne (x := 'e') (by decide), hd.ne (x := 'E') (by decide)]]
  cases cs with
  | nil => exact h
  | cons c cs =>
    rw [splitExponent, List.head?_cons, Option.any_some]
    cases hc : (c = 'e' || c = 'E' : Bool) with
    | false => exact h
    | true =>
      have hnarrow : ¬ Wide c := by
        rw [Bool.or_eq_true, decide_eq_true_eq, decide_eq_true_eq] at hc
        rcases hc with rfl | rfl <;> decide
      have hsign := passSign_at (h.next hnarrow)
      rw [if_pos rfl, Bool.true_and]
      dsimp only
      rw [hsign.peek_any fun d hd => hd.isDigit]
      split
      · exact passDigits_at hsign
      · exact h

theorem passNumber_at (h : At text pos cs) : At text (passNumber text pos) (splitNumber cs).2 :=
  splitNumber_rest cs ▸ passExponent_at (passFraction_at (passDigits_at h))

end

end Bytewise
end DefTable
