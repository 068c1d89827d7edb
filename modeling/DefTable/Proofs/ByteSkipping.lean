import DefTable.Proofs.BytePassing

/-!
# Skipping interpolations byte by byte

The two functions that skip an interpolation and a string in it do together what the stack of enclosures does
(`skips`): each leaves the enclosures below its own to its caller. Two bytes that are passed behind a backslash may end
inside of a character, whose other bytes are passed one by one.
-/

namespace DefTable

open Text Token

namespace Bytewise

/-! ## What is left below -/

/-- Characters in front of what is skipped. -/
def prepend (taken : List Char) (r : Except SyntaxError (List Char × Cursor)) :
    Except SyntaxError (List Char × Cursor) :=
  r.map fun x => (taken ++ x.1, x.2)

/-- Skips on with the enclosures below one that has been left. -/
def resume (below : List Enclosure) (taken : List Char) (cursor : Cursor) : Except SyntaxError (List Char × Cursor) :=
  match below with
  | [] => .ok (taken.dropLast, cursor)
  | _ => prepend taken (skipEnclosed below cursor.offset cursor.rest)

section
variable {below : List Enclosure} {taken taken' cs : List Char} {c : Char} {offset : Nat} {cursor : Cursor}

theorem resume_of_ne_nil (h : below ≠ []) :
    resume below taken cursor = prepend taken (skipEnclosed below cursor.offset cursor.rest) := by
  cases below with
  | nil => exact absurd rfl h
  | cons e below => rfl

theorem prepend_nil (r : Except SyntaxError (List Char × Cursor)) : prepend [] r = r := by
  cases r <;> rfl

theorem prepend_prepend (r : Except SyntaxError (List Char × Cursor)) :
    prepend taken (prepend taken' r) = prepend (taken ++ taken') r := by
  cases r with
  | error e => rfl
  | ok x =>
    show Except.ok (taken ++ (taken' ++ x.1), x.2) = .ok (taken ++ taken' ++ x.1, x.2)
    rw [List.append_assoc]

theorem prepend_resume (h : taken' ≠ []) :
    prepend taken (resume below taken' cursor) = resume below (taken ++ taken') cursor := by
  cases below with
  | nil =>
    show Except.ok (taken ++ taken'.dropLast, cursor) = .ok ((taken ++ taken').dropLast, cursor)
    rw [List.dropLast_append_of_ne_nil h]
  | cons e below => exact prepend_prepend _

theorem skipEnclosed_cons (es : List Enclosure) :
    skipEnclosed es offset (c :: cs) = resume (Enclosure.step offset c es) [c] ⟨offset + c.utf8Size, cs⟩ := by
  rw [skipEnclosed]
  split
  · next h =>
    rw [h]
    rfl
  · next hne =>
    rw [resume_of_ne_nil hne]
    cases skipEnclosed (Enclosure.step offset c es) (offset + c.utf8Size) cs <;> rfl

theorem step_plain {opened start : Nat} (h : c ≠ '(' ∧ c ≠ ')' ∧ c ≠ '"' ∧ c ≠ '#') :
    Enclosure.step offset c (.interpolation opened start :: below) = .interpolation opened start :: below := by
  obtain ⟨h₁, h₂, h₃, h₄⟩ := h
  unfold Enclosure.step
  dsimp only
  split <;> first | rfl | contradiction

theorem plain_of_isBlank (h : isBlank c = true) : c ≠ '(' ∧ c ≠ ')' ∧ c ≠ '"' ∧ c ≠ '#' := by
  refine ⟨?_, ?_, ?_, ?_⟩ <;> rintro rfl <;> exact absurd h (by decide)

/-- A blank or a comment leaves an interpolation as it is. -/
theorem skipEnclosed_trivia (opened start : Nat) (inComment : Bool) (offset : Nat) (cs : List Char) :
    ∃ taken, cs = taken ++ (Token.skipTrivia inComment offset cs).rest ∧
      skipEnclosed ((if inComment then [.comment] else []) ++ .interpolation opened start :: below) offset cs =
        prepend taken (skipEnclosed (.interpolation opened start :: below) (Token.skipTrivia inComment offset cs).offset
          (Token.skipTrivia inComment offset cs).rest) := by
  induction cs generalizing inComment offset with
  | nil =>
    refine ⟨[], rfl, ?_⟩
    cases inComment <;> rfl
  | cons c cs ih =>
    have further : ∀ {es} (inside : Bool), Token.skipTrivia inComment offset (c :: cs) =
          Token.skipTrivia inside (offset + c.utf8Size) cs →
        Enclosure.step offset c es = (if inside then [.comment] else []) ++ .interpolation opened start :: below →
        ∃ taken, c :: cs = taken ++ (Token.skipTrivia inComment offset (c :: cs)).rest ∧
          skipEnclosed es offset (c :: cs) =
            prepend taken (skipEnclosed (.interpolation opened start :: below)
              (Token.skipTrivia inComment offset (c :: cs)).offset (Token.skipTrivia inComment offset (c :: cs)).rest) := by
      intro es inside htrivia hstep
      obtain ⟨taken, hcs, hskip⟩ := ih inside (offset + c.utf8Size)
      refine ⟨c :: taken, ?_, ?_⟩
      · rw [htrivia, List.cons_append, ← hcs]
      · rw [htrivia, skipEnclosed_cons, hstep, resume_of_ne_nil (by simp), hskip, prepend_prepend]
        rfl
    cases inComment with
    | true =>
      refine further (c != '\n') (by rw [Token.skipTrivia, if_pos rfl]) ?_
      show (if c = '\n' then _ else _) = _
      by_cases hc : c = '\n'
      · rw [if_pos hc, hc]
        rfl
      · rw [if_neg hc, bne_iff_ne.2 hc]
        rfl
    | false =>
      by_cases hblank : isBlank c = true
      · refine further false ?_ (step_plain (plain_of_isBlank hblank))
        rw [Token.skipTrivia, if_neg Bool.false_ne_true, if_pos hblank]
      · by_cases hhash : c = '#'
        · subst hhash
          exact further true rfl rfl
        · have htrivia : Token.skipTrivia false offset (c :: cs) = ⟨offset, c :: cs⟩ := by
            rw [Token.skipTrivia, if_neg Bool.false_ne_true, if_neg hblank, if_neg hhash]
          rw [htrivia]
          exact ⟨[], rfl, (prepend_nil _).symm⟩

end

/-! ## Skipping -/

section
variable {text : List Char} {base n depth start pos : Nat} {c : Char}

theorem skipInterpolation_plain (h : peek text pos = some c) (hc : c ≠ '(' ∧ c ≠ ')' ∧ c ≠ '"' ∧ c ≠ '#') :
    skipInterpolation text base (n + 1) depth start pos = skipInterpolation text base n depth start (pos + 1) := by
  obtain ⟨h₁, h₂, h₃, h₄⟩ := hc
  rw [skipInterpolation, h]
  split <;> first | rfl | (next heq => cases heq; contradiction) | (next heq => cases heq)

theorem skipString_plain (h : peek text pos = some c) (hquote : c ≠ '"') (hback : c ≠ '\\') :
    skipString text base (n + 1) start pos = skipString text base n start (pos + 1) := by
  rw [skipString, h]
  split <;> first | rfl | (next heq => cases heq; contradiction) | (next heq => cases heq)

theorem Wide.plain (h : Wide c) : c ≠ '(' ∧ c ≠ ')' ∧ c ≠ '"' ∧ c ≠ '#' :=
  ⟨h.ne (by decide), h.ne (by decide), h.ne (by decide), h.ne (by decide)⟩

/-- The bytes of a character beyond ASCII are passed one by one. -/
theorem skipInterpolation_add (k : Nat) : ∀ pos, (∀ i < k, ∃ d, peek text (pos + i) = some d ∧ Wide d) →
    skipInterpolation text base (n + k) depth start pos = skipInterpolation text base n depth start (pos + k) := by
  induction k with
  | zero => exact fun _ _ => rfl
  | succ k ih =>
    intro pos h
    obtain ⟨d, hd, hwide⟩ := h 0 (Nat.succ_pos k)
    have hd : peek text pos = some d := hd
    rw [← Nat.add_assoc, skipInterpolation_plain hd hwide.plain, ih (pos + 1), Nat.add_assoc, Nat.add_comm 1 k]
    intro i hi
    rw [Nat.add_assoc, Nat.add_comm 1 i]
    exact h (i + 1) (Nat.succ_lt_succ hi)

theorem skipString_add (k : Nat) : ∀ pos, (∀ i < k, ∃ d, peek text (pos + i) = some d ∧ Wide d) →
    skipString text base (n + k) start pos = skipString text base n start (pos + k) := by
  induction k with
  | zero => exact fun _ _ => rfl
  | succ k ih =>
    intro pos h
    obtain ⟨d, hd, hwide⟩ := h 0 (Nat.succ_pos k)
    have hd : peek text pos = some d := hd
    rw [← Nat.add_assoc, skipString_plain hd (hwide.ne (by decide)) (hwide.ne (by decide)), ih (pos + 1), Nat.add_assoc,
      Nat.add_comm 1 k]
    intro i hi
    rw [Nat.add_assoc, Nat.add_comm 1 i]
    exact h (i + 1) (Nat.succ_lt_succ hi)

end

/-- Skipping from `cs` on ends with the fault that another way of skipping ends with, or it stops at a place, from
which the other way goes on with the enclosures below. -/
def Skips (text : List Char) (base : Nat) (below : List Enclosure) (cs : List Char) (x : Except Crash Nat)
    (r : Except SyntaxError (List Char × Cursor)) : Prop :=
  (∃ e : SyntaxError, x = .error (.fault e.diagnostic) ∧ r = .error e) ∨
    ∃ taken rest pos, x = .ok pos ∧ cs = taken ++ rest ∧ taken ≠ [] ∧ At text pos rest ∧
      r = resume below taken ⟨base + pos, rest⟩

theorem Skips.behind {text : List Char} {base : Nat} {below : List Enclosure} {taken cs : List Char}
    {x : Except Crash Nat} {r : Except SyntaxError (List Char × Cursor)} (h : Skips text base below cs x r) :
    Skips text base below (taken ++ cs) x (prepend taken r) := by
  rcases h with ⟨e, rfl, rfl⟩ | ⟨taken', rest, pos, rfl, rfl, hne, hat, rfl⟩
  · exact .inl ⟨e, rfl, rfl⟩
  · refine .inr ⟨taken ++ taken', rest, pos, rfl, ?_, ?_, hat, prepend_resume hne⟩
    · rw [List.append_assoc]
    · exact List.append_ne_nil_of_right_ne_nil _ hne

/-- With a number of steps interpolations are skipped as the enclosures are. -/
def SkipsInterpolations (text : List Char) (base n : Nat) : Prop :=
  ∀ {cs pos}, At text pos cs → byteLength cs < n → ∀ opened start below,
    Skips text base below cs (skipInterpolation text base n (opened + 1) start pos)
      (skipEnclosed (.interpolation opened (base + start) :: below) (base + pos) cs)

def SkipsStrings (text : List Char) (base n : Nat) : Prop :=
  ∀ {cs pos}, At text pos cs → byteLength cs < n → ∀ start below,
    Skips text base below cs (skipString text base n start pos)
      (skipEnclosed (.string (base + start) :: below) (base + pos) cs)

section
variable {text : List Char} {base n : Nat}

/-- A string in an interpolation is passed as a whole. -/
theorem skipsInterpolations_string (hi : SkipsInterpolations text base n) (hs : SkipsStrings text base n)
    {cs : List Char} {pos : Nat} (h : At text pos ('"' :: cs)) (hlength : byteLength cs < n) (opened start : Nat)
    (below : List Enclosure) :
    Skips text base below ('"' :: cs) (skipInterpolation text base (n + 1) (opened + 1) start pos)
      (skipEnclosed (.interpolation opened (base + start) :: below) (base + pos) ('"' :: cs)) := by
  have hc : ¬Wide '"' := by decide
  have hpeek := h.peek_narrow hc
  have hskip : skipInterpolation text base (n + 1) (opened + 1) start pos =
      skipString text base n pos (pos + 1) >>= skipInterpolation text base n (opened + 1) start := by
    rw [skipInterpolation, hpeek]
    rfl
  have henclosed : skipEnclosed (.interpolation opened (base + start) :: below) (base + pos) ('"' :: cs) =
      prepend ['"'] (skipEnclosed (.string (base + pos) :: .interpolation opened (base + start) :: below)
        (base + (pos + 1)) cs) := skipEnclosed_cons _
  rw [hskip, henclosed]
  rcases hs (h.next hc) hlength pos (.interpolation opened (base + start) :: below) with
    ⟨e, hx, hr⟩ | ⟨taken, rest, pos', hx, rfl, -, hat, hr⟩
  · rw [hx, hr]
    exact .inl ⟨e, rfl, rfl⟩
  · rw [byteLength_append] at hlength
    rw [hx, hr, resume_of_ne_nil (List.cons_ne_nil _ _)]
    exact (hi hat (by omega) opened start below).behind.behind

/-- A comment in an interpolation is passed as a whole. -/
theorem skipsInterpolations_comment (hi : SkipsInterpolations text base n) {cs : List Char} {pos : Nat}
    (h : At text pos ('#' :: cs)) (hlength : byteLength cs < n) (opened start : Nat) (below : List Enclosure) :
    Skips text base below ('#' :: cs) (skipInterpolation text base (n + 1) (opened + 1) start pos)
      (skipEnclosed (.interpolation opened (base + start) :: below) (base + pos) ('#' :: cs)) := by
  have hc : ¬Wide '#' := by decide
  have hpeek := h.peek_narrow hc
  have hskip : skipInterpolation text base (n + 1) (opened + 1) start pos =
      skipInterpolation text base n (opened + 1) start (skipTrivia text pos) := by
    rw [skipInterpolation, hpeek]
    rfl
  have henclosed : skipEnclosed (.interpolation opened (base + start) :: below) (base + pos) ('#' :: cs) =
      prepend ['#'] (skipEnclosed (.comment :: .interpolation opened (base + start) :: below)
        (base + pos + 1) cs) := skipEnclosed_cons _
  obtain ⟨taken, hcs, hr⟩ := @skipEnclosed_trivia below opened (base + start) true (base + pos + 1) cs
  obtain ⟨rest, htrivia, hat⟩ := skipTrivia_cursor h base
  replace htrivia : Token.skipTrivia true (base + pos + 1) cs = ⟨base + skipTrivia text pos, rest⟩ := htrivia
  rw [htrivia] at hcs hr
  have hlength' := congrArg byteLength hcs
  rw [byteLength_append] at hlength'
  dsimp only at hcs hlength'
  replace hr : skipEnclosed (.comment :: .interpolation opened (base + start) :: below) (base + pos + 1) cs =
    prepend taken (skipEnclosed (.interpolation opened (base + start) :: below) (base + skipTrivia text pos) rest) := hr
  rw [hskip, henclosed, hr, hcs]
  exact (hi hat (by omega) opened start below).behind.behind

theorem skipsInterpolations_succ (hi : ∀ m ≤ n, SkipsInterpolations text base m) (hs : SkipsStrings text base n) :
    SkipsInterpolations text base (n + 1) := by
  intro cs pos h hlength opened start below
  obtain - | ⟨c, cs⟩ := cs
  · refine .inl ⟨⟨.unterminatedInterpolation, base + start⟩, ?_, rfl⟩
    rw [skipInterpolation, h.peek_none_iff.2 rfl]
    rfl
  have hpos := c.utf8Size_pos
  rw [byteLength_cons] at hlength
  have further : ∀ m opened', m ≤ n → byteLength cs < m →
      Enclosure.step (base + pos) c (.interpolation opened (base + start) :: below) =
        .interpolation opened' (base + start) :: below →
      skipInterpolation text base (n + 1) (opened + 1) start pos =
        skipInterpolation text base m (opened' + 1) start (pos + c.utf8Size) →
      Skips text base below (c :: cs) (skipInterpolation text base (n + 1) (opened + 1) start pos)
        (skipEnclosed (.interpolation opened (base + start) :: below) (base + pos) (c :: cs)) := by
    intro m opened' hm hlength' hstep hskip
    rw [hskip, skipEnclosed_cons, hstep, resume_of_ne_nil (List.cons_ne_nil _ _), Nat.add_assoc]
    exact (hi m hm h.tail hlength' opened' start below).behind
  by_cases hc : Wide c
  · refine further (n + 1 - c.utf8Size) opened (by omega) (by omega) (step_plain hc.plain) ?_
    rw [← skipInterpolation_add c.utf8Size, Nat.sub_add_cancel (by omega)]
    intro i hi'
    obtain ⟨d, hd, hwide⟩ := peek_wide hc cs hi'
    exact ⟨d, (h.peek_add i).trans hd, hwide⟩
  have hpeek := h.peek_narrow hc
  have hnext := h.next hc
  have hsize := utf8Size_of_not_wide hc
  by_cases hopen : c = '('
  · subst hopen
    refine further n (opened + 1) (Nat.le_refl _) (by omega) rfl ?_
    rw [skipInterpolation, hpeek]
    rfl
  by_cases hclose : c = ')'
  · subst hclose
    obtain - | opened := opened
    · refine .inr ⟨[')'], cs, pos + 1, ?_, rfl, List.cons_ne_nil _ _, hnext, skipEnclosed_cons _⟩
      rw [skipInterpolation, hpeek]
      rfl
    · refine further n opened (Nat.le_refl _) (by omega) rfl ?_
      rw [skipInterpolation, hpeek]
      rfl
  by_cases hquote : c = '"'
  · subst hquote
    exact skipsInterpolations_string (hi n (Nat.le_refl _)) hs h (by omega) opened start below
  by_cases hhash : c = '#'
  · subst hhash
    exact skipsInterpolations_comment (hi n (Nat.le_refl _)) h (by omega) opened start below
  · refine further n opened (Nat.le_refl _) (by omega) (step_plain ⟨hopen, hclose, hquote, hhash⟩) ?_
    rw [skipInterpolation_plain hpeek ⟨hopen, hclose, hquote, hhash⟩, hsize]

/-- Behind a backslash two bytes are passed at once, which may end inside of a character or behind the text. -/
theorem skipsStrings_escape (hi : ∀ m ≤ n, SkipsInterpolations text base m) (hs : ∀ m ≤ n, SkipsStrings text base m)
    {cs : List Char} {pos : Nat} (h : At text pos ('\\' :: cs)) (hlength : byteLength ('\\' :: cs) < n + 1)
    (start : Nat) (below : List Enclosure) :
    Skips text base below ('\\' :: cs) (skipString text base (n + 1) start pos)
      (skipEnclosed (.string (base + start) :: below) (base + pos) ('\\' :: cs)) := by
  have hnext := h.next (by decide)
  have hlength : 1 + byteLength cs < n + 1 := hlength
  have hskip : skipString text base (n + 1) start pos =
      if peek text (pos + 1) = some '(' then skipInterpolation text base n 1 pos (pos + 2) >>= skipString text base n start
      else skipString text base n start (pos + 2) := by
    rw [skipString, h.peek_narrow (by decide)]
    rfl
  have henclosed : skipEnclosed (.string (base + start) :: below) (base + pos) ('\\' :: cs) =
      prepend ['\\'] (skipEnclosed (.escape (base + pos) :: .string (base + start) :: below) (base + (pos + 1)) cs) :=
    skipEnclosed_cons _
  rw [hskip, henclosed]
  obtain - | ⟨c, cs⟩ := cs
  · obtain - | n := n
    · exact absurd hlength (by decide)
    · rw [if_neg (by simp [hnext.peek_none_iff.2 rfl]), skipString, hnext.peek_nil 1]
      exact .inl ⟨⟨.unterminatedString, base + start⟩, rfl, rfl⟩
  rw [byteLength_cons] at hlength
  have hpos := c.utf8Size_pos
  by_cases hopen : c = '('
  · subst hopen
    have hinner : skipEnclosed (.escape (base + pos) :: .string (base + start) :: below) (base + (pos + 1)) ('(' :: cs) =
        prepend ['('] (skipEnclosed (.interpolation 0 (base + pos) :: .string (base + start) :: below)
          (base + (pos + 1 + 1)) cs) := skipEnclosed_cons _
    rw [if_pos (hnext.peek_narrow (by decide)), hinner]
    have hinside := hi n (Nat.le_refl _) (hnext.next (by decide)) (by omega) 0 pos (.string (base + start) :: below)
    rcases hinside with ⟨e, hx, hr⟩ | ⟨taken, rest, pos', hx, rfl, -, hat, hr⟩
    · rw [hx, hr]
      exact .inl ⟨e, rfl, rfl⟩
    · rw [byteLength_append] at hlength
      rw [hx, hr, resume_of_ne_nil (List.cons_ne_nil _ _)]
      exact (hs n (Nat.le_refl _) hat (by omega) start below).behind.behind.behind
  · rw [if_neg, skipEnclosed_cons, Enclosure.step, if_neg hopen, resume_of_ne_nil (List.cons_ne_nil _ _)]
    · have hadd : skipString text base n start (pos + 2) =
          skipString text base (n - (c.utf8Size - 1)) start (pos + 1 + c.utf8Size) := by
        have hbytes := @skipString_add text base (n - (c.utf8Size - 1)) start (c.utf8Size - 1) (pos + 2)
        rw [Nat.sub_add_cancel (by omega), show pos + 2 + (c.utf8Size - 1) = pos + 1 + c.utf8Size by omega] at hbytes
        refine hbytes fun i hi' => ?_
        have hc : Wide c := by
          by_contra hc
          rw [utf8Size_of_not_wide hc] at hi'
          exact absurd hi' (Nat.not_lt_zero _)
        obtain ⟨d, hd, hwide⟩ := peek_wide hc cs (show i + 1 < c.utf8Size by omega)
        refine ⟨d, ?_, hwide⟩
        rw [show pos + 2 + i = pos + 1 + (i + 1) by omega]
        exact (hnext.peek_add (i + 1)).trans hd
      rw [hadd]
      have hafter := hs (n - (c.utf8Size - 1)) (Nat.sub_le _ _) hnext.tail (by omega) start below
      rw [← Nat.add_assoc] at hafter
      exact hafter.behind.behind
    · rw [hnext.peek_eq_some_iff (by decide), List.head?_cons, Option.some_inj]
      exact hopen

theorem skipsStrings_succ (hi : ∀ m ≤ n, SkipsInterpolations text base m) (hs : ∀ m ≤ n, SkipsStrings text base m) :
    SkipsStrings text base (n + 1) := by
  intro cs pos h hlength start below
  obtain - | ⟨c, cs⟩ := cs
  · refine .inl ⟨⟨.unterminatedString, base + start⟩, ?_, rfl⟩
    rw [skipString, h.peek_none_iff.2 rfl]
    rfl
  have hpos := c.utf8Size_pos
  rw [byteLength_cons] at hlength
  have further : ∀ m ≤ n, byteLength cs < m → c ≠ '"' → c ≠ '\\' →
      skipString text base (n + 1) start pos = skipString text base m start (pos + c.utf8Size) →
      Skips text base below (c :: cs) (skipString text base (n + 1) start pos)
        (skipEnclosed (.string (base + start) :: below) (base + pos) (c :: cs)) := by
    intro m hm hlength' hquote hback hskip
    have hstep : Enclosure.step (base + pos) c (.string (base + start) :: below) = .string (base + start) :: below := by
      unfold Enclosure.step
      dsimp only
      split <;> first | rfl | contradiction
    rw [hskip, skipEnclosed_cons, hstep, resume_of_ne_nil (List.cons_ne_nil _ _), Nat.add_assoc]
    exact (hs m hm h.tail hlength' start below).behind
  by_cases hc : Wide c
  · refine further (n + 1 - c.utf8Size) (by omega) (by omega) (hc.ne (by decide)) (hc.ne (by decide)) ?_
    rw [← skipString_add c.utf8Size, Nat.sub_add_cancel (by omega)]
    intro i hi'
    obtain ⟨d, hd, hwide⟩ := peek_wide hc cs hi'
    exact ⟨d, (h.peek_add i).trans hd, hwide⟩
  have hpeek := h.peek_narrow hc
  have hnext := h.next hc
  have hsize := utf8Size_of_not_wide hc
  by_cases hquote : c = '"'
  · subst hquote
    refine .inr ⟨['"'], cs, pos + 1, ?_, rfl, List.cons_ne_nil _ _, hnext, skipEnclosed_cons _⟩
    rw [skipString, hpeek]
    rfl
  by_cases hback : c = '\\'
  · subst hback
    exact skipsStrings_escape hi hs h (by rwa [byteLength_cons]) start below
  · refine further n (Nat.le_refl _) (by omega) hquote hback ?_
    rw [skipString_plain hpeek hquote hback, hsize]

end

/-- **Both functions that skip do what the enclosures do.** -/
theorem skips (text : List Char) (base n : Nat) : SkipsInterpolations text base n ∧ SkipsStrings text base n := by
  induction n using Nat.strong_induction_on with
  | _ n ih =>
    obtain - | n := n
    · exact ⟨fun _ h => absurd h (Nat.not_lt_zero _), fun _ h => absurd h (Nat.not_lt_zero _)⟩
    · have hi : ∀ m ≤ n, SkipsInterpolations text base m := fun m hm => (ih m (Nat.lt_succ_of_le hm)).1
      have hs : ∀ m ≤ n, SkipsStrings text base m := fun m hm => (ih m (Nat.lt_succ_of_le hm)).2
      exact ⟨skipsInterpolations_succ hi (hs n (Nat.le_refl n)), skipsStrings_succ hi hs⟩

end Bytewise
end DefTable
