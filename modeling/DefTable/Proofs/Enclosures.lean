import DefTable.Proofs.PrintedWording
import DefTable.Proofs.OffsetShift

/-!
# What a text does to the enclosures

An interpolation is skipped before it is cut into tokens, by a scanner of its own that only knows what a character is
inside of. What a text does to the enclosures (`Enclosure.after`) tells where skipping ends
(`Token.skip_interpolation`), and can be followed token by token: parentheses change the innermost interpolation,
other tokens leave the enclosures as they are, and so do blanks and complete comments.
-/

namespace DefTable

open Text

namespace Token

/-! ## Enclosures behind a text -/

namespace Enclosure

/-- An enclosure, wherever it starts. -/
def unplaced : Enclosure → Enclosure
  | .interpolation opened _ => .interpolation opened 0
  | .string _ => .string 0
  | .escape _ => .escape 0
  | .comment => .comment

theorem step_unplaced (offset : Nat) (c : Char) (es : List Enclosure) :
    (step offset c es).map unplaced = step 0 c (es.map unplaced) := by
  obtain - | ⟨e, below⟩ := es
  · rfl
  cases e with
  | interpolation opened start | string start =>
    rw [List.map_cons, unplaced]
    unfold step
    dsimp only
    split <;> rfl
  | escape start | comment =>
    rw [List.map_cons, unplaced, step, step]
    split <;> rfl

/-- What the place behind a text is inside of. -/
def after (es : List Enclosure) (cs : List Char) : List Enclosure :=
  cs.foldl (fun es c => step 0 c es) es

@[simp] theorem after_nil (es : List Enclosure) : after es [] = es := rfl

@[simp] theorem after_cons (es : List Enclosure) (c : Char) (cs : List Char) :
    after es (c :: cs) = after (step 0 c es) cs := rfl

theorem after_append (es : List Enclosure) (as bs : List Char) : after es (as ++ bs) = after (after es as) bs :=
  List.foldl_append

/-- Outside of everything a text is not looked at. -/
theorem nil_after : ∀ cs : List Char, after [] cs = []
  | [] => rfl
  | _ :: cs => nil_after cs

theorem step_below {offset : Nat} {c : Char} {es : List Enclosure} (hes : es ≠ []) (below : List Enclosure) :
    step offset c (es ++ below) = step offset c es ++ below := by
  obtain - | ⟨e, es⟩ := es
  · exact absurd rfl hes
  rw [List.cons_append]
  unfold step
  cases e <;> dsimp only <;> split <;> rfl

/-- What is around the enclosures that a text does not leave does not matter to it. -/
theorem after_below (below : List Enclosure) : ∀ {cs : List Char} {es : List Enclosure}, after es cs ≠ [] →
    after (es ++ below) cs = after es cs ++ below
  | [], _, _ => rfl
  | c :: cs, es, h => by
    have hes : es ≠ [] := by
      rintro rfl
      exact h (nil_after _)
    have hrest : after (step 0 c es) cs ≠ [] := h
    rw [after_cons, step_below hes, after_below below hrest]
    rfl

theorem after_unplaced : ∀ (cs : List Char) (es : List Enclosure),
    (after es cs).map unplaced = after (es.map unplaced) cs
  | [], _ => rfl
  | c :: cs, es => by rw [after_cons, after_cons, after_unplaced cs, step_unplaced]

theorem based_after : ∀ (cs : List Char) {es : List Enclosure}, Based es → after es cs = [] ∨ Based (after es cs)
  | [], _, h => .inr h
  | c :: cs, es, h => by
    rcases h.step 0 c with hstep | hstep
    · rw [after_cons, hstep]
      exact .inl (nil_after cs)
    · exact based_after cs hstep

/-- Only the parenthesis that closes the outermost interpolation leaves it. -/
theorem eq_of_step_eq_nil {es : List Enclosure} (h : Based es) {c : Char} (hstep : step 0 c es = []) :
    c = ')' ∧ ∃ start, es = [.interpolation 0 start] := by
  obtain - | ⟨e, below⟩ := es
  · exact h.elim
  cases e with
  | interpolation opened start =>
    unfold step at hstep
    dsimp only at hstep
    split at hstep <;> cases hstep
    exact ⟨rfl, start, rfl⟩
  | string start | escape start | comment =>
    unfold step at hstep
    dsimp only at hstep
    split at hstep <;> cases hstep
    exact h.elim

end Enclosure

open Enclosure

/-! ## Where skipping ends -/

theorem after_of_skipEnclosed : ∀ {cs : List Char} {es : List Enclosure} {offset : Nat} {text : List Char}
    {next : Cursor}, skipEnclosed es offset cs = .ok (text, next) → es ≠ [] →
    ∃ c, cs = text ++ c :: next.rest ∧ after (es.map unplaced) text ≠ [] ∧
      step 0 c (after (es.map unplaced) text) = []
  | [], _, _, _, _, h, _ => by cases h
  | c :: cs, es, offset, text, next, h, hes => by
    have hmap := step_unplaced offset c es
    unfold skipEnclosed at h
    split at h
    · next hstep =>
      cases h
      rw [hstep] at hmap
      exact ⟨c, rfl, by simpa using hes, hmap.symm⟩
    · next hstep =>
      split at h
      · next h' =>
        cases h
        obtain ⟨d, rfl, hafter, hclose⟩ := after_of_skipEnclosed h' hstep
        rw [hmap] at hafter hclose
        exact ⟨d, rfl, hafter, hclose⟩
      · cases h

theorem skipEnclosed_of_after {c : Char} (rest : List Char) : ∀ {text : List Char} {es : List Enclosure}
    (offset : Nat), after (es.map unplaced) text ≠ [] → step 0 c (after (es.map unplaced) text) = [] →
    ∃ offset', skipEnclosed es offset (text ++ c :: rest) = .ok (text, ⟨offset', rest⟩)
  | [], es, offset, _, hclose => by
    rw [after_nil, ← step_unplaced offset, List.map_eq_nil_iff] at hclose
    exact ⟨_, by rw [List.nil_append, skipEnclosed, hclose]⟩
  | d :: text, es, offset, hafter, hclose => by
    rw [after_cons, ← step_unplaced offset] at hafter hclose
    obtain ⟨offset', ih⟩ := skipEnclosed_of_after rest (offset + d.utf8Size) hafter hclose
    refine ⟨offset', ?_⟩
    rw [List.cons_append, skipEnclosed]
    split
    · next hnil =>
      rw [hnil] at hafter
      exact absurd (nil_after _) hafter
    · rw [ih]

/-- Skipping an interpolation ends at a parenthesis, and the text in front of it leads back into the interpolation. -/
theorem interpolation_of_skipEnclosed {start offset : Nat} {cs text : List Char} {next : Cursor}
    (h : skipEnclosed [.interpolation 0 start] offset cs = .ok (text, next)) :
    cs = text ++ ')' :: next.rest ∧ after [.interpolation 0 0] text = [.interpolation 0 0] := by
  obtain ⟨c, hcs, hafter, hclose⟩ := after_of_skipEnclosed h (List.cons_ne_nil _ _)
  have hbased : Based (after [.interpolation 0 0] text) := by
    have hbase : Based [.interpolation 0 0] := trivial
    exact (based_after text hbase).resolve_left hafter
  obtain ⟨rfl, start', heq⟩ := eq_of_step_eq_nil hbased hclose
  have hunplaced := after_unplaced text [.interpolation 0 0]
  rw [List.map_singleton, unplaced, heq, List.map_singleton, unplaced] at hunplaced
  exact ⟨hcs, heq.trans hunplaced.symm⟩

/-- **An interpolation is skipped to its own parenthesis.** -/
theorem skip_interpolation {text : List Char} (h : after [.interpolation 0 0] text = [.interpolation 0 0])
    (start offset : Nat) (rest : List Char) :
    ∃ offset', skipEnclosed [.interpolation 0 start] offset (text ++ ')' :: rest) = .ok (text, ⟨offset', rest⟩) := by
  refine skipEnclosed_of_after rest offset ?_ ?_
  · rw [List.map_singleton, unplaced, h]
    exact List.cons_ne_nil _ _
  · rw [List.map_singleton, unplaced, h]
    rfl

/-! ## Quiet characters -/

/-- A character that means nothing where a string is skipped: no parenthesis, no quote, and no start of a comment. -/
def Quiet (c : Char) : Prop :=
  c ≠ '(' ∧ c ≠ ')' ∧ c ≠ '"' ∧ c ≠ '#'

instance : DecidablePred Quiet :=
  fun _ => inferInstanceAs (Decidable (_ ∧ _))

theorem quiet_of_apply {p : Char → Bool} {c : Char} (hc : p c = true) (hopen : p '(' = false) (hclose : p ')' = false)
    (hquote : p '"' = false) (hcomment : p '#' = false) : Quiet c :=
  ⟨ne_of_apply_ne hc hopen, ne_of_apply_ne hc hclose, ne_of_apply_ne hc hquote, ne_of_apply_ne hc hcomment⟩

theorem quiet_of_isIdentContinue {c : Char} (h : isIdentContinue c = true) : Quiet c :=
  quiet_of_apply h rfl rfl rfl rfl

theorem quiet_of_isDigit {c : Char} (h : c.isDigit = true) : Quiet c :=
  quiet_of_apply h rfl rfl rfl rfl

/-- Fixed texts are checked character by character. -/
theorem quiet_of_all {cs : List Char} (h : cs.all (fun c => decide (Quiet c)) = true) : ∀ c ∈ cs, Quiet c := by
  simpa using h

theorem quiet_splitName (cs : List Char) : ∀ c ∈ (splitName cs).1, Quiet c := by
  intro c hc
  rcases mem_splitName hc with hc | rfl
  · exact quiet_of_isIdentContinue hc
  · decide

theorem quiet_of_splitName {cs : List Char} (h : splitName cs = (cs, [])) : ∀ c ∈ cs, Quiet c := by
  have hall := quiet_splitName cs
  rwa [h] at hall

theorem quiet_splitDigits (cs : List Char) : ∀ c ∈ (splitDigits cs).1, Quiet c :=
  fun c hc => quiet_of_isDigit (isDigit_of_splitDigits c hc)

theorem quiet_splitFraction (cs : List Char) : ∀ c ∈ (splitFraction cs).1, Quiet c := by
  have hdot : Quiet '.' := by decide
  fun_cases splitFraction cs with
  | case1 => simp
  | case2 cs => simpa [hdot] using quiet_splitDigits cs
  | case3 => simp

theorem quiet_splitExponent (cs : List Char) : ∀ c ∈ (splitExponent cs).1, Quiet c := by
  intro c hc
  rcases mem_splitExponent hc with rfl | rfl | rfl | rfl | hd
  · decide
  · decide
  · decide
  · decide
  · exact quiet_of_isDigit hd

theorem quiet_splitNumber (cs : List Char) : ∀ c ∈ (splitNumber cs).1, Quiet c := by
  intro c hc
  rcases List.mem_append.1 hc with hc | hc
  · rcases List.mem_append.1 hc with hc | hc
    · exact quiet_splitDigits _ c hc
    · exact quiet_splitFraction _ c hc
  · exact quiet_splitExponent _ c hc

/-- All tokens but parentheses are made of quiet characters. -/
theorem quiet_spelling {t : Token} (ht : t.WellSpelled) (hparen : Wording.isParen t = false) :
    ∀ c ∈ t.spelling.toList, Quiet c := by
  cases t with
  | ident name => exact quiet_of_splitName ht.1.1
  | keyword k => cases k <;> exact quiet_of_all rfl
  | field name =>
    have hdot : Quiet '.' := by decide
    rw [spelling, String.toList_append]
    simpa [hdot] using quiet_of_splitName ht.1
  | «variable» name =>
    obtain ⟨cs, hname, hcs⟩ := ht
    have hsigil : Quiet '$' := by decide
    rw [spelling, hname]
    simpa [hsigil] using quiet_of_splitName hcs.2
  | format name =>
    obtain ⟨cs, hname, hcs⟩ := ht
    have hsigil : Quiet '@' := by decide
    rw [spelling, hname]
    simpa [hsigil] using quiet_of_splitName hcs.2
  | number digits =>
    have hall := quiet_splitNumber digits.toList
    rwa [ht.1] at hall
  | op o => cases o <;> exact quiet_of_all rfl
  | leftParen => cases hparen
  | rightParen => cases hparen
  | _ => exact quiet_of_all rfl

/-! ## Tokens -/

section
variable {d : Nat} {below : List Enclosure}

theorem after_quiet : ∀ {cs : List Char}, (∀ c ∈ cs, Quiet c) →
    after (.interpolation d 0 :: below) cs = .interpolation d 0 :: below
  | [], _ => rfl
  | c :: cs, h => by
    obtain ⟨hopen, hclose, hquote, hcomment⟩ := h c List.mem_cons_self
    have hstep : step 0 c (.interpolation d 0 :: below) = .interpolation d 0 :: below := by
      simp [step, hclose]
    rw [after_cons, hstep, after_quiet fun c hc => h c (List.mem_cons_of_mem _ hc)]

/-- Behind a token as many parentheses are open as `Wording.nest` counts. -/
theorem after_token {t : Token} (ht : t.WellSpelled) :
    after (.interpolation d 0 :: below) t.spelling.toList =
      match Wording.nest d t with
      | some d' => .interpolation d' 0 :: below
      | none => below := by
  by_cases hparen : Wording.isParen t = false
  · rw [Wording.nest_of_not_isParen hparen, after_quiet (quiet_spelling ht hparen)]
  · cases t with
    | leftParen => rfl
    | rightParen => cases d <;> rfl
    | _ => exact absurd rfl hparen

end

end Token
end DefTable
