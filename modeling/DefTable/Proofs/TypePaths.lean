import DefTable.Rendering
import DefTable.Target.Lexeme
import Mathlib.Data.List.TakeWhile

/-!
# Paths of types

A type consists of paths and other characters (`pieces`). A path is as long as it can be: it goes on with characters of
names and with colons next to each other, so there is only one way to tell the paths of a type (`pieces_eq_iff`). Names
that have two colons behind them each make one path (`pathAt_ofNames`).
-/

namespace DefTable.Qualifier

/-! ## Paths of a type -/

/-- Whether a character can be part of a name, as the language has it or as the scan does. The sign is the one of names
in raw form. -/
def isNameChar (c : Char) : Bool :=
  Target.Lexeme.isWordStart c || Text.isNameContinue c || continuesName c || c = '#'

/-- Whether a text goes on with a path behind a character: with a character of a name, or with a colon that stands next
to another one. -/
def inPath (before : Option Char) : List Char → Bool
  | [] => false
  | c :: cs => isNameChar c || c = ':' && (before = some ':' || cs.head? = some ':')

/-- As much of a path as a text goes on with behind a character. -/
def pathAt (before : Option Char) : List Char → List Char
  | [] => []
  | c :: cs => if inPath before (c :: cs) then c :: pathAt (some c) cs else []

/-- A part of a type: a whole path, or a character that is part of none. -/
inductive Piece where
  | path (text : List Char)
  | sign (c : Char)
deriving DecidableEq, Repr

/-- A piece with the text that a path is replaced with. -/
def Piece.print (f : List Char → List Char) : Piece → List Char
  | path p => f p
  | sign c => [c]

/-- The pieces of a type, with paths that are as long as they can be. -/
def pieces : List Char → List Piece
  | [] => []
  | c :: cs =>
    if inPath none (c :: cs) then
      .path (c :: pathAt (some c) cs) :: pieces (cs.drop (pathAt (some c) cs).length)
    else .sign c :: pieces cs
termination_by cs => cs.length
decreasing_by
  all_goals simp only [List.length_drop, List.length_cons]; omega

theorem inPath_append {before : Option Char} {cs : List Char} (h : inPath before cs = true) (rest : List Char) :
    inPath before (cs ++ rest) = true := by
  match cs, h with
  | [c], h =>
    have h : isNameChar c = true ∨ c = ':' ∧ before = some ':' := by simpa [inPath] using h
    simp only [inPath, List.cons_append, Bool.or_eq_true, Bool.and_eq_true, decide_eq_true_eq]
    exact h.imp_right fun h => ⟨h.1, .inl h.2⟩
  | _ :: _ :: _, h => exact h

theorem not_inPath_cons {before : Option Char} {c : Char} {cs : List Char} (h : inPath before (c :: cs) = false) :
    isNameChar c = false ∧ (c = ':' → before ≠ some ':' ∧ cs.head? ≠ some ':') := by
  simpa [inPath, or_imp, not_or] using h

theorem inPath_none {before : Option Char} {cs : List Char} (h : inPath before cs = false) : inPath none cs = false := by
  cases cs with
  | nil => rfl
  | cons c cs =>
    obtain ⟨hname, hcolon⟩ := not_inPath_cons h
    simp only [inPath, hname, Bool.false_or, Bool.and_eq_false_iff, decide_eq_false_iff_not]
    by_cases hc : c = ':'
    · exact .inr (by simpa using (hcolon hc).2)
    · exact .inl hc

theorem inPath_right {near far rest : List Char} (h : inPath (far ++ near).getLast? rest = false) :
    inPath near.getLast? rest = false := by
  rw [List.getLast?_append] at h
  cases hnear : near.getLast? with
  | none => exact inPath_none h
  | some c => rwa [hnear] at h

theorem getLast?_cons_or (c : Char) (cs : List Char) (before : Option Char) :
    (c :: cs).getLast?.or before = cs.getLast?.or (some c) := by
  rw [List.getLast?_cons]
  cases cs.getLast? <;> rfl

theorem continuesName_of_not {c : Char} (h : isNameChar c = false) : continuesName c = false := by
  simp only [isNameChar, Bool.or_eq_false_iff] at h
  exact h.1.2

theorem pathAt_begins : ∀ (before : Option Char) (cs : List Char), pathAt before cs <+: cs
  | _, [] => List.nil_prefix
  | before, c :: cs => by
    rw [pathAt]
    split
    · exact List.cons_prefix_cons.2 ⟨rfl, pathAt_begins (some c) cs⟩
    · exact List.nil_prefix

theorem pathAt_append_drop (before : Option Char) (cs : List Char) :
    pathAt before cs ++ cs.drop (pathAt before cs).length = cs :=
  List.prefix_iff_eq_append.1 (pathAt_begins before cs)

/-- A path is as long as it can be. -/
theorem not_inPath_pathAt : ∀ (c : Char) (cs : List Char),
    inPath (c :: pathAt (some c) cs).getLast? (cs.drop (pathAt (some c) cs).length) = false
  | _, [] => rfl
  | c, d :: ds => by
    rw [pathAt]
    split
    · rw [List.getLast?_cons_cons, List.length_cons, List.drop_succ_cons]
      exact not_inPath_pathAt d ds
    · next h => exact Bool.not_eq_true _ ▸ h

/-- Each character of a path but the first one goes on with it. -/
theorem inPath_of_pathAt : ∀ {before : Option Char} (cs : List Char) {rest : List Char},
    pathAt before (cs ++ rest) = cs ++ rest → rest ≠ [] → inPath (cs.getLast?.or before) rest = true
  | before, [], c :: rest, h, _ => by
    rw [List.nil_append, pathAt] at h
    split at h
    · assumption
    · cases h
  | before, c :: cs, rest, h, hrest => by
    rw [List.cons_append, pathAt] at h
    split at h
    · rw [getLast?_cons_or]
      exact inPath_of_pathAt cs (List.cons.inj h).2 hrest
    · cases h

/-- How pieces stand next to each other in a type: paths are whole, and other characters are part of none. -/
def Separate : List Piece → Prop
  | [] => True
  | .path p :: ps =>
    p ≠ [] ∧ pathAt none p = p ∧ inPath p.getLast? (ps.flatMap (Piece.print id)) = false ∧ Separate ps
  | .sign c :: ps => inPath none (c :: ps.flatMap (Piece.print id)) = false ∧ Separate ps

theorem pathAt_eq_nil {before : Option Char} {cs : List Char} (h : inPath before cs = false) : pathAt before cs = [] := by
  cases cs with
  | nil => rfl
  | cons c cs => rw [pathAt, h, if_neg Bool.false_ne_true]

theorem pathAt_eq_self_cons {before : Option Char} {c : Char} {cs : List Char} (h : pathAt before (c :: cs) = c :: cs) :
    inPath before (c :: cs) = true ∧ pathAt (some c) cs = cs := by
  rw [pathAt] at h
  split at h
  · next hc => exact ⟨hc, (List.cons.inj h).2⟩
  · cases h

theorem pathAt_pathAt : ∀ (before : Option Char) (cs : List Char), pathAt before (pathAt before cs) = pathAt before cs
  | _, [] => rfl
  | before, c :: cs => by
    cases hc : inPath before (c :: cs) with
    | false => rw [pathAt_eq_nil hc, pathAt]
    | true =>
      have hhead : c = ':' → cs.head? = some ':' → (pathAt (some c) cs).head? = some ':' := by
        rintro rfl hcs
        obtain ⟨ds, rfl⟩ := List.head?_eq_some_iff.1 hcs
        simp [pathAt, inPath]
      have hpath : inPath before (c :: pathAt (some c) cs) = true := by
        simp only [inPath, Bool.or_eq_true, Bool.and_eq_true, decide_eq_true_eq] at hc ⊢
        exact hc.imp_right fun ⟨hcolon, hc⟩ => ⟨hcolon, hc.imp_right (hhead hcolon)⟩
      rw [pathAt, if_pos hc, pathAt, if_pos hpath, pathAt_pathAt]

theorem pathAt_append {rest : List Char} : ∀ {before : Option Char} {p : List Char}, pathAt before p = p →
    inPath (p.getLast?.or before) rest = false → pathAt before (p ++ rest) = p
  | _, [], _, hrest => pathAt_eq_nil hrest
  | before, c :: p, hp, hrest => by
    obtain ⟨hc, hp⟩ := pathAt_eq_self_cons hp
    have hon : inPath before (c :: (p ++ rest)) = true := inPath_append hc rest
    rw [getLast?_cons_or] at hrest
    rw [List.cons_append, pathAt, if_pos hon, pathAt_append hp hrest]

theorem separate_pieces (type : List Char) :
    (pieces type).flatMap (Piece.print id) = type ∧ Separate (pieces type) := by
  fun_induction pieces type with
  | case1 => exact ⟨rfl, trivial⟩
  | case2 c cs h ih =>
    obtain ⟨htext, hseparate⟩ := ih
    refine ⟨?_, List.cons_ne_nil _ _, ?_, ?_, hseparate⟩
    · rw [List.flatMap_cons, htext]
      exact congrArg (c :: ·) (pathAt_append_drop (some c) cs)
    · have hpath := pathAt_pathAt none (c :: cs)
      rwa [pathAt, if_pos h] at hpath
    · rw [htext]
      exact not_inPath_pathAt c cs
  | case3 c cs h ih =>
    obtain ⟨htext, hseparate⟩ := ih
    refine ⟨?_, ?_, hseparate⟩
    · rw [List.flatMap_cons, htext]
      rfl
    · rw [htext]
      exact Bool.not_eq_true _ ▸ h

theorem pieces_text : ∀ {ps : List Piece}, Separate ps → pieces (ps.flatMap (Piece.print id)) = ps
  | [], _ => by
    rw [List.flatMap_nil, pieces]
  | .sign c :: ps, ⟨hc, hps⟩ => by
    rw [List.flatMap_cons, Piece.print, List.singleton_append, pieces, hc, if_neg Bool.false_ne_true, pieces_text hps]
  | .path (c :: p) :: ps, ⟨_, hp, hend, hps⟩ => by
    obtain ⟨hc, hp⟩ := pathAt_eq_self_cons hp
    rw [← Option.or_none (o := (c :: p).getLast?), getLast?_cons_or] at hend
    have hpath : pathAt (some c) (p ++ ps.flatMap (Piece.print id)) = p := pathAt_append hp hend
    have hon : inPath none (c :: (p ++ ps.flatMap (Piece.print id))) = true := inPath_append hc _
    rw [List.flatMap_cons, Piece.print, id, List.cons_append, pieces, if_pos hon, hpath, List.drop_left, pieces_text hps]
  | .path [] :: ps, h => absurd rfl h.1

/-- **The pieces of a type are the only whole paths and other characters that it consists of.** -/
theorem pieces_eq_iff {type : List Char} {ps : List Piece} :
    pieces type = ps ↔ ps.flatMap (Piece.print id) = type ∧ Separate ps := by
  constructor
  · rintro rfl
    exact separate_pieces type
  · rintro ⟨rfl, hseparate⟩
    exact pieces_text hseparate

theorem Separate.pathAt_eq {p : List Char} : ∀ {ps : List Piece}, Separate ps → .path p ∈ ps → pathAt none p = p
  | .sign c :: ps, ⟨_, hps⟩, hp => by
    rcases List.mem_cons.1 hp with h | h
    · cases h
    · exact hps.pathAt_eq h
  | .path p' :: ps, ⟨_, hpath, _, hps⟩, hp => by
    rcases List.mem_cons.1 hp with h | h
    · cases h
      exact hpath
    · exact hps.pathAt_eq h

theorem pathAt_of_mem_pieces {type p : List Char} (h : .path p ∈ pieces type) : pathAt none p = p :=
  (separate_pieces type).2.pathAt_eq h

/-! ## Names with colons behind them -/

/-- A word of the language, in raw form or not, as a name of a path. -/
structure Name where
  first : Char
  more : List Char
  isWord : (Target.Lexeme.word? first more).any (·.2 = []) = true

def Name.text (name : Name) : List Char :=
  name.first :: name.more

theorem isNameChar_of_isWordStart {c : Char} (h : Target.Lexeme.isWordStart c = true) : isNameChar c = true := by
  simp only [isNameChar, h, Bool.true_or]

theorem isNameChar_of_afterWord {cs : List Char} (h : Target.Lexeme.afterWord cs = []) :
    ∀ c ∈ cs, isNameChar c = true := fun c hc => by
  have hc : Text.isNameContinue c = true := List.dropWhile_eq_nil_iff.1 h c hc
  simp only [isNameChar, hc, Bool.or_true, Bool.true_or]

theorem Name.forall_isNameChar (name : Name) : ∀ c ∈ name.text, isNameChar c = true := by
  obtain ⟨first, more, h⟩ := name
  unfold Target.Lexeme.word? at h
  split at h
  · next c cs =>
    split at h
    · next hc =>
      simp only [Bool.and_eq_true] at hc
      have hend : Target.Lexeme.afterWord cs = [] := by simpa using h
      have hmark : isNameChar 'r' = true ∧ isNameChar '#' = true := by decide
      rw [text, List.forall_mem_cons, List.forall_mem_cons, List.forall_mem_cons]
      exact ⟨hmark.1, hmark.2, isNameChar_of_isWordStart hc.1, isNameChar_of_afterWord hend⟩
    · cases h
  · split at h
    · next hc =>
      have hend : Target.Lexeme.afterWord more = [] := by simpa using h
      rw [text, List.forall_mem_cons]
      exact ⟨isNameChar_of_isWordStart hc, isNameChar_of_afterWord hend⟩
    · cases h

/-- Names, each with two colons behind it. -/
def ofNames (names : List Name) : List Char :=
  names.flatMap fun name => name.text ++ [':', ':']

theorem pathAt_name : ∀ {name : List Char} (before : Option Char) (cs : List Char),
    (∀ c ∈ name, isNameChar c = true) → pathAt before (name ++ cs) = name ++ pathAt (name.getLast?.or before) cs
  | [], _, _, _ => rfl
  | c :: name, before, cs, h => by
    obtain ⟨hc, hname⟩ := List.forall_mem_cons.1 h
    have hon : inPath before (c :: (name ++ cs)) = true := by rw [inPath, hc, Bool.true_or]
    rw [List.cons_append, pathAt, if_pos hon, pathAt_name (some c) cs hname, getLast?_cons_or,
      List.cons_append]

theorem pathAt_colons (before : Option Char) (cs : List Char) :
    pathAt before (':' :: ':' :: cs) = ':' :: ':' :: pathAt (some ':') cs := by
  simp [pathAt, inPath]

theorem pathAt_ofNames : ∀ (before : Option Char) (names : List Name), pathAt before (ofNames names) = ofNames names
  | _, [] => rfl
  | before, name :: names => by
    rw [ofNames, List.flatMap_cons, List.append_assoc, pathAt_name before _ name.forall_isNameChar, List.cons_append,
      List.cons_append, List.nil_append, pathAt_colons]
    exact congrArg (fun cs => name.text ++ ':' :: ':' :: cs) (pathAt_ofNames (some ':') names)

theorem colons_ofNames : ∀ (name : Name) (names : List Name), [':', ':'] <:+ ofNames (name :: names)
  | name, [] => ⟨name.text, (List.append_nil _).symm⟩
  | _, next :: names => (colons_ofNames next names).trans (List.suffix_append _ _)

end DefTable.Qualifier
