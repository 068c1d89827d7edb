import DefTable.Proofs.TypePaths

/-!
# Qualifiers in types

The scan that removes a qualifier from a type treats each path of the type on its own (`stripEach_eq_flatMap`), but not
always as the path is treated where it stands alone in an entry: the characters before a match are forgotten with the
match, so that a match right behind another one counts as the beginning of a path. A type is printed with its paths as
they are printed in entries exactly if no path has such matches behind its beginning, or matches within a name that are
not seen to be there (`strippedType_eq_iff`).
-/

namespace DefTable

namespace Qualifier

/-! ## The scan of a path -/

/-- What the scan needs of a qualifier: it is a path that begins with a name and ends with colons. -/
structure IsQualifier (q : List Char) : Prop where
  path : pathAt none q = q
  name : q.head?.any isNameChar = true
  colons : [':', ':'] <:+ q

theorem IsQualifier.quiet {q : List Char} (h : IsQualifier q) : q.getLast?.any continuesName = false := by
  obtain ⟨names, rfl⟩ := h.colons
  have hcolon : continuesName ':' = false := by decide
  simpa using hcolon

section
variable {q : Char} {qs : List Char} {b rest cs : List Char} {w : Option Char} {c : Char}

theorem stripRest_inside (h : (q :: qs).isPrefixOf (c :: cs) = true) (hin : insidePath b w = true) :
    stripRest q qs b w (c :: cs) =
      q :: qs ++ stripRest q qs [] (q :: qs).getLast? (cs.drop qs.length) := by
  rw [stripRest, if_pos h, if_pos hin]

theorem stripRest_first (h : (q :: qs).isPrefixOf (c :: cs) = true) (hin : insidePath b w = false) :
    stripRest q qs b w (c :: cs) = stripRest q qs [] (b.head?.or w) (cs.drop qs.length) := by
  rw [stripRest, if_pos h, hin]
  rfl

theorem stripRest_skip (h : (q :: qs).isPrefixOf (c :: cs) = false) :
    stripRest q qs b w (c :: cs) = c :: stripRest q qs (c :: b) w cs := by
  rw [stripRest, h]
  rfl

theorem eq_append_drop_of_isPrefixOf (h : (q :: qs).isPrefixOf (c :: cs) = true) :
    c :: cs = q :: qs ++ cs.drop qs.length :=
  (List.prefix_iff_eq_append.1 (List.isPrefixOf_iff_prefix.1 h)).symm

theorem length_stripRest_le (b : List Char) (w : Option Char) (cs : List Char) :
    (stripRest q qs b w cs).length ≤ cs.length := by
  fun_induction stripRest q qs b w cs with
  | case1 => exact Nat.le_refl _
  | case2 b w c cs h hin ih =>
    rw [eq_append_drop_of_isPrefixOf h, List.length_append, List.length_append]
    exact Nat.add_le_add_left ih _
  | case3 b w c cs h hin ih =>
    rw [eq_append_drop_of_isPrefixOf h, List.length_append]
    exact Nat.le_trans ih (Nat.le_add_left _ _)
  | case4 b w c cs h ih => exact Nat.succ_le_succ ih

theorem insidePath_written (hw : w.any continuesName = false) :
    insidePath b w = insidePath b none := by
  cases b with
  | nil => exact hw
  | cons => rfl

/-- A last written character that is not part of a name is as good as none. -/
theorem stripRest_written (hw : w.any continuesName = false) :
    stripRest q qs b w cs = stripRest q qs b none cs := by
  fun_induction stripRest q qs b w cs with
  | case1 => rw [stripRest]
  | case2 b w c cs h hin =>
    rw [insidePath_written hw] at hin
    rw [stripRest_inside h hin]
  | case3 b w c cs h hin ih =>
    rw [insidePath_written hw, Bool.not_eq_true] at hin
    rw [stripRest_first h hin]
    cases b with
    | nil => exact ih hw
    | cons => rfl
  | case4 b w c cs h ih => rw [stripRest_skip (Bool.not_eq_true _ ▸ h), ih hw]

/-- Where no path is under way, the characters before do not matter to a match, unless two colons are torn apart. -/
theorem insidePath_append {a : List Char} (hout : insidePath b w = false)
    (hcolons : b.head? = some ':' → a.getLast? ≠ some ':') :
    insidePath (a ++ b) w = insidePath a none := by
  match a, hcolons with
  | [], _ => exact hout
  | [c], hcolons =>
    have hcolon : [':', ':'].isPrefixOf (c :: b) = [':', ':'].isPrefixOf [c] := by
      match b, hcolons with
      | [], _ => rfl
      | d :: b, hcolons =>
        have h : ':' = c → ':' ≠ d := fun hc hd => hcolons (congrArg some hd.symm) (congrArg some hc.symm)
        simpa [List.isPrefixOf] using h
    rw [insidePath, insidePath, List.singleton_append, hcolon]
    rfl
  | _ :: _ :: _, _ => simp [insidePath, List.isPrefixOf]

/-- **The scan starts anew where no path is under way.** -/
theorem stripRest_append {a : List Char} (hout : insidePath b w = false)
    (hcolons : b.head? = some ':' → (a.reverse ++ cs).head? ≠ some ':') :
    stripRest q qs (a ++ b) w cs = stripRest q qs a none cs := by
  induction cs generalizing a with
  | nil => rw [stripRest, stripRest]
  | cons c cs ih =>
    cases h : (q :: qs).isPrefixOf (c :: cs) with
    | false =>
      rw [stripRest_skip h, stripRest_skip h, ← List.cons_append, ih]
      rwa [List.reverse_cons, List.append_assoc]
    | true =>
      have ha : b.head? = some ':' → a.getLast? ≠ some ':' := by
        intro hb hn
        apply hcolons hb
        rw [List.head?_append, List.head?_reverse, hn]
        rfl
      have hsame := insidePath_append hout ha
      cases hin : insidePath a none with
      | true => rw [stripRest_inside h (hsame.trans hin), stripRest_inside h hin]
      | false =>
        rw [stripRest_first h (hsame.trans hin), stripRest_first h hin]
        cases a with
        | cons => rfl
        | nil =>
          refine stripRest_written ?_
          simp only [insidePath, Bool.or_eq_false_iff] at hout
          exact hout.2

theorem stripRest_restart (hout : insidePath b w = false)
    (hcolons : b.head? = some ':' → cs.head? ≠ some ':') :
    stripRest q qs b w cs = stripRest q qs [] none cs :=
  stripRest_append (a := []) hout hcolons

/-- A match does not reach beyond the end of a path. -/
theorem isPrefixOf_of_append (hq : IsQualifier (q :: qs)) (hcs : cs ≠ []) (hrest : inPath cs.getLast? rest = false)
    (h : (q :: qs).isPrefixOf (cs ++ rest) = true) : (q :: qs).isPrefixOf cs = true := by
  -- Else the path would be the beginning of a match that goes on behind it, as a path does; but the rest does not.
  rw [List.isPrefixOf_iff_prefix] at h ⊢
  rcases List.prefix_or_prefix_of_prefix h (List.prefix_append cs rest) with h' | ⟨more, hmore⟩
  · exact h'
  by_cases hnil : more = []
  · have hself : q :: qs = cs := by rw [← hmore, hnil, List.append_nil]
    exact hself ▸ List.prefix_rfl
  have hon : inPath cs.getLast? more = true := by
    have hon := inPath_of_pathAt cs (hmore ▸ hq.path) hnil
    rwa [Option.or_of_isSome (List.getLast?_isSome.2 hcs)] at hon
  obtain ⟨_, rfl⟩ : more <+: rest := (List.prefix_append_right_inj cs).1 (hmore ▸ h)
  rw [inPath_append hon] at hrest
  cases hrest

/-- No match begins at a character that is part of no path, and none of what stands before it matters behind it. -/
theorem stripRest_sign (hq : IsQualifier (q :: qs)) (hc : inPath b.head? (c :: cs) = false) :
    stripRest q qs b w (c :: cs) = c :: stripRest q qs [] none cs := by
  obtain ⟨hname, hcolon⟩ := not_inPath_cons hc
  have hmatch : (q :: qs).isPrefixOf (c :: cs) = false := by
    rw [Bool.eq_false_iff, Ne, List.isPrefixOf_iff_prefix, List.cons_prefix_cons]
    rintro ⟨rfl, -⟩
    rw [show isNameChar q = true from hq.name] at hname
    cases hname
  have hout : insidePath (c :: b) w = false := by
    rw [insidePath, Bool.or_eq_false_iff]
    refine ⟨?_, continuesName_of_not hname⟩
    rw [Bool.eq_false_iff, Ne, List.isPrefixOf_iff_prefix, List.cons_prefix_cons]
    rintro ⟨rfl, _, rfl⟩
    exact (hcolon rfl).1 rfl
  rw [stripRest_skip hmatch, stripRest_restart hout fun h => (hcolon (Option.some.inj h)).2]

theorem isPrefixOf_append (h : (q :: qs).isPrefixOf (c :: cs) = true) (rest : List Char) :
    (q :: qs).isPrefixOf (c :: (cs ++ rest)) = true := by
  rw [List.isPrefixOf_iff_prefix] at h ⊢
  exact h.trans (List.prefix_append (c :: cs) rest)

theorem drop_append (h : (q :: qs).isPrefixOf (c :: cs) = true) :
    (cs ++ rest).drop qs.length = cs.drop qs.length ++ rest := by
  have hlength := (List.cons_prefix_cons.1 (List.isPrefixOf_iff_prefix.1 h)).2.length_le
  rw [List.drop_append_of_le_length hlength]

theorem inPath_drop (h : (q :: qs).isPrefixOf (c :: cs) = true)
    (hrest : inPath (b.reverse ++ c :: cs).getLast? rest = false) :
    inPath (([] : List Char).reverse ++ cs.drop qs.length).getLast? rest = false := by
  rw [eq_append_drop_of_isPrefixOf h, ← List.append_assoc] at hrest
  exact inPath_right hrest

/-- What stands behind a path is scanned on its own. -/
theorem stripRest_path (hq : IsQualifier (q :: qs)) (hrest : inPath (b.reverse ++ cs).getLast? rest = false) :
    stripRest q qs b w (cs ++ rest) =
      stripRest q qs b w cs ++ stripRest q qs [] none rest := by
  -- By the steps of the scan in the path. The rest begins with a character of no path, behind which the scan starts anew.
  fun_induction stripRest q qs b w cs with
  | case1 b w =>
    cases rest with
    | nil => rw [List.append_nil, stripRest, stripRest, List.append_nil]
    | cons c rest =>
      have hb : inPath b.head? (c :: rest) = false := by
        rwa [List.append_nil, List.getLast?_reverse] at hrest
      rw [List.nil_append, List.nil_append, stripRest_sign hq hb, stripRest_sign (b := []) hq (inPath_none hb)]
  | case2 b w c cs h hin ih =>
    rw [List.cons_append, stripRest_inside (isPrefixOf_append h rest) hin, drop_append h, ih (inPath_drop h hrest),
      List.append_assoc]
  | case3 b w c cs h hin ih =>
    rw [List.cons_append, stripRest_first (isPrefixOf_append h rest) (Bool.not_eq_true _ ▸ hin), drop_append h,
      ih (inPath_drop h hrest)]
  | case4 b w c cs h ih =>
    have hskip : (q :: qs).isPrefixOf (c :: (cs ++ rest)) = false := by
      rw [Bool.eq_false_iff]
      exact fun hmatch => h (isPrefixOf_of_append hq (List.cons_ne_nil c cs) (inPath_right hrest) hmatch)
    rw [List.cons_append, stripRest_skip hskip, ih]
    · rfl
    · rwa [List.reverse_cons, List.append_assoc]

/-- **The scan treats each path of a type on its own.** -/
theorem stripEach_eq_flatMap {q : List Char} (hq : IsQualifier q) (type : List Char) :
    stripEach q type = (pieces type).flatMap (Piece.print (stripEach q)) := by
  match q, hq with
  | [], hq => cases hq.name
  | q :: qs, hq =>
    fun_induction pieces type with
    | case1 =>
      rw [stripEach, stripRest]
      rfl
    | case2 c cs h ih =>
      have hcut : c :: cs = c :: pathAt (some c) cs ++ cs.drop (pathAt (some c) cs).length :=
        congrArg (c :: ·) (pathAt_append_drop (some c) cs).symm
      rw [List.flatMap_cons, ← ih]
      conv => lhs; rw [hcut]
      exact stripRest_path hq (not_inPath_pathAt c cs)
    | case3 c cs h ih =>
      rw [List.flatMap_cons, ← ih]
      exact stripRest_sign (b := []) hq (Bool.not_eq_true _ ▸ h)

end

/-! ## Matches behind the beginning of a path -/

/-- The parts of a text between the matches of a qualifier, which are looked for from the beginning. -/
def cut (q : List Char) : List Char → List (List Char)
  | [] => [[]]
  | c :: cs =>
    if q.isPrefixOf (c :: cs) then [] :: cut q (cs.drop (q.length - 1)) else (cut q cs).modifyHead (c :: ·)
termination_by cs => cs.length
decreasing_by
  all_goals simp only [List.length_drop, List.length_cons]; omega

/-- Whether a path without the qualifier that it begins with has no further match but where the characters since the
match before it say that a path is under way. -/
def Firm (q p : List Char) : Prop :=
  ∀ part ∈ (cut q (strip q p)).dropLast, insidePath part.reverse none = true

instance (q p : List Char) : Decidable (Firm q p) :=
  inferInstanceAs (Decidable (∀ part ∈ (cut q (strip q p)).dropLast, insidePath part.reverse none = true))

theorem cut_ne_nil (q : List Char) : ∀ cs : List Char, cut q cs ≠ []
  | [] => by
    rw [cut]
    exact List.cons_ne_nil _ _
  | c :: cs => by
    rw [cut]
    split
    · exact List.cons_ne_nil _ _
    · exact fun h => cut_ne_nil q cs (List.modifyHead_eq_nil_iff.1 h)

theorem modifyHead_nothing (parts : List (List Char)) :
    parts.modifyHead (([] : List Char).reverse ++ ·) = parts := by
  cases parts <;> rfl

theorem modifyHead_behind (b : List Char) (c : Char) (parts : List (List Char)) :
    (parts.modifyHead (c :: ·)).modifyHead (b.reverse ++ ·) = parts.modifyHead ((c :: b).reverse ++ ·) := by
  cases parts <;> simp

section
variable {q : Char} {qs b cs : List Char} {w : Option Char}

/-- A scan leaves a text as it is exactly if it finds each match inside a path. -/
theorem stripRest_eq_self_iff (hq : IsQualifier (q :: qs)) (hw : w.any continuesName = false) :
    stripRest q qs b w cs = cs ↔
      ∀ part ∈ ((cut (q :: qs) cs).modifyHead (b.reverse ++ ·)).dropLast, insidePath part.reverse none = true := by
  fun_induction stripRest q qs b w cs with
  | case1 => simp [cut]
  | case2 b w c cs h hin ih =>
    rw [insidePath_written hw] at hin
    rw [modifyHead_nothing] at ih
    conv => lhs; rhs; rw [eq_append_drop_of_isPrefixOf h]
    rw [List.append_cancel_left_eq, ih hq.quiet, cut, if_pos h, List.modifyHead_cons,
      List.dropLast_cons_of_ne_nil (cut_ne_nil _ _), List.forall_mem_cons, List.append_nil, List.reverse_reverse]
    exact (and_iff_right hin).symm
  | case3 b w c cs h hin ih =>
    rw [insidePath_written hw, Bool.not_eq_true] at hin
    refine ⟨fun hself => ?_, fun hinside => ?_⟩
    · have hlength := @length_stripRest_le q qs [] (b.head?.or w) (cs.drop qs.length)
      rw [hself, List.length_drop, List.length_cons] at hlength
      omega
    · rw [cut, if_pos h, List.modifyHead_cons, List.dropLast_cons_of_ne_nil (cut_ne_nil _ _), List.forall_mem_cons,
        List.append_nil, List.reverse_reverse, hin] at hinside
      cases hinside.1
  | case4 b w c cs h ih =>
    rw [cut, if_neg h, modifyHead_behind, ← ih hw]
    exact ⟨fun h => (List.cons.inj h).2, congrArg (c :: ·)⟩

end

/-- The scan begins like the one of a path on its own. -/
theorem stripEach_strip (q p : List Char) : stripEach q (strip q p) = stripEach q p := by
  have hout : insidePath [] none = false := rfl
  cases q with
  | nil => rfl
  | cons q qs =>
    rw [stripEach, stripEach, strip]
    split
    · next h =>
      cases p with
      | nil => cases h
      | cons c cs => exact (stripRest_first h hout).symm
    · rfl

theorem length_stripEach_le (q cs : List Char) : (stripEach q cs).length ≤ cs.length :=
  match q with
  | [] => Nat.le_refl _
  | _ :: _ => length_stripRest_le [] none cs

/-- **A path in a type is printed as it is in an entry exactly if its further matches are seen to be inside of it.** -/
theorem stripEach_eq_strip_iff {q : List Char} (hq : IsQualifier q) (p : List Char) :
    stripEach q p = strip q p ↔ Firm q p := by
  rw [← stripEach_strip, Firm]
  match q, hq with
  | [], hq => cases hq.name
  | q :: qs, hq =>
    have hself := @stripRest_eq_self_iff q qs [] (strip (q :: qs) p) none hq rfl
    rwa [modifyHead_nothing] at hself

theorem IsQualifier.head?_ne {q : List Char} (hq : IsQualifier q) (rest : List Char) :
    (q ++ rest).head? ≠ some ':' := by
  have hcolon : isNameChar ':' = false := by decide
  have hname := hq.name
  cases q with
  | nil => cases hname
  | cons c q =>
    rintro ⟨⟩
    rw [List.head?_cons, Option.any_some, hcolon] at hname
    cases hname

/-- A colon in front of a match is not the only one: the match begins with a name, so the other one stands before it. -/
theorem getLast?_of_colon {q front rest : List Char} (hq : IsQualifier q)
    (hpath : pathAt none (front ++ ':' :: (q ++ rest)) = front ++ ':' :: (q ++ rest)) : front.getLast? = some ':' := by
  have hcolon : isNameChar ':' = false := by decide
  have hon := inPath_of_pathAt front hpath (List.cons_ne_nil _ _)
  simp only [Option.or_none, inPath, hcolon, Bool.false_or, Bool.and_eq_true, Bool.or_eq_true,
    decide_eq_true_eq] at hon
  exact hon.2.resolve_right (hq.head?_ne rest)

section
variable {q p : List Char} (hq : IsQualifier q) (hpath : pathAt none p = p)
  (hplain : ∀ c ∈ p, c = ':' ∨ continuesName c = true) (hthree : ¬[':', ':', ':'] <:+: p)
include hq hpath hplain hthree

/-- Behind the beginning of a path or a match, a part shows that a path is under way, if there is one. -/
theorem insidePath_of_ne_nil {front part rest : List Char} (hp : front ++ part ++ (q ++ rest) = p)
    (hfront : front = [] ∨ [':', ':'] <:+ front) (hpart : part ≠ []) : insidePath part.reverse none = true := by
  obtain ⟨part, c, rfl⟩ : ∃ near c, part = near ++ [c] := ⟨_, _, (List.dropLast_concat_getLast hpart).symm⟩
  subst hp
  rw [List.reverse_append, List.reverse_singleton, List.singleton_append, insidePath, Bool.or_eq_true]
  rcases hplain c (by simp) with rfl | hname
  case inr => exact .inr hname
  have hbefore : (front ++ part).getLast? = some ':' := getLast?_of_colon hq (by simpa using hpath)
  by_cases hnear : part = []
  · -- Then what is in front ends with the second of two colons, and this is the third one.
    rw [hnear, List.append_nil] at hbefore
    rcases hfront with rfl | ⟨names, rfl⟩
    · cases hbefore
    · exact absurd ⟨names, q ++ rest, by simp [hnear]⟩ hthree
  · left
    rw [List.getLast?_append, Option.or_of_isSome (List.getLast?_isSome.2 hnear), ← List.head?_reverse] at hbefore
    obtain ⟨more, hmore⟩ := List.head?_eq_some_iff.1 hbefore
    rw [hmore]
    rfl

theorem forall_insidePath {front b cs : List Char} (hp : front ++ b.reverse ++ cs = p)
    (hfront : front = [] ∨ [':', ':'] <:+ front)
    (hparts : [] ∉ ((cut q cs).modifyHead (b.reverse ++ ·)).dropLast) :
    ∀ part ∈ ((cut q cs).modifyHead (b.reverse ++ ·)).dropLast, insidePath part.reverse none = true := by
  -- What is in front ends where the path begins or where a match ends; the part that is under way is reversed.
  fun_induction cut q cs generalizing front b with
  | case1 => exact nofun
  | case2 c cs h ih =>
    obtain ⟨rest, hrest⟩ := List.isPrefixOf_iff_prefix.1 h
    have hdrop : cs.drop (q.length - 1) = rest := by
      match q, hq.name, hrest with
      | d :: ds, _, hrest =>
        rw [← (List.cons.inj hrest).2]
        exact List.drop_left
    rw [List.modifyHead_cons, List.dropLast_cons_of_ne_nil (cut_ne_nil _ _), List.append_nil] at hparts ⊢
    rw [List.mem_cons, not_or] at hparts
    rw [← hrest] at hp
    rw [hdrop] at ih hparts ⊢
    have hbehind := @ih (front ++ b.reverse ++ q) []
    rw [modifyHead_nothing] at hbehind
    refine List.forall_mem_cons.2 ⟨?_, hbehind ?_ (.inr ?_) hparts.2⟩
    · exact insidePath_of_ne_nil hq hpath hplain hthree hp hfront (Ne.symm hparts.1)
    · rw [List.reverse_nil, List.append_nil, ← hp, List.append_assoc]
    · exact hq.colons.trans (List.suffix_append _ _)
  | case3 c cs h ih =>
    rw [modifyHead_behind] at hparts ⊢
    refine ih ?_ hfront hparts
    rw [← hp]
    simp

/-- **Of a path with common names, the further matches are seen to be inside of it exactly if none of them follows
another match, or the beginning that is left out, directly.** -/
theorem firm_iff : Firm q p ↔ [] ∉ (cut q (strip q p)).dropLast := by
  constructor
  · intro h hnil
    exact absurd (h [] hnil) (by decide)
  · intro h
    have hparts := @forall_insidePath q p hq hpath hplain hthree
    rw [Firm]
    cases hmatch : q.isPrefixOf p with
    | true =>
      obtain ⟨rest, rfl⟩ := List.isPrefixOf_iff_prefix.1 hmatch
      rw [strip_append] at h ⊢
      have hrest := @hparts q [] rest
      rw [modifyHead_nothing] at hrest
      exact hrest (by simp) (.inr hq.colons) h
    | false =>
      rw [strip, hmatch, if_neg Bool.false_ne_true] at h ⊢
      have hall := @hparts [] [] p
      rw [modifyHead_nothing] at hall
      exact hall rfl (.inl rfl) h

end

/-- Further matches behind other names stay, but not those behind another match. -/
example : Firm "a::".toList "a::x::a::y::a::B".toList ∧ ¬Firm "a::".toList "x::a::a::B".toList := by
  decide +kernel

/-! ## Types as a whole -/

section
variable {α β : Type} {f g : α → List β} (h : ∀ x, (f x).length ≤ (g x).length)
include h

theorem length_flatMap_le : ∀ l : List α, (l.flatMap f).length ≤ (l.flatMap g).length
  | [] => Nat.le_refl _
  | x :: l => by
    rw [List.flatMap_cons, List.flatMap_cons, List.length_append, List.length_append]
    exact Nat.add_le_add (h x) (length_flatMap_le l)

/-- Texts of parts that are no longer than others are the same only part by part. -/
theorem flatMap_eq_iff : ∀ l : List α, l.flatMap f = l.flatMap g ↔ ∀ x ∈ l, f x = g x
  | [] => ⟨fun _ => nofun, fun _ => rfl⟩
  | x :: l => by
    rw [List.flatMap_cons, List.flatMap_cons, List.forall_mem_cons, ← flatMap_eq_iff l]
    refine ⟨fun heq => List.append_inj heq ?_, fun ⟨hx, hl⟩ => hx ▸ hl ▸ rfl⟩
    have hlength := congrArg List.length heq
    rw [List.length_append, List.length_append] at hlength
    have hx := h x
    have hl := length_flatMap_le h l
    omega

end

/-- **A type comes out with its paths as they are on their own exactly if all of them are firm.** -/
theorem stripEach_eq_iff {q : List Char} (hq : IsQualifier q) (type : List Char) :
    stripEach q type = (pieces type).flatMap (Piece.print (strip q)) ↔ ∀ p, .path p ∈ pieces type → Firm q p := by
  have hlength : ∀ piece : Piece, (piece.print (stripEach q)).length ≤ (piece.print (strip q)).length
    | .path p => by
      rw [Piece.print, Piece.print, ← stripEach_strip]
      exact length_stripEach_le q (strip q p)
    | .sign _ => Nat.le_refl _
  rw [stripEach_eq_flatMap hq, flatMap_eq_iff hlength]
  refine ⟨fun h p hp => (stripEach_eq_strip_iff hq p).1 (h (.path p) hp), fun h piece hpiece => ?_⟩
  cases piece with
  | path p => exact (stripEach_eq_strip_iff hq p).2 (h p hpiece)
  | sign c => rfl

theorem isQualifier_ofNames (name : Name) (names : List Name) : IsQualifier (ofNames (name :: names)) where
  path := pathAt_ofNames none (name :: names)
  name := name.forall_isNameChar name.first List.mem_cons_self
  colons := colons_ofNames name names

end Qualifier

open Qualifier

/-- What is printed of a piece of a type if its path is printed as in an entry. -/
def Style.printed (style : Style) : Piece → List Char :=
  Piece.print fun p => (style.stripped (String.ofList p)).toList

theorem Style.strippedType_eq_iff_firm {q : List Char} (hq : IsQualifier q) (codes : List NamedCodes) (type : String) :
    let style : Style := ⟨some (String.ofList q), codes⟩
    style.strippedType type = String.ofList ((pieces type.toList).flatMap style.printed) ↔
      ∀ p, .path p ∈ pieces type.toList → Firm q p := by
  intro style
  have hprinted : style.printed = Piece.print (strip q) := by
    funext piece
    cases piece with
    | path p => simp only [Style.printed, Piece.print, Style.stripped, style, String.toList_ofList]
    | sign c => rfl
  rw [← stripEach_eq_iff hq, hprinted, Style.strippedType, String.ofList_inj]
  simp only [String.toList_ofList]

/-- **A type is printed with its paths as they are printed in entries exactly if each further match in a path stands
where the characters since the match before show that the path is under way.** Of common names all characters show that,
so that it comes to this: no match in a path follows another one directly, or the beginning that is left out. -/
theorem strippedType_eq_iff (name : Name) (names : List Name) (codes : List NamedCodes) (type : String) :
    let style : Style := ⟨some (String.ofList (ofNames (name :: names))), codes⟩
    let q := ofNames (name :: names)
    (style.strippedType type = String.ofList ((pieces type.toList).flatMap style.printed) ↔
        ∀ p, .path p ∈ pieces type.toList → Firm q p) ∧
      ∀ p, .path p ∈ pieces type.toList → (∀ c ∈ p, c = ':' ∨ continuesName c = true) → ¬[':', ':', ':'] <:+: p →
        (Firm q p ↔ [] ∉ (cut q (strip q p)).dropLast) := by
  intro style q
  have hq : IsQualifier q := isQualifier_ofNames name names
  exact ⟨Style.strippedType_eq_iff_firm hq codes type,
    fun p hp hplain hthree => firm_iff hq (pathAt_of_mem_pieces hp) hplain hthree⟩

/-- A qualifier that stands twice in a path, behind another name or at the beginning: the path loses one more match as
part of a type than it does in an entry. -/
theorem strippedType_twice :
    let style : Style := ⟨some "a::", []⟩
    pieces "Vec<x::a::a::B>".toList = [.path "Vec".toList, .sign '<', .path "x::a::a::B".toList, .sign '>'] ∧
      String.ofList ((pieces "Vec<x::a::a::B>".toList).flatMap style.printed) = "Vec<x::a::a::B>" ∧
      style.strippedType "Vec<x::a::a::B>" = "Vec<x::a::B>" ∧
      style.stripped "a::a::B" = "a::B" ∧ style.strippedType "a::a::B" = "B" := by
  intro style
  decide +kernel

end DefTable
