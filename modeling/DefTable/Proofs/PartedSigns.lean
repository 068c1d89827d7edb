import DefTable.Proofs.AlternativeOperands
import DefTable.Proofs.ChangedScan
import DefTable.Proofs.PlacedFaults

/-!
# The sign `?//` behind a term

Between patterns `?//` is one sign; behind a term it is read as a question mark in front of the operator `//`. So a
blank between the two changes nothing there (`sign_parted`), at any depth of interpolations, but for one thing: where an
equals sign comes next, the blank makes another operator of the slashes.
-/

namespace DefTable

open Text Token Grammar

namespace Grammar

/-! ## Signs between patterns -/

/-- The sign at an offset separates patterns, the first of which comes next. -/
inductive PatternsUpTo (o : Nat) : Lexemes → Prop where
  | last {n : Nat} {ls ls₁ : Lexemes} {p : Pattern} (h : pattern n ls = .ok (p, ⟨.alternative, o⟩ :: ls₁)) :
      PatternsUpTo o ls
  | more {n o₁ : Nat} {ls ls₁ : Lexemes} {p : Pattern} (h : pattern n ls = .ok (p, ⟨.alternative, o₁⟩ :: ls₁))
      (hrest : PatternsUpTo o ls₁) : PatternsUpTo o ls

/-- Behind some word `as` there are patterns, and the sign at an offset separates two of them. -/
def SeparatesPatterns (o : Nat) (ls : Lexemes) : Prop :=
  ∃ front o₁ rest, ls = front ++ ⟨.keyword .as, o₁⟩ :: rest ∧ PatternsUpTo o rest

theorem separatesPatterns_cons {o : Nat} {l : Lexeme} {ls : Lexemes} :
    SeparatesPatterns o (l :: ls) ↔ l.token = .keyword .as ∧ PatternsUpTo o ls ∨ SeparatesPatterns o ls := by
  constructor
  · rintro ⟨front, o₁, rest, hls, hrest⟩
    cases front with
    | nil =>
      cases hls
      exact .inl ⟨rfl, hrest⟩
    | cons l' front =>
      cases hls
      exact .inr ⟨front, o₁, rest, rfl, hrest⟩
  · rintro (⟨htoken, hrest⟩ | ⟨front, o₁, rest, rfl, hrest⟩)
    · obtain ⟨t, o₁⟩ := l
      cases htoken
      exact ⟨[], o₁, ls, rfl, hrest⟩
    · exact ⟨l :: front, o₁, rest, rfl, hrest⟩

theorem not_separatesPatterns {o : Nat} {ls : Lexemes} (h : ∀ l ∈ ls, l.token ≠ .keyword .as) :
    ¬ SeparatesPatterns o ls := by
  rintro ⟨front, o₁, rest, rfl, -⟩
  exact h ⟨.keyword .as, o₁⟩ (List.mem_append_right _ List.mem_cons_self) rfl

end Grammar

/-! ## Sources -/

/-- A source with a blank in a sign `?//` that separates no patterns and that no equals sign follows, in the source
itself or in an interpolation. -/
inductive SignParted : String → Nat → String → Prop where
  | sign {source : String} {base : Nat} {before behind : List Char} {ls : Lexemes}
      (hsource : source.toList = before ++ '?' :: '/' :: '/' :: behind) (hscan : scan source base = .ok ls)
      (hl : ⟨.alternative, base + byteLength before⟩ ∈ ls)
      (hseparates : ¬ SeparatesPatterns (base + byteLength before) ls) (hbehind : behind.head? ≠ some '=') :
      SignParted source base (String.ofList (before ++ '?' :: ' ' :: '/' :: '/' :: behind))
  | inside {source inner inner' : String} {base o start : Nat} {before behind : List Char} {ls : Lexemes}
      {parts : List StringPart} (hscan : scan source base = .ok ls) (hl : ⟨.str parts, o⟩ ∈ ls)
      (hpart : .interpolation inner start ∈ parts)
      (hsource : source.toList = before ++ '\\' :: '(' :: (inner.toList ++ ')' :: behind))
      (hstart : start = base + byteLength before + 2) (h : SignParted inner start inner') :
      SignParted source base (String.ofList (before ++ '\\' :: '(' :: (inner'.toList ++ ')' :: behind)))

/-- What a blank in a sign changes: all offsets behind it, and the sources of interpolations that hold it. -/
def parting : Change where
  moves _ _ := True
  nested source o source' o' := (source' = source ∧ ∃ k, o' = o + k) ∨ (o' = o ∧ SignParted source o source')

/-! ## Lexemes -/

namespace Grammar

/-- A token that is the same in both sources, up to the sources of its interpolations. -/
inductive Stays : Lexeme → Lexeme → Prop where
  | plain {t : Token} {o o' : Nat} (ht : t.isPlain = true) : Stays ⟨t, o⟩ ⟨t, o'⟩
  | string {parts parts' : List StringPart} {o o' : Nat} (hparts : List.Forall₂ parting.Part parts parts') :
      Stays ⟨.str parts, o⟩ ⟨.str parts', o'⟩

/-- The lexemes of two sources, the second of which has a blank in the sign at a given offset of the first one, if this
is an offset of a sign at all. -/
inductive Parted (sign : Option Nat) : Lexemes → Lexemes → Prop where
  | finish (o o' : Nat) : Parted sign [⟨.eof, o⟩] [⟨.eof, o'⟩]
  | stays {l l' : Lexeme} {ls ls' : Lexemes} (hl : Stays l l') (hsign : l.token = .alternative → l.offset ∉ sign)
      (h : Parted sign ls ls') : Parted sign (l :: ls) (l' :: ls')
  | sign {o o' o₁ : Nat} {ls ls' : Lexemes} (ho : o ∈ sign) (h : Parted sign ls ls') :
      Parted sign (⟨.alternative, o⟩ :: ls) (⟨.question, o'⟩ :: ⟨.op .alt, o₁⟩ :: ls')

theorem pieceAlike_shift (k : Nat) : ∀ piece : Piece, parting.PieceAlike piece (piece.shift k)
  | .char c => .char c
  | .interpolation _ _ => .interpolation (.inl ⟨rfl, k, rfl⟩)

theorem piecesAlike_shift (k : Nat) (pieces : List Piece) :
    List.Forall₂ parting.PieceAlike pieces (pieces.map (.shift k)) :=
  List.forall₂_map_right_iff.2 (List.forall₂_same.2 fun piece _ => pieceAlike_shift k piece)

theorem piecesAlike_refl (pieces : List Piece) : List.Forall₂ parting.PieceAlike pieces pieces := by
  have hshift := piecesAlike_shift 0 pieces
  rwa [List.map_id'' Piece.shift_zero] at hshift

theorem part_shift (k : Nat) : ∀ part : StringPart, parting.Part part (part.shift k)
  | .literal s => .literal s
  | .interpolation _ _ => .interpolation (.inl ⟨rfl, k, rfl⟩)

theorem Stays.shift {l : Lexeme} (hl : l.token ≠ .eof) (k : Nat) : Stays l (l.shift k) := by
  obtain ⟨t, o⟩ := l
  cases t with
  | str parts => exact .string (List.forall₂_map_right_iff.2 (List.forall₂_same.2 fun part _ => part_shift k part))
  | eof => exact absurd rfl hl
  | _ => exact .plain rfl

namespace Parted

variable {sign : Option Nat} {ls ls' front : Lexemes} (heof : ∀ l ∈ front, l.token ≠ .eof)
  (hsign : ∀ l ∈ front, l.token = .alternative → l.offset ∉ sign)
include heof hsign

/-- Behind lexemes, and behind the same at other offsets. -/
theorem behind_shift (h : Parted sign ls ls') (k : Nat) : Parted sign (front ++ ls) (front.map (.shift k) ++ ls') := by
  induction front with
  | nil => exact h
  | cons l front ih =>
    obtain ⟨hl, hfront⟩ := List.forall_mem_cons.1 heof
    obtain ⟨hlsign, hsign⟩ := List.forall_mem_cons.1 hsign
    exact .stays (.shift hl k) hlsign (ih hfront hsign)

theorem behind (h : Parted sign ls ls') : Parted sign (front ++ ls) (front ++ ls') := by
  have hshift := behind_shift heof hsign h 0
  rwa [List.map_id'' Lexeme.shift_zero] at hshift

/-- Lexemes up to the end of a source, and the same at other offsets. -/
theorem moved (o k : Nat) : Parted sign (front ++ [⟨.eof, o⟩]) (List.map (.shift k) (front ++ [⟨.eof, o⟩])) := by
  rw [List.map_append]
  exact behind_shift heof hsign (.finish o (o + k)) k

end Parted

/-! ## Runs -/

/-- A run on a source beside one on the source with a blank in a sign. The mode is the offset of this sign, or none
where it is in no token or only in an interpolation. -/
def Pairing.parting : Pairing :=
  { DefTable.parting with
    Mode := Option Nat
    alike := fun sign ls ls' => Parted sign ls ls' ∧ ∀ o ∈ sign, ¬ SeparatesPatterns o ls
    patterns := fun sign ls ls' =>
      (Parted sign ls ls' ∧ ∀ o ∈ sign, ¬ SeparatesPatterns o ls) ∧ ∀ o ∈ sign, ¬ PatternsUpTo o ls
    fault := fun _ _ => True }

theorem Parted.begins {sign : Option Nat} {ls ls' : Lexemes} (h : Parted sign ls ls')
    (hseparates : ∀ o ∈ sign, ¬ SeparatesPatterns o ls) : Pairing.parting.Begins sign ls ls' := by
  have htail : ∀ {l rest}, ls = l :: rest → ∀ o ∈ sign, ¬ SeparatesPatterns o rest := by
    rintro l rest rfl o ho hrest
    exact hseparates o ho (separatesPatterns_cons.2 (.inr hrest))
  -- the operator that a sign is read as
  have hoperator : ∀ {o₁ rest}, (∀ o ∈ sign, ¬ SeparatesPatterns o rest) →
      ∀ o ∈ sign, ¬ SeparatesPatterns o (⟨.op .alt, o₁⟩ :: rest) := by
    intro o₁ rest hrest o ho h
    rcases separatesPatterns_cons.1 h with ⟨htoken, -⟩ | h
    · cases htoken
    · exact hrest o ho h
  cases h with
  | finish o o' => exact .finish o o'
  | stays hl hsign h =>
    have hrest := htail rfl
    cases hl with
    | string hparts => exact .string hparts ⟨h, hrest⟩
    | @plain t o o' ht =>
      by_cases halternative : t = .alternative
      · subst halternative
        exact .sign ⟨.stays (.plain rfl) nofun h, hoperator hrest⟩
      · have halike : Pairing.parting.alike sign _ _ := ⟨h, hrest⟩
        refine .plain ht halternative halike fun has => ⟨halike, fun o ho hpatterns => ?_⟩
        exact hseparates o ho (separatesPatterns_cons.2 (.inl ⟨has, hpatterns⟩))
  | sign ho h => exact .parted ⟨.stays (.plain rfl) nofun h, hoperator (htail rfl)⟩

end Grammar

/-! ## Sources with a blank in a sign -/

/-- The lexemes of a source from one on: the end comes last. -/
theorem Token.ends_of_scan {source : String} {base : Nat} {front back : Lexemes} {l : Lexeme}
    (h : scan source base = .ok (front ++ l :: back)) (hl : l.token ≠ .eof) :
    (∀ l ∈ front, l.token ≠ .eof) ∧ ∃ last o, back = last ++ [⟨.eof, o⟩] ∧ ∀ l ∈ last, l.token ≠ .eof := by
  obtain ⟨all, hall, heof⟩ := end_of_scan h
  obtain rfl | ⟨last, x, rfl⟩ := List.eq_nil_or_concat back
  · obtain ⟨-, hlast⟩ := List.append_inj' hall rfl
    cases hlast
    exact absurd rfl hl
  · have hcut : (front ++ l :: last) ++ [x] = all ++ [⟨.eof, base + byteLength source.toList⟩] := by
      rw [← hall, List.concat_eq_append]
      simp
    obtain ⟨rfl, hx⟩ := List.append_inj' hcut rfl
    cases hx
    obtain ⟨hfront, hlast⟩ := List.forall_mem_append.1 heof
    exact ⟨hfront, last, _, List.concat_eq_append, (List.forall_mem_cons.1 hlast).2⟩

namespace SignParted

variable {source source' : String} {base : Nat}

/-- The blank is one byte, and leads nowhere. -/
theorem same_size (h : SignParted source base source') : byteLength source'.toList = byteLength source.toList + 1 ∧
    ∀ d, Enclosure.after [.interpolation d 0] source'.toList = Enclosure.after [.interpolation d 0] source.toList := by
  induction h with
  | @sign source base before behind ls hsource hscan hl hseparates hbehind =>
    obtain ⟨-, -, -, -, hafter⟩ := scan_sign hscan hsource hl hbehind
    have hblank : (' ' : Char).utf8Size = 1 := rfl
    rw [String.toList_ofList, hsource]
    refine ⟨?_, fun d => (hafter d).trans (by rw [hsource])⟩
    simp only [byteLength_append, byteLength_cons, hblank]
    omega
  | @inside source inner inner' base o start before behind ls parts hscan hl hpart hsource hstart h ih =>
    obtain ⟨hk, hafter⟩ := ih
    obtain ⟨-, -, -, -, hinner⟩ := interpolated_of_scan hscan hl hpart
    have hinner' := (hafter 0).trans hinner
    obtain ⟨-, -, -, -, -, -, hafter'⟩ := scan_replaced hinner' hk hscan hl hpart hsource hstart
    rw [String.toList_ofList, hsource]
    refine ⟨?_, fun d => (hafter' d).trans (by rw [hsource])⟩
    simp only [byteLength_append, byteLength_cons, hk]
    omega

/-- **Both sources are cut into tokens, which are the same but for the sign.** -/
theorem scans (h : SignParted source base source') : ∃ sign ls ls', scan source base = .ok ls ∧
    scan source' base = .ok ls' ∧ Parted sign ls ls' ∧ ∀ o ∈ sign, ¬ SeparatesPatterns o ls := by
  cases h with
  | @sign source base before behind ls hsource hscan hl hseparates hbehind =>
    obtain ⟨front, back, rfl, hscan', -⟩ := scan_sign hscan hsource hl hbehind
    obtain ⟨hfront, last, o, rfl, hlast⟩ := ends_of_scan hscan nofun
    -- every other sign starts at another offset
    obtain ⟨hbefore, hrest, hincreasing⟩ := List.pairwise_append.1 (increasing_of_scan hscan)
    have hapart : (∀ l ∈ front, l.offset ≠ base + byteLength before) ∧
        ∀ l ∈ last, l.offset ≠ base + byteLength before := by
      refine ⟨fun l hl => Nat.ne_of_lt (hincreasing l hl _ List.mem_cons_self), fun l hl => ?_⟩
      exact Nat.ne_of_gt ((List.pairwise_cons.1 hrest).1 l (List.mem_append_left _ hl))
    refine ⟨some (base + byteLength before), _, _, hscan, hscan', ?_, ?_⟩
    · refine .behind hfront (fun l hl _ heq => ?_) (.sign rfl (.moved hlast (fun l hl _ heq => ?_) o 1))
      · exact hapart.1 l hl (Option.some.inj heq).symm
      · exact hapart.2 l hl (Option.some.inj heq).symm
    · rintro _ ⟨⟩
      exact hseparates
  | @inside source inner inner' base o start before behind ls parts hscan hl hpart hsource hstart h =>
    obtain ⟨hk, hafter⟩ := h.same_size
    obtain ⟨-, -, -, -, hinner⟩ := interpolated_of_scan hscan hl hpart
    obtain ⟨front, back, as, bs, rfl, hscan', -⟩ :=
      scan_replaced ((hafter 0).trans hinner) hk hscan hl hpart hsource hstart
    obtain ⟨hfront, last, o', rfl, hlast⟩ := ends_of_scan hscan nofun
    have hnested : parting.nested inner start inner' start := .inr ⟨rfl, h⟩
    have hpieces : List.Forall₂ parting.PieceAlike (as ++ .interpolation inner start :: bs)
        (as ++ .interpolation inner' start :: bs.map (.shift 1)) :=
      List.rel_append (piecesAlike_refl as) (.cons (.interpolation hnested) (piecesAlike_shift 1 bs))
    refine ⟨none, _, _, hscan, hscan', ?_, nofun⟩
    have hnone : ∀ {ls : Lexemes}, ∀ l ∈ ls, l.token = .alternative → l.offset ∉ (none : Option Nat) :=
      fun _ _ _ => Option.not_mem_none _
    exact .behind hfront hnone (.stays (.string (Change.partsOf_alike hpieces)) nofun (.moved hlast hnone o' 1))

end SignParted

/-- A source at another offset is cut into the same tokens. -/
theorem parted_elsewhere {source : String} {base : Nat} {ls : Lexemes} (h : scan source base = .ok ls) (k : Nat) :
    ∃ ls', scan source (base + k) = .ok ls' ∧ Parted none ls ls' := by
  obtain ⟨front, rfl, hfront⟩ := end_of_scan h
  have hshift := scan_shift (k := k) source base
  rw [h] at hshift
  exact ⟨_, hshift, .moved hfront (fun _ _ _ => Option.not_mem_none _) _ k⟩

/-- Sources that correspond are cut into lexemes that are the same but for one sign at most. -/
theorem Grammar.Pairing.parting_scans {source source' : String} {o o' : Nat}
    (h : Pairing.parting.nested source o source' o') :
    ∃ sign, Pairing.parting.Agree (Pairing.parting.alike sign) (scanned (scan source o))
      (scanned (scan source' o')) := by
  rcases h with ⟨rfl, k, rfl⟩ | ⟨rfl, h⟩
  · cases hscan : scan source' o with
    | ok ls =>
      obtain ⟨ls', hscan', halike⟩ := parted_elsewhere hscan k
      rw [hscan']
      exact ⟨none, .ok ⟨halike, nofun⟩⟩
    | error e =>
      rw [scan_shift, hscan]
      exact ⟨none, .fault trivial⟩
  · obtain ⟨sign, ls, ls', hscan, hscan', halike, hseparates⟩ := h.scans
    rw [hscan, hscan']
    exact ⟨sign, .ok ⟨halike, hseparates⟩⟩

/-- Behind a pattern there is no sign with a blank in it. -/
theorem Grammar.Parted.behind_pattern {sign : Option Nat} {n : Nat} {ls ls₁ ls₁' : Lexemes} {p : Pattern}
    (hpatterns : ∀ o ∈ sign, ¬ PatternsUpTo o ls) (hread : pattern n ls = .ok (p, ls₁))
    (h : Pairing.parting.alike sign ls₁ ls₁') : Both .alternative (Pairing.parting.patterns sign) ls₁ ls₁' := by
  obtain ⟨h, hseparates⟩ := h
  cases h with
  | finish => exact .inr ⟨nofun, nofun⟩
  | @stays l l' ls ls' hl hsign h =>
    cases hl with
    | string => exact .inr ⟨nofun, nofun⟩
    | @plain t o o' ht =>
      by_cases halternative : t = .alternative
      · subst halternative
        refine .inl ⟨o, o', ls, ls', rfl, rfl, ⟨h, fun o₁ ho hrest => ?_⟩, fun o₁ ho hrest => ?_⟩
        · exact hseparates o₁ ho (separatesPatterns_cons.2 (.inr hrest))
        · exact hpatterns o₁ ho (.more hread hrest)
      · exact .inr ⟨halternative, halternative⟩
  | sign ho => exact absurd (.last hread) (hpatterns _ ho)

/-- **A blank in a sign is not noticed**, where the sign is read as a question mark and an operator. -/
def Grammar.Coupling.parting : Coupling :=
  { Pairing.parting with
    begins := fun h => h.1.begins h.2
    alike_of_patterns := And.left
    behind_pattern := fun h hread _ => Parted.behind_pattern h.2 hread
    unexpected := fun _ _ => trivial
    directive := fun _ => trivial
    scans := Pairing.parting_scans }

/-- **A query is the same with a blank in a sign.** -/
theorem SignParted.parse_iff {source source' : String} (h : SignParted source 0 source') (q : Query) :
    Query.parse source = .ok q ↔ Query.parse source' = .ok q := by
  obtain ⟨n, hn, hn'⟩ : ∃ n, enoughSteps source ≤ n ∧ enoughSteps source' ≤ n :=
    ⟨_, Nat.le_max_left _ _, Nat.le_max_right _ _⟩
  have hnested : Coupling.parting.nested source 0 source' 0 := .inr ⟨rfl, h⟩
  have hagree := Coupling.parting.whole_agree hnested hn hn
  rw [Query.parse_eq source hn, Query.parse_eq source' hn']
  generalize whole n source 0 = x at hagree ⊢
  generalize whole n source' 0 = y at hagree ⊢
  cases hagree with
  | ok h => rw [h]; exact Iff.rfl
  | fault => exact iff_of_false nofun nofun

/-! ## Results -/

/-- A blank at an offset of a source parts a sign. -/
def PartedAt (source : String) (base o : Nat) : Prop :=
  ∃ front back, source.toList = front ++ back ∧ o = base + byteLength front ∧
    SignParted source base (String.ofList (front ++ ' ' :: back))

theorem PartedAt.outside {source inner : String} {base start o o₁ : Nat} {ls : Lexemes} {parts : List StringPart}
    (hscan : scan source base = .ok ls) (hl : ⟨.str parts, o₁⟩ ∈ ls) (hpart : .interpolation inner start ∈ parts)
    (h : PartedAt inner start o) : PartedAt source base o := by
  obtain ⟨front, back, hinner, rfl, h⟩ := h
  obtain ⟨before, behind, hsource, hstart, -⟩ := interpolated_of_scan hscan hl hpart
  have hinside := SignParted.inside hscan hl hpart hsource hstart h
  refine ⟨before ++ '\\' :: '(' :: front, back ++ ')' :: behind, by rw [hsource, hinner]; simp, ?_,
    by simpa using hinside⟩
  have hopen : ('\\' : Char).utf8Size = 1 ∧ ('(' : Char).utf8Size = 1 := by decide
  rw [hstart, byteLength_append, byteLength_cons, byteLength_cons, hopen.1, hopen.2]
  omega

theorem PartedAt.of_inside {source inner : String} {base start o : Nat} (hinside : Inside source base inner start)
    (h : PartedAt inner start o) : PartedAt source base o := by
  induction hinside with
  | part hscan hl hpart => exact h.outside hscan hl hpart
  | deeper hscan hl hpart _ ih => exact (ih h).outside hscan hl hpart

theorem PartedAt.of_within {source inner : String} {start o : Nat} (hwithin : Within source inner start)
    (h : PartedAt inner start o) : PartedAt source 0 o := by
  rcases hwithin with ⟨rfl, rfl⟩ | hinside
  · exact h
  · exact h.of_inside hinside

section
variable {source inner : String} {start : Nat} {before behind : List Char} {ls : Lexemes}
  (hsource : source.toList = before ++ '?' :: '/' :: '/' :: behind) (hwithin : Within source inner start)
  (hscan : scan inner start = .ok ls) (hl : ⟨.alternative, byteLength before⟩ ∈ ls)
include hsource hwithin hscan hl

/-- A sign stands in its source, and where an equals sign comes next, this is in the same one. -/
theorem exists_sign : ∃ front back, inner.toList = front ++ '?' :: '/' :: '/' :: back ∧
    byteLength before = start + byteLength front ∧ (back.head? = some '=' ↔ behind.head? = some '=') := by
  obtain ⟨unfinished, hcovers⟩ := covers_of_scan hscan
  obtain ⟨front, text, back, hinner, hoffset, htext⟩ := hcovers.mem hl (by simp)
  obtain rfl : text = ['?', '/', '/'] := htext.spelled
  refine ⟨front, back, hinner, hoffset, ?_⟩
  obtain ⟨first, last, hcut, rfl, hlast⟩ := hwithin.cut
  have hall : (first ++ front) ++ '?' :: '/' :: '/' :: (back ++ last) = before ++ '?' :: '/' :: '/' :: behind := by
    rw [← hsource, hcut, hinner]
    simp
  obtain ⟨-, hbehind⟩ := eq_of_byteLength_eq hall (by rw [byteLength_append, hoffset])
  obtain rfl : back ++ last = behind := by simpa using hbehind
  cases back with
  | nil =>
    refine iff_of_false (by simp) fun hhead => ?_
    cases hlast '=' hhead
  | cons c back => rfl

theorem PartedAt.of_sign (hseparates : ¬ SeparatesPatterns (byteLength before) ls) (hbehind : behind.head? ≠ some '=') :
    PartedAt inner start (byteLength before + 1) := by
  obtain ⟨front, back, hinner, hoffset, hback⟩ := exists_sign hsource hwithin hscan hl
  rw [hoffset] at hl hseparates ⊢
  refine ⟨front ++ ['?'], '/' :: '/' :: back, by rw [hinner]; simp, ?_, ?_⟩
  · have hquestion : byteLength ['?'] = 1 := rfl
    rw [byteLength_append, hquestion, Nat.add_assoc]
  · simpa using SignParted.sign hinner hscan hl hseparates (mt hback.1 hbehind)

/-- A sign in front of an equals sign is refused: the operator `//` has no operand. -/
theorem not_isRead_of_sign (hbehind : behind.head? = some '=') : ¬ IsRead inner start := by
  intro h
  obtain ⟨front, back, hinner, hoffset, hback⟩ := exists_sign hsource hwithin hscan hl
  obtain ⟨rest, rfl⟩ := List.head?_eq_some_iff.1 (hback.2 hbehind)
  obtain ⟨ls', hscan', hfit⟩ := h.fit
  obtain rfl : ls' = ls := Except.ok.inj (hscan'.symm.trans hscan)
  obtain ⟨before', c, cs, lead, tail, next, hcut, hoffset', rfl, hread, htail, -⟩ := LeadsTo.of_scan hscan hl nofun
  obtain ⟨rfl, hcs⟩ := eq_of_byteLength_eq (hcut.symm.trans hinner) (by dsimp only at hoffset'; omega)
  cases hcs
  obtain rfl : next = ⟨byteLength before + 3, '=' :: rest⟩ := (Prod.mk.inj (Except.ok.inj hread)).2.symm
  have hoperand := hfit.fits.operand rfl
  rw [startsEqual_of_scanFrom htail] at hoperand
  cases hoperand

end

/-- **A sign `?//` that separates no patterns may have a blank in it.** At any depth of interpolations, a query is the
same with the blank as without it, or both are refused. Only in front of an equals sign this is not so. There the blank
makes the operator `//=` of the slashes; without it they are the operator `//`, which has no operand then. -/
theorem sign_parted {source inner before behind : String} {start : Nat} {ls : Lexemes}
    (hsource : source = before ++ "?//" ++ behind) (hwithin : Within source inner start)
    (hscan : scan inner start = .ok ls) (hl : ⟨.alternative, byteLength before.toList⟩ ∈ ls)
    (hseparates : ¬ SeparatesPatterns (byteLength before.toList) ls) :
    (behind.toList.head? ≠ some '=' →
      ∀ q, Query.parse source = .ok q ↔ Query.parse (before ++ "? //" ++ behind) = .ok q) ∧
    (behind.toList.head? = some '=' → ∀ q, Query.parse source ≠ .ok q) := by
  have htext : source.toList = before.toList ++ '?' :: '/' :: '/' :: behind.toList := by
    rw [hsource]
    simp
  refine ⟨fun hbehind q => ?_, fun hbehind q hq => ?_⟩
  · have hparted := PartedAt.of_within hwithin (.of_sign htext hwithin hscan hl hseparates hbehind)
    obtain ⟨front, back, hcut, hoffset, hparted⟩ := hparted
    have hfront : (before.toList ++ ['?']) ++ '/' :: '/' :: behind.toList = front ++ back := by
      rw [← hcut, htext]
      simp
    obtain ⟨rfl, rfl⟩ := eq_of_byteLength_eq hfront (by
      have hquestion : byteLength ['?'] = 1 := rfl
      rw [byteLength_append, hquestion, hoffset, Nat.zero_add])
    have hblank : String.ofList (before.toList ++ ['?'] ++ ' ' :: '/' :: '/' :: behind.toList) =
        before ++ "? //" ++ behind := by
      rw [← String.toList_inj]
      simp
    rw [hblank] at hparted
    exact hparted.parse_iff q
  · rcases hwithin with ⟨rfl, rfl⟩ | hinside
    · exact not_isRead_of_sign htext (.inl ⟨rfl, rfl⟩) hscan hl hbehind (Query.isRead_of_parse hq)
    · exact not_isRead_of_sign htext (.inr hinside) hscan hl hbehind ((Query.isRead_of_parse hq).inside hinside)

/-- In an interpolation, in front of an operand and of an equals sign. -/
theorem sign_parted_interpolation :
    (∃ q, Query.parse "\"\\(.a?//1)\"" = .ok q ∧ Query.parse "\"\\(.a? //1)\"" = .ok q) ∧
      ∀ q, Query.parse "\"\\(.a?//=1)\"" ≠ .ok q := by
  have hsource : (scan "\"\\(.a?//1)\"" 0).toOption = some [⟨.str [.interpolation ".a?//1" 3], 0⟩, ⟨.eof, 11⟩] := by
    decide +kernel
  have hinner : (scan ".a?//1" 3).toOption =
      some [⟨.field "a", 3⟩, ⟨.alternative, 5⟩, ⟨.number "1", 8⟩, ⟨.eof, 9⟩] := by
    decide +kernel
  have hsource' : (scan "\"\\(.a?//=1)\"" 0).toOption =
      some [⟨.str [.interpolation ".a?//=1" 3], 0⟩, ⟨.eof, 12⟩] := by
    decide +kernel
  have hinner' : (scan ".a?//=1" 3).toOption =
      some [⟨.field "a", 3⟩, ⟨.alternative, 5⟩, ⟨.op .assign, 8⟩, ⟨.number "1", 9⟩, ⟨.eof, 10⟩] := by
    decide +kernel
  have hparse : (Query.parse "\"\\(.a?//1)\"").toOption.isSome = true := by decide +kernel
  obtain ⟨q, hq⟩ := Option.isSome_iff_exists.1 hparse
  have hq := ok_of_toOption hq
  have hpart := Inside.part (ok_of_toOption hsource) List.mem_cons_self List.mem_cons_self
  have hpart' := Inside.part (ok_of_toOption hsource') List.mem_cons_self List.mem_cons_self
  have hcut : "\"\\(.a?//1)\"" = "\"\\(.a" ++ "?//" ++ "1)\"" := rfl
  have hcut' : "\"\\(.a?//=1)\"" = "\"\\(.a" ++ "?//" ++ "=1)\"" := rfl
  have hsame := (sign_parted hcut (.inr hpart) (ok_of_toOption hinner) (by decide)
    (not_separatesPatterns (by decide))).1 (by decide) q
  have hrefused := (sign_parted hcut' (.inr hpart') (ok_of_toOption hinner') (by decide)
    (not_separatesPatterns (by decide))).2 rfl
  exact ⟨⟨q, hq, hsame.1 hq⟩, hrefused⟩

/-- In front of an equals sign the blank is noticed. -/
theorem sign_in_front_of_equal :
    scan ".a?//=1" 0 =
        .ok [⟨.field "a", 0⟩, ⟨.alternative, 2⟩, ⟨.op .assign, 5⟩, ⟨.number "1", 6⟩, ⟨.eof, 7⟩] ∧
      ¬ SeparatesPatterns 2 [⟨.field "a", 0⟩, ⟨.alternative, 2⟩, ⟨.op .assign, 5⟩, ⟨.number "1", 6⟩, ⟨.eof, 7⟩] ∧
      Query.parse ".a?//=1" = .error ⟨"unexpected \"=\", expected term", 5, ⟨1, 6⟩⟩ ∧
      Query.parse ".a? //=1" =
        .ok (Query.binary
          (Query.ofTerm (Term.withSuffixes [Suffix.optional] (Term.ofIndex (Index.ofName "a")))) .updateAlt
          (Query.ofTerm (Term.ofNumber "1"))) :=
  ⟨ok_of_toOption (by decide +kernel), not_separatesPatterns (by decide), error_of_fault? (by decide +kernel),
    ok_of_toOption (by decide +kernel)⟩

end DefTable
