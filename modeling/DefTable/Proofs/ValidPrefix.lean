import DefTable.Proofs.QueryRuns
import DefTable.Proofs.ChangedScan
import DefTable.Proofs.SourceJoin
import DefTable.Proofs.PlacedFaults

/-!
# Valid prefixes

What a source holds in front of the token at which it is refused can be completed to a query (`valid_prefix`), by the
samples of the goals that are left there. There is one exception: in front of the `as` of a reduction, a label takes the
rest of the source for its own query (`Stuck`), and nothing completes that (`Stuck.not_completable`).
-/

namespace DefTable

open Grammar

namespace Token

/-! ## Sources with other tokens behind -/

/-- A text that is cut into the given tokens. -/
def spelled (ts : List Token) : List Char :=
  ts.flatMap fun t => t.spelling.toList ++ [' ']

theorem scanFrom_spelled : ∀ {ts : List Token}, (∀ t ∈ ts, t.WellSpelled ∧ t.isPlain = true) → ∀ offset : Nat,
    ∃ ls, scanFrom ⟨offset, spelled ts⟩ = .ok ls ∧ ls.map Lexeme.token = ts ++ [.eof]
  | [], _, offset => ⟨_, scanFrom_nil offset, rfl⟩
  | t :: ts, h, offset => by
    obtain ⟨⟨hspelled, hplain⟩, hts⟩ := List.forall_mem_cons.1 h
    have hstr (parts : List StringPart) : t ≠ .str parts := by
      rintro rfl
      cases hplain
    have heof : t ≠ .eof := by
      rintro rfl
      cases hplain
    obtain ⟨o, o₁, hscan⟩ := scanFrom_token .nil (readsAs_spelling hspelled hstr heof (stops_blank (spelled ts))) offset
    obtain ⟨ls, hls, htokens⟩ := scanFrom_spelled hts (o₁ + 1)
    refine ⟨⟨t, o⟩ :: ls, ?_, congrArg (t :: ·) htokens⟩
    have htext : spelled (t :: ts) = [] ++ (t.spelling.toList ++ ' ' :: spelled ts) := by simp [spelled]
    rw [htext, hscan, scanFrom_blank, hls]
    rfl

/-- A front part of a source, which any text may follow. -/
theorem scan_front {source : String} {front back : Lexemes} {l : Lexeme}
    (h : scan source 0 = .ok (front ++ l :: back)) :
    ∃ text o, ∀ rest, scanFrom ⟨0, text ++ rest⟩ = (scanFrom ⟨o, rest⟩).map (front ++ ·) := by
  by_cases heof : l.token = .eof
  · obtain ⟨-, hfront⟩ := (endsOnce_of_scan h).right
    have hinFront (tail : Lexemes) : inFrontOf (front ++ l :: back) tail = front ++ tail := by
      clear h
      induction front with
      | nil =>
        obtain ⟨t, o⟩ := l
        obtain rfl : t = .eof := heof
        rfl
      | cons l' front ih =>
        obtain ⟨hne, hfront⟩ := List.forall_mem_cons.1 hfront
        rw [List.cons_append, inFrontOf_cons hne, ih hfront]
        rfl
    refine ⟨source.toList ++ ['\n'], Cursor.finish ⟨0, source.toList⟩ + 1, fun rest => ?_⟩
    have hscan := @scanFrom_lineFeed ⟨0, source.toList⟩ _ h rest
    rw [show inFrontOf (front ++ l :: back) = (front ++ ·) from funext hinFront] at hscan
    rwa [List.append_assoc]
  · obtain ⟨before, c, cs, front', back', next, -, -, hls, -, -, hleads⟩ :=
      LeadsTo.of_scan h (List.mem_append_right front List.mem_cons_self) heof
    have hincreasing := increasing_of_scan h
    rw [hls] at hincreasing
    obtain ⟨-, hback, hacross⟩ := List.pairwise_append.1 hincreasing
    have hfront' : l ∉ front' := fun hmem => Nat.lt_irrefl _ (hacross l hmem l List.mem_cons_self)
    have hback' : l ∉ back' := fun hmem => Nat.lt_irrefl _ ((List.pairwise_cons.1 hback).1 l hmem)
    obtain ⟨rfl, -, -⟩ := (List.append_cons_inj_of_notMem hfront' hback').1 hls.symm
    refine ⟨before ++ [' '], 0 + Text.byteLength before + 1, fun rest => ?_⟩
    have hscan := hleads.cut (.stops (stops_blank rest))
    rwa [scanFrom_blank, ← List.singleton_append, ← List.append_assoc] at hscan

/-- Other tokens may follow a front part of a source. -/
theorem exists_source {source : String} {front back : Lexemes} {l : Lexeme} {ts : List Token}
    (h : scan source 0 = .ok (front ++ l :: back)) (hts : ∀ t ∈ ts, t.WellSpelled ∧ t.isPlain = true) :
    ∃ source' rest, scan source' 0 = .ok (front ++ rest) ∧ rest.map Lexeme.token = ts ++ [.eof] := by
  obtain ⟨text, o, hfront⟩ := scan_front h
  obtain ⟨rest, hrest, htokens⟩ := scanFrom_spelled hts o
  refine ⟨String.ofList (text ++ spelled ts), rest, ?_, htokens⟩
  rw [scan, String.toList_ofList, hfront, hrest]
  rfl

end Token

namespace Grammar

open Goal

/-! ## Completions -/

/-- Tokens that others can follow so that a query is accepted. -/
def Completable (ts : List Token) : Prop :=
  ∃ source ls q, Token.scan source 0 = .ok ls ∧ ts <+: ls.map Lexeme.token ∧ Query.parse source = .ok q

/-- Where the goals that are left can be completed, the tokens in front of them can. -/
theorem completable_of_linked {source : String} {front back : Lexemes} {l : Lexeme} {gs : List Goal}
    (hscan : Token.scan source 0 = .ok (front ++ l :: back)) (hplain : Uninterpolated (front ++ l :: back))
    (hrun : ∀ {front' rest' : Lexemes}, front'.map Lexeme.token = front.map Lexeme.token → ¬ Accesses (peek rest') →
      Reaches ([.pipe], front' ++ rest') (gs, rest'))
    (hlinked : Linked gs .eof) : Completable (front.map Lexeme.token) := by
  obtain ⟨source', rest, hscan', hrest⟩ :=
    Token.exists_source hscan fun t (ht : t ∈ samples gs) => ⟨(wellSpelled_samples ht).1, (wellSpelled_samples ht).2.1⟩
  obtain ⟨ls, back', rfl, hls, hback⟩ := List.map_eq_append_iff.1 hrest
  obtain ⟨o, rfl⟩ := exists_single hback
  have haccess : ¬ Accesses (peek (ls ++ [⟨.eof, o⟩])) := by
    have hpeek : peek (ls ++ [⟨.eof, o⟩]) ∈ samples gs ∨ peek (ls ++ [⟨.eof, o⟩]) = .eof := by
      obtain - | ⟨l, ls⟩ := ls
      · exact .inr rfl
      · exact .inl (hls ▸ List.mem_cons_self)
    rintro (⟨parts, hstr⟩ | hbracket)
    · rw [hstr] at hpeek
      obtain hmem | heof := hpeek
      · cases (wellSpelled_samples hmem).2.1
      · cases heof
    · rw [hbracket] at hpeek
      obtain hmem | heof := hpeek
      · exact (wellSpelled_samples hmem).2.2 rfl
      · cases heof
  have hplain' : Uninterpolated (front ++ (ls ++ [⟨.eof, o⟩])) := by
    intro l' hl'
    obtain hl' | hl' := List.mem_append.1 hl'
    · exact hplain l' (List.mem_append_left _ hl')
    obtain hl' | hl' := List.mem_append.1 hl'
    · have hmem : l'.token ∈ samples gs := hls ▸ List.mem_map_of_mem hl'
      have hp := (wellSpelled_samples hmem).2.1
      cases ht : l'.token with
      | str parts => rw [ht] at hp; cases hp
      | _ => trivial
    · rw [List.mem_singleton.1 hl']
      trivial
  have hreach : Reaches ([.pipe], front ++ (ls ++ [⟨.eof, o⟩])) ([], [⟨.eof, o⟩]) :=
    (hrun rfl haccess).trans (hlinked.completed hls)
  obtain ⟨q, hq⟩ := exists_query hscan' hplain' hreach
  exact ⟨source', _, q, hscan', by rw [List.map_append]; exact List.prefix_append _ _, hq⟩

/-! ## Labels that leave a reduction without its `as` -/

/-- Tokens without a place in a source. -/
def placed (ts : List Token) : Lexemes :=
  ts.map (⟨·, 0⟩)

/-- Tokens that are a term, up to its end. -/
def Whole (ts : List Token) : Prop :=
  ∃ n t, term n (placed (ts ++ [.keyword .catch, .eof])) = .ok (t, placed [.keyword .catch, .eof])

/-- A label stands where a dot would be the last token of the source of a reduction. -/
def Stuck (ts : List Token) : Prop :=
  ∃ before w mid after, ts = before ++ .keyword w :: (mid ++ .keyword .label :: after) ∧
    (w = .reduce ∨ w = .foreach) ∧ Whole (mid ++ [.dot])

theorem map_placed (ts : List Token) : (placed ts).map Lexeme.token = ts := by
  rw [placed, List.map_map]
  exact List.map_id ts

theorem placed_append (ts us : List Token) : placed (ts ++ us) = placed ts ++ placed us :=
  List.map_append

theorem Whole.reaches {ts : List Token} (h : Whole ts) :
    Reaches ([.term], placed (ts ++ [.keyword .catch, .eof])) ([], placed [.keyword .catch, .eof]) := by
  obtain ⟨n, t, ht⟩ := h
  have hfollows : Follows [.term] (placed (ts ++ [.keyword .catch, .eof])) (term n _) := (simulates n).term
  rwa [ht] at hfollows

theorem not_accesses_keyword (w : Keyword) : ¬ Accesses (.keyword w) := by
  rintro (⟨parts, h⟩ | h) <;> cases h

theorem not_accesses_dot : ¬ Accesses .dot := by
  rintro (⟨parts, h⟩ | h) <;> cases h

theorem SamePlace.length {ls ls' : Lexemes} (h : SamePlace ls ls') : ls'.length = ls.length := by
  obtain rfl | ⟨o, rest, rfl, rfl⟩ := h <;> rfl

/-- A part of a run, from one lexeme to another. -/
theorem Reaches.cut_at {gs gs' : List Goal} {ls rest : Lexemes} {l : Lexeme} (h : Reaches (gs, ls) (gs', l :: rest))
    (hne : l.token ≠ .op .alt) : ∃ front, ls = front ++ l :: rest := by
  obtain ⟨front, rest', rfl, hplace⟩ := h.leaves
  exact ⟨front, by rw [hplace.eq hne]⟩

theorem reaches_suffixes {ls : Lexemes} (h : closesTerm (peek ls) = true) :
    ∀ k, Reaches (List.replicate k .suffixes, ls) ([], ls)
  | 0 => .refl
  | k + 1 => (reaches_of_admits (g := .suffixes) rfl h).trans (reaches_suffixes h k)

/-- Tokens that a run reads as a term are a term. -/
theorem whole_of_reaches {ts : List Token} (hts : ∀ t ∈ ts, t.Uninterpolated ∧ t ≠ .eof)
    (h : Reaches ([.term], placed (ts ++ [.keyword .catch, .eof])) ([], placed [.keyword .catch, .eof])) :
    Whole ts := by
  have hends : EndsOnce (placed (ts ++ [.keyword .catch, .eof])) := by
    refine ⟨placed (ts ++ [.keyword .catch]), 0, by simp [placed], fun l hl => ?_⟩
    obtain ⟨t, ht, rfl⟩ := List.mem_map.1 hl
    obtain ht | ht := List.mem_append.1 ht
    · exact (hts t ht).2
    · rw [List.mem_singleton.1 ht]
      nofun
  have hplain : Uninterpolated (placed (ts ++ [.keyword .catch, .eof])) := by
    intro l hl
    obtain ⟨t, ht, rfl⟩ := List.mem_map.1 hl
    simp only [List.mem_append, List.mem_cons, List.not_mem_nil, or_false] at ht
    obtain ht | rfl | rfl := ht
    · exact (hts t ht).1
    · trivial
    · trivial
  obtain ⟨t, ht⟩ := (simulates _).term.exists_ok (term_suffices hends (Nat.le_refl _)) hplain h
  exact ⟨_, t, ht⟩

/-- Where a label comes to be the last part of a term, a dot would be it. -/
theorem whole_of_label {mid rest : Lexemes} {o k : Nat} (hmid : ∀ l ∈ mid, l.token.Uninterpolated ∧ l.token ≠ .eof)
    (h : Reaches ([.term], mid ++ ⟨.keyword .label, o⟩ :: rest)
      (.primary :: List.replicate k .suffixes, ⟨.keyword .label, o⟩ :: rest)) :
    Whole (mid.map Lexeme.token ++ [.dot]) := by
  obtain ⟨gs, -, hpasses, hany⟩ := h.onFront (Nat.le_refl _) fun _ => Nat.le_refl _
  have hfront : Reaches ([.term], placed (mid.map Lexeme.token) ++ placed [.dot, .keyword .catch, .eof])
      (gs, placed [.dot, .keyword .catch, .eof]) := hany (map_placed _) not_accesses_dot
  have hdot : Reaches (gs, placed [.dot, .keyword .catch, .eof])
      (.primary :: List.replicate k .suffixes, placed [.dot, .keyword .catch, .eof]) :=
    Passes.reaches ((passes_label (not_accesses_keyword .catch) _).2 (hpasses.passes (by simp [peek])))
  have hcatch : closesTerm (peek (placed [.keyword .catch, .eof])) = true := rfl
  have htake : Reaches (.primary :: List.replicate k .suffixes, placed [.dot, .keyword .catch, .eof])
      ([], placed [.keyword .catch, .eof]) :=
    .take rfl ((reaches_of_admits (g := .dotted) rfl hcatch).trans (reaches_suffixes hcatch k))
  refine whole_of_reaches (fun t ht => ?_) ?_
  · obtain ht | ht := List.mem_append.1 ht
    · obtain ⟨l, hl, rfl⟩ := List.mem_map.1 ht
      exact hmid l hl
    · rw [List.mem_singleton.1 ht]
      exact ⟨trivial, by simp⟩
  · rw [List.append_assoc, placed_append]
    exact (hfront.trans hdot).trans htake

/-- Where a run came to a label with an `as` wanted behind it, the tokens it has read are stuck. -/
theorem stuck_of_label {front rest ls : Lexemes} {gs below : List Goal} {o : Nat}
    (hfront : ∀ l ∈ front, l.token.Uninterpolated ∧ l.token ≠ .eof)
    (hlabel : Reaches ([.pipe], front ++ rest) (.primary :: below, ⟨.keyword .label, o⟩ :: ls))
    (hlinked : Linked (.primary :: below) .eof) (hwanted : wanted below .eof = .keyword .as)
    (hbehind : Reaches (.variable :: .sign (.op .pipe) :: .pipe :: below, ls) (gs, rest)) :
    Stuck (front.map Lexeme.token) := by
  obtain ⟨k, below, rfl⟩ := hlinked.2.2.exists_suffixes hlinked.2.1 hwanted
  have hpipe : Goal.word .as ∉ [Goal.pipe] := by decide
  obtain ⟨w, o', below', ls₁, hw, hreduction, hterm⟩ :=
    @exists_reduction _ (.primary :: List.replicate k .suffixes) _ _ _ hpipe hlabel
  obtain ⟨before, hbefore⟩ := hreduction.cut_at nofun
  obtain ⟨mid, rfl⟩ := hterm.cut_at nofun
  obtain ⟨after, rest', rfl, hplace⟩ := hbehind.leaves
  have hcut : front ++ rest = before ++ ⟨.keyword w, o'⟩ :: (mid ++ ⟨.keyword .label, o⟩ :: after) ++ rest' := by
    rw [hbefore]
    simp
  obtain ⟨rfl, -⟩ := List.append_inj' hcut hplace.length
  refine ⟨before.map Lexeme.token, w, mid.map Lexeme.token, after.map Lexeme.token, by simp, hw, ?_⟩
  refine whole_of_label (fun l hl => hfront l ?_) hterm
  simp [hl]

/-! ## Stuck tokens have no completion -/

/-- What passes at `catch` needs no token, if what takes its place needs none. -/
theorem Goal.sample_of_pass {g : Goal} {gs : List Goal} {u : Token} (h : g.move (.keyword .catch) u = .pass gs)
    (hgs : samples gs = []) : g.sample = [] := by
  cases g with
  | pipe | operand | term | array | bracket | range | entriesRest | value =>
    cases h
    cases hgs
  | token t ht =>
    by_cases ht : Token.keyword .catch = t
    · rw [show (Goal.token t _).move (.keyword .catch) u = .take [] from if_pos ht] at h
      cases h
    · rw [show (Goal.token t _).move (.keyword .catch) u = .refuse from if_neg ht] at h
      cases h
  | after s => cases s <;> first | rfl | cases h
  | _ => first | rfl | cases h

theorem samples_of_passes {gs : List Goal} {u : Token} (h : Passes (.keyword .catch) u gs []) : samples gs = [] := by
  induction h using Relation.ReflTransGen.head_induction_on with
  | refl => rfl
  | head hstep hrest ih =>
    obtain ⟨g, gs₁, below, rfl, hmove, rfl⟩ := hstep
    rw [samples, List.flatMap_append, List.append_eq_nil_iff] at ih
    rw [samples, List.flatMap_cons, Goal.sample_of_pass hmove ih.1, ih.2]
    rfl

theorem wanted_of_samples {gs : List Goal} (h : samples gs = []) (t : Token) : wanted gs t = t := by
  induction gs with
  | nil => rfl
  | cons g gs ih =>
    rw [samples, List.flatMap_cons, List.append_eq_nil_iff] at h
    rw [wanted, h.1]
    exact ih h.2

/-- Only a term begins with a dot that starts no access. -/
theorem Goal.eq_primary_of_dot {g : Goal} {gs : List Goal} {u : Token} (h : g.move .dot u = .take gs) :
    g = .primary ∧ gs = [.dotted] := by
  cases g with
  | primary =>
    cases h
    exact ⟨rfl, rfl⟩
  | token t ht =>
    by_cases hdot : Token.dot = t
    · subst hdot
      cases ht
    · rw [show (Goal.token t ht).move .dot u = .refuse from if_neg hdot] at h
      cases h
  | suffixes => cases u <;> cases h
  | unchained op =>
    rw [show (Goal.unchained op).move .dot u = .pass [] from if_neg fun h => nomatch h.2] at h
    cases h
  | more r => cases r <;> cases h
  | after s => cases s <;> cases h
  | _ => cases h

/-- Behind the word of a reduction there is no label at the end of its source. -/
theorem label_in_source {mid : List Token} (hwhole : Whole (mid ++ [.dot])) {ml al : Lexemes} {o : Nat}
    (hml : ml.map Lexeme.token = mid) :
    ∃ above, samples above = [] ∧
      Reaches ([.term], ml ++ ⟨.keyword .label, o⟩ :: al) (.primary :: above, ⟨.keyword .label, o⟩ :: al) := by
  have hrun : Reaches ([.term], placed mid ++ placed [.dot, .keyword .catch, .eof]) ([], placed [.keyword .catch, .eof]) := by
    have hterm := hwhole.reaches
    rwa [List.append_assoc, placed_append] at hterm
  obtain ⟨gs, -, hdot, hany⟩ := hrun.onFront (by decide) fun h => absurd h not_accesses_dot
  obtain ⟨g, gs₁, above, hpasses, htake, hrest⟩ :=
    hdot.taken (l := ⟨.dot, 0⟩) (Nat.le_refl _) nofun fun _ => not_accesses_keyword .catch
  obtain ⟨rfl, rfl⟩ := Goal.eq_primary_of_dot htake
  have hcatch : Passes (.keyword .catch) .eof ([.dotted] ++ above) [] := hrest.passes nofun
  have hsamples : samples (.dotted :: above) = [] := samples_of_passes hcatch
  refine ⟨above, hsamples, ?_⟩
  have hlabel : Reaches ([.term], ml ++ ⟨.keyword .label, o⟩ :: al) (gs, ⟨.keyword .label, o⟩ :: al) :=
    hany (hml.trans (map_placed mid).symm) (not_accesses_keyword .label)
  refine hlabel.trans ?_
  exact Passes.reaches ((passes_label (not_accesses_keyword .catch) _).1 hpasses)

/-- The goals that the word of a reduction is taken by: it may be a name, too. -/
theorem Goal.takes_reduction {g : Goal} {gs : List Goal} {w : Keyword} {u : Token} (hw : w = .reduce ∨ w = .foreach)
    (h : g.move (.keyword w) u = .take gs) : g = .primary ∨ g = .name ∨ g = .entries ∨ g = .patternEntry := by
  cases g with
  | primary => exact .inl rfl
  | name => exact .inr (.inl rfl)
  | entries => exact .inr (.inr (.inl rfl))
  | patternEntry => exact .inr (.inr (.inr rfl))
  | token t ht =>
    by_cases hword : Token.keyword w = t
    · subst hword
      obtain rfl | rfl := hw <;> cases ht
    · rw [show (Goal.token t ht).move (.keyword w) u = .refuse from if_neg hword] at h
      cases h
  | unchained op =>
    have hnone : ¬ (op.associativity = .none ∧
        (operator? [⟨.keyword w, 0⟩]).map Operator.precedence = some op.precedence) := by
      obtain rfl | rfl := hw <;> exact fun h => nomatch h.2
    rw [show (Goal.unchained op).move (.keyword w) u = .pass [] from if_neg hnone] at h
    cases h
  | more r => obtain rfl | rfl := hw <;> cases r <;> cases h
  | after s => obtain rfl | rfl := hw <;> cases s <;> cases h
  | _ => obtain rfl | rfl := hw <;> cases h

/-- A term begins with a token that opens one. -/
theorem Reaches.opens {ls ls' : Lexemes} {below : List Goal} (h : Reaches (.term :: below, ls) ([], ls')) :
    openTerm (peek ls) ≠ .refuse :=
  Reaches.not_refused (g := .primary) (h.pass_inv rfl)

theorem not_reaches_mark {t : Token} {ht : t.isMark = true} {below : List Goal} {ls ls' : Lexemes}
    (hopens : openTerm (peek ls) ≠ .refuse) (hrefused : openTerm t = .refuse) :
    ¬ Reaches (.token t ht :: below, ls) ([], ls') := by
  intro h
  refine h.not_refused (if_neg ?_)
  rintro rfl
  exact hopens hrefused

/-- Behind the key of an entry no term begins. -/
theorem not_reaches_entry {below : List Goal} {ls ls' : Lexemes} (hopens : openTerm (peek ls) ≠ .refuse) :
    ¬ Reaches (.after .value :: .entriesRest :: below, ls) ([], ls') := by
  intro h
  have hcolon : peek ls ≠ .colon := fun hpeek => hopens (by rw [hpeek]; rfl)
  have hcomma : peek ls ≠ .op .comma := fun hpeek => hopens (by rw [hpeek]; rfl)
  exact not_reaches_mark hopens rfl ((h.pass_inv (if_neg hcolon)).pass_inv (if_neg hcomma))

/-- A parameter is a query by itself. -/
theorem parameter_completed {x : Token} (hx : (parameter? x).isSome = true) {o : Nat} {below : List Goal} {ls : Lexemes}
    (hls : closesQuery (peek ls) = true) : Reaches (.pipe :: below, ⟨x, o⟩ :: ls) (below, ls) := by
  have hterm := closesTerm_of_closesQuery hls
  have hrest : Reaches (.suffixes :: .binding :: .rest 1 :: below, ls) (below, ls) :=
    (reaches_of_admits (g := .suffixes) rfl hterm).trans
      ((reaches_of_admits (g := .binding) rfl hls).trans (reaches_of_admits (g := .rest 1) rfl hls))
  have hprimary : Reaches (.primary :: .suffixes :: .binding :: .rest 1 :: below, ⟨x, o⟩ :: ls) (below, ls) := by
    cases x with
    | ident => exact .take rfl ((reaches_of_admits (g := .call) rfl hterm).trans hrest)
    | «variable» => exact .take rfl hrest
    | _ => cases hx
  have hpipe : Goal.pipe.move x (peek ls) = .pass [.operand, .rest 1] := by
    refine if_neg ?_
    rintro rfl
    cases hx
  exact .pass hpipe (.pass rfl (.pass rfl hprimary))

/-- Behind the name of a definition no term stands, although parameters look like one. -/
theorem not_reaches_parameterList {below : List Goal} {mid ls ls' : Lexemes} {o : Nat}
    (hwhole : Whole (mid.map Lexeme.token ++ [.dot])) (hopens : openTerm (peek (mid ++ ⟨.keyword .label, o⟩ :: ls)) ≠ .refuse) :
    ¬ Reaches (.parameterList :: .sign .colon :: below, mid ++ ⟨.keyword .label, o⟩ :: ls) ([], ls') := by
  intro h
  obtain - | ⟨⟨t, o₁⟩, mid⟩ := mid
  · exact not_reaches_mark hopens rfl (h.pass_inv rfl)
  by_cases hparen : t = .leftParen
  · subst hparen
    have hparameter := h.take_inv rfl
    have hname : (parameter? (peek (mid ++ ⟨.keyword .label, o⟩ :: ls))).isSome = true := by
      by_contra hnone
      exact hparameter.not_refused (if_neg hnone)
    obtain - | ⟨⟨x, o₂⟩, mid⟩ := mid
    · cases hname
    have hmore := hparameter.take_inv (if_pos hname)
    have hwritten : Reaches ([.pipe, .sign .rightParen, .suffixes],
        placed (x :: (mid.map Lexeme.token ++ [.dot, .keyword .catch, .eof]))) ([], placed [.keyword .catch, .eof]) := by
      have hterm := hwhole.reaches
      rw [List.append_assoc] at hterm
      exact (hterm.pass_inv rfl).take_inv rfl
    obtain - | ⟨⟨u, o₃⟩, mid⟩ := mid
    · exact (hmore.pass_inv rfl).not_refused rfl
    by_cases hsemicolon : u = .semicolon
    · subst hsemicolon
      exact (hwritten.goOn (parameter_completed hname rfl)).not_refused rfl
    obtain ⟨rfl, hcolon⟩ := (hmore.pass_inv (if_neg hsemicolon)).token_take
    have hsuffixes := ((hwritten.goOn (parameter_completed hname rfl)).token_take).2
    obtain - | ⟨⟨v, o₄⟩, mid⟩ := mid
    · exact hcolon.not_refused rfl
    obtain ⟨rfl, -⟩ := hcolon.token_take
    cases (hsuffixes.pass_inv rfl).done_inv
  · exact not_reaches_mark hopens rfl (h.pass_inv (if_neg hparen))

/-- **A label at the end of the source of a reduction leaves no completion.** -/
theorem Stuck.not_completable {ts : List Token} (h : Stuck ts) : ¬ Completable ts := by
  rintro ⟨source, ls, q, hscan, ⟨more, hls⟩, hparse⟩
  obtain ⟨before, w, mid, after, rfl, hw, hwhole⟩ := h
  obtain ⟨oEnd, hrun⟩ := parse_ok hscan hparse
  obtain ⟨bl, rest, rfl, rfl, hrest⟩ : ∃ bl rest, ls = bl ++ rest ∧ bl.map Lexeme.token = before ∧
      rest.map Lexeme.token = .keyword w :: (mid ++ .keyword .label :: (after ++ more)) :=
    List.map_eq_append_iff.1 (by rw [← hls]; simp)
  obtain ⟨o, rest, rfl, hmid⟩ := exists_lexeme hrest
  obtain ⟨ml, rest, rfl, rfl, hlabel⟩ := List.map_eq_append_iff.1 hmid
  obtain ⟨o', al, rfl, -⟩ := exists_lexeme hlabel
  have hopens : openTerm (peek (ml ++ ⟨.keyword .label, o'⟩ :: al)) ≠ .refuse := by
    obtain - | ⟨l, ml⟩ := ml
    · exact nofun
    · exact hwhole.reaches.opens
  obtain ⟨gs, hcut, hon, -⟩ := hrun.onFront (by simp) fun h => absurd h (not_accesses_keyword w)
  have hshort : 1 ≤ (ml ++ ⟨.keyword .label, o'⟩ :: al).length := by
    rw [List.length_append, List.length_cons]
    omega
  obtain ⟨g, gs₁, below, hpasses, htake, hbehind⟩ := hon.taken hshort nofun nofun
  obtain rfl | rfl | rfl | rfl := Goal.takes_reduction hw htake
  · obtain ⟨tail, rfl⟩ : ∃ tail, gs₁ = .term :: .word .as :: tail := by
      obtain rfl | rfl := hw <;> cases htake <;> exact ⟨_, rfl⟩
    obtain ⟨above, hsamples, hterm⟩ := @label_in_source _ hwhole ml al o' rfl
    have hreach : Reaches ([.pipe], bl ++ ⟨.keyword w, o⟩ :: (ml ++ ⟨.keyword .label, o'⟩ :: al))
        (.primary :: (above ++ .word .as :: (tail ++ below)), ⟨.keyword .label, o'⟩ :: al) :=
      hcut.trans ((@Passes.reaches _ _ (_ :: _) hpasses).trans (.take htake (hterm.above (.word .as :: (tail ++ below)))))
    have hwanted : wanted (above ++ .word .as :: (tail ++ below)) .eof = .keyword .as := by
      rw [wanted_append, wanted_of_samples hsamples]
      rfl
    have hquery : Linked [.pipe] .eof := ⟨rfl, rfl, trivial⟩
    obtain hlinked | ⟨below', o₁, ls₁, hearlier, hlinked, hwanted', -⟩ := hreach.linked_or_label hquery
    · exact label_hopeless hlinked hwanted (hrun.goOn hreach)
    · exact label_hopeless hlinked hwanted' (hrun.goOn hearlier)
  · have hname : (wordKey? (.keyword w)).isSome = true := rfl
    cases htake
    exact not_reaches_parameterList hwhole hopens hbehind
  · cases htake
    exact not_reaches_entry hopens hbehind
  · cases htake
    exact not_reaches_mark hopens rfl hbehind

/-! ## Valid prefixes -/

/-- **What stands in front of the token at which a source is refused can be completed to a query**, unless a label has
taken what a reduction needs behind its source. The source is one without interpolations. -/
theorem valid_prefix {source : String} {ls : Lexemes} {d : Diagnostic} (hscan : Token.scan source 0 = .ok ls)
    (hplain : Uninterpolated ls) (herror : Query.parse source = .error d) :
    ∃ front l back, ls = front ++ l :: back ∧ l.offset = d.offset ∧ (∀ l' ∈ ls, l'.offset = d.offset → l' = l) ∧
      (Completable (front.map Lexeme.token) ↔ ¬ Stuck (front.map Lexeme.token)) := by
  obtain ⟨gs, ls', hrun, hoffset⟩ := parse_error hscan hplain herror
  have hends := endsOnce_of_scan hscan
  obtain ⟨front, rest, rfl, hplace⟩ := hrun.leaves
  have hleft : ∃ l ∈ ls', l.token = .eof := by
    obtain ⟨before, o, heq, -⟩ := hends
    exact hrun.ends ⟨⟨.eof, o⟩, by rw [heq]; simp, rfl⟩
  obtain - | ⟨l, back⟩ := rest
  · rw [List.eq_nil_of_length_eq_zero hplace.length] at hleft
    exact absurd hleft (by simp)
  have ho : l.offset = d.offset := hplace.offset.symm.trans hoffset.symm
  refine ⟨front, l, back, rfl, ho, fun l' hl' ho' => ?_, fun h hstuck => hstuck.not_completable h, fun hstuck => ?_⟩
  · obtain ⟨-, hback, hacross⟩ := List.pairwise_append.1 (Token.increasing_of_scan hscan)
    obtain hl' | hl' := List.mem_append.1 hl'
    · have := hacross l' hl' l List.mem_cons_self
      omega
    obtain rfl | hl' := List.mem_cons.1 hl'
    · rfl
    · have := (List.pairwise_cons.1 hback).1 l' hl'
      omega
  · obtain ⟨gs₁, hcut, -, hany⟩ := hrun.onFront (Nat.le_of_eq hplace.length) fun _ => Nat.le_of_eq hplace.length.symm
    have hquery : Linked [.pipe] .eof := ⟨rfl, rfl, trivial⟩
    obtain hlinked | ⟨below, o, ls₁, hlabel, hlinked, hwanted, hbehind⟩ := hcut.linked_or_label hquery
    · exact completable_of_linked hscan hplain hany hlinked
    · have hfront : ∀ l ∈ front, l.token.Uninterpolated ∧ l.token ≠ .eof :=
        fun l' hl' => ⟨hplain l' (List.mem_append_left _ hl'), hends.right.2 l' hl'⟩
      exact absurd (stuck_of_label hfront hlabel hlinked hwanted hbehind) hstuck

/-- A semicolon in a bracket, in an object, in a definition. -/
theorem valid_prefix_bracket :
    Token.scan "def f: \x7ba: [.b;" 0 = .ok [⟨.keyword .define, 0⟩, ⟨.ident "f", 4⟩, ⟨.colon, 5⟩, ⟨.leftBrace, 7⟩,
        ⟨.ident "a", 8⟩, ⟨.colon, 9⟩, ⟨.leftBracket, 11⟩, ⟨.field "b", 12⟩, ⟨.semicolon, 14⟩, ⟨.eof, 15⟩] ∧
      Query.parse "def f: \x7ba: [.b;" = .error ⟨"unexpected \";\", expected \"]\"", 14, ⟨1, 15⟩⟩ ∧
      Completable [.keyword .define, .ident "f", .colon, .leftBrace, .ident "a", .colon, .leftBracket, .field "b"] := by
  have hscan : Token.scan "def f: \x7ba: [.b;" 0 = .ok [⟨.keyword .define, 0⟩, ⟨.ident "f", 4⟩, ⟨.colon, 5⟩,
      ⟨.leftBrace, 7⟩, ⟨.ident "a", 8⟩, ⟨.colon, 9⟩, ⟨.leftBracket, 11⟩, ⟨.field "b", 12⟩, ⟨.semicolon, 14⟩,
      ⟨.eof, 15⟩] := ok_of_toOption (by decide +kernel)
  have herror : Query.parse "def f: \x7ba: [.b;" = .error ⟨"unexpected \";\", expected \"]\"", 14, ⟨1, 15⟩⟩ :=
    error_of_fault? (by decide +kernel)
  refine ⟨hscan, herror, ?_⟩
  obtain ⟨front, l, back, hls, -, hsame, hiff⟩ :=
    valid_prefix hscan (by simp [Uninterpolated, Token.Uninterpolated]) herror
  obtain rfl : ⟨.semicolon, 14⟩ = l := hsame _ (by decide) rfl
  have hcut : [⟨.keyword .define, 0⟩, ⟨.ident "f", 4⟩, ⟨.colon, 5⟩, ⟨.leftBrace, 7⟩, ⟨.ident "a", 8⟩, ⟨.colon, 9⟩,
      ⟨.leftBracket, 11⟩, ⟨.field "b", 12⟩] ++ ⟨.semicolon, 14⟩ :: [⟨.eof, 15⟩] = front ++ ⟨.semicolon, 14⟩ :: back := hls
  obtain ⟨rfl, -, -⟩ := (List.append_cons_inj_of_notMem (by decide) (by decide)).1 hcut
  refine hiff.2 ?_
  rintro ⟨before, w, mid, after, htokens, hw, -⟩
  have hmem : Token.keyword w ∈ before ++ .keyword w :: (mid ++ .keyword .label :: after) := by simp
  rw [← htokens] at hmem
  obtain rfl | rfl := hw <;> revert hmem <;> decide

/-- The query of a label takes the `as` of a reduction: nothing completes its source, which is refused at its end. -/
theorem label_without_completion :
    Token.scan "reduce label $x | ." 0 = .ok [⟨.keyword .reduce, 0⟩, ⟨.keyword .label, 7⟩, ⟨.variable "$x", 13⟩,
        ⟨.op .pipe, 16⟩, ⟨.dot, 18⟩, ⟨.eof, 19⟩] ∧
      Query.parse "reduce label $x | ." = .error ⟨"unexpected end of input, expected keyword \"as\"", 19, ⟨1, 20⟩⟩ ∧
      ¬ Completable [.keyword .reduce, .keyword .label, .variable "$x", .op .pipe, .dot] := by
  refine ⟨ok_of_toOption (by decide +kernel), error_of_fault? (by decide +kernel), Stuck.not_completable ?_⟩
  exact ⟨[], .reduce, [], [.variable "$x", .op .pipe, .dot], rfl, .inl rfl, 4, _, rfl⟩

end Grammar
end DefTable
