import DefTable.Proofs.Balance
import DefTable.Proofs.DerivationCompleteness
import DefTable.Proofs.PrintedScan
import DefTable.Proofs.StepBound

/-!
# Texts made of pieces

A text that is put together from pieces is cut into the tokens of the pieces, wherever it starts and whatever follows it
(`Token.Cuts`), and is skipped piece by piece (`Token.Leads`). Pieces are signs, reserved words with blanks, and sources
with a line feed behind them.
-/

namespace DefTable

open Text Grammar

/-! ## Sources in other places -/

namespace Grammar

open Change

variable {δ : Change}

/-- What a production read is read from corresponding lexemes, if these are of a source. -/
theorem derives_alike (p : Production) (run : Nat → Lexemes → Parsed (Node p.shape × Lexemes))
    {ls ls' rest : Lexemes} {x : Node p.shape} {k w : Nat} (hruns : Ends (fun n => run n ls) (.ok (x, rest)))
    (hlock : ∀ n, k ≤ n → δ.pairing.Agree (δ.pairing.Leaves () w) (run n ls) (run k ls'))
    (hsound : ∀ {rest'}, run k ls' = .ok (x, rest') → Derives p ls' x rest' ∧ Spelled rest') :
    ∃ rest', Derives p ls' x rest' ∧ Spelled rest' ∧ δ.Alike rest rest' := by
  obtain ⟨m, hm⟩ := hruns
  have hagree := hlock _ (Nat.le_max_right m k)
  have hm : run (max m k) ls = .ok (x, rest) := hm _ (Nat.le_max_left m k)
  rw [hm] at hagree
  generalize hy : run k ls' = y at hagree
  cases hagree with
  | @ok _ r h =>
    obtain ⟨x', rest'⟩ := r
    obtain ⟨rfl, hrest, -⟩ := h
    obtain ⟨hderives, hspelled⟩ := hsound hy
    exact ⟨rest', hderives, hspelled, hrest⟩

/-- The sign behind an entry of an object: a comma, if there are `more` of them. -/
def entryEnd (more : Bool) : Token :=
  if more then .op .comma else .rightBrace

theorem isPlain_entryEnd (more : Bool) : (entryEnd more).isPlain = true := by
  cases more <;> rfl

/-- A source holds the value of an entry, and the sign behind the entry. -/
def IsValue (source : String) (v : Query) (more : Bool) : Prop :=
  ∃ n ls o rest, Token.scan source 0 = .ok ls ∧ objectValue n ls = .ok (v, ⟨entryEnd more, o⟩ :: rest) ∧
    peek rest = .eof

/-- A source holds an entry of an object, and the sign behind it. -/
def IsEntry (source : String) (e : Node .entry) (more : Bool) : Prop :=
  ∃ n ls o rest, Token.scan source 0 = .ok ls ∧ objectEntry n ls = .ok (e, ⟨entryEnd more, o⟩ :: rest) ∧
    peek rest = .eof

/-- A source holds a term, the word `as` and a pattern: what a reduction goes over. -/
def IsHead (source : String) (t : Term) (p : Pattern) : Prop :=
  ∃ n ls o ls₁ rest, Token.scan source 0 = .ok ls ∧ term n ls = .ok (t, ⟨.keyword .as, o⟩ :: ls₁) ∧
    pattern n ls₁ = .ok (p, rest) ∧ peek rest = .eof

/-- In another place a source has corresponding lexemes. -/
theorem scan_elsewhere_alike {source : String} {ls : Lexemes} (h : Token.scan source 0 = .ok ls) (base : Nat) :
    Token.scan source base = .ok (ls.map (Lexeme.shift base)) ∧ (shifted base).Alike ls (ls.map (Lexeme.shift base)) ∧
      Spelled (ls.map (Lexeme.shift base)) := by
  have hscan := Token.scan_shift (k := base) source 0
  rw [Nat.zero_add, h, shiftResult] at hscan
  exact ⟨hscan, alike_shift _ h, Token.wellSpelled_scan hscan⟩

theorem Change.Alike.peek_eof {ls ls' : Lexemes} (h : δ.Alike ls ls') (hend : peek ls = .eof) : peek ls' = .eof :=
  (h.peek_eq_iff .eof nofun).2 hend

theorem Change.Alike.plain_cons {t : Token} {o : Nat} {ls ls' : Lexemes} (h : δ.Alike (⟨t, o⟩ :: ls) ls')
    (ht : t.isPlain = true) : ∃ o' rest', ls' = ⟨t, o'⟩ :: rest' ∧ δ.Alike ls rest' := by
  cases h with
  | finish => cases ht
  | plain _ _ h => exact ⟨_, _, rfl, h⟩
  | string => cases ht

theorem IsValue.elsewhere {source : String} {v : Query} {more : Bool} (h : IsValue source v more) (base : Nat) :
    ∃ ls o rest, Token.scan source base = .ok ls ∧ Derives .objectValue ls v (⟨entryEnd more, o⟩ :: rest) ∧
      peek rest = .eof := by
  obtain ⟨n, ls, o, rest, hscan, hv, hend⟩ := h
  obtain ⟨hv, -⟩ := (sound n).objectValue (Token.wellSpelled_scan hscan) hv
  obtain ⟨hscan, hls, hspelled⟩ := scan_elsewhere_alike hscan base
  obtain ⟨_, hv, -, hrest⟩ := derives_alike .objectValue objectValue hv.runs
    (fun _ hn => (lockstep_of_le shifted_scans hn (Nat.le_refl _)).objectValue hls (Nat.le_refl _))
    ((sound _).objectValue hspelled)
  obtain ⟨_, _, rfl, hbehind⟩ := hrest.plain_cons (isPlain_entryEnd more)
  exact ⟨_, _, _, hscan, hv, hbehind.peek_eof hend⟩

theorem IsEntry.elsewhere {source : String} {e : Node .entry} {more : Bool} (h : IsEntry source e more) (base : Nat) :
    ∃ ls o rest, Token.scan source base = .ok ls ∧ Derives .objectEntry ls e (⟨entryEnd more, o⟩ :: rest) ∧
      peek rest = .eof := by
  obtain ⟨n, ls, o, rest, hscan, he, hend⟩ := h
  obtain ⟨he, -⟩ := (sound n).objectEntry (Token.wellSpelled_scan hscan) he
  obtain ⟨hscan, hls, hspelled⟩ := scan_elsewhere_alike hscan base
  obtain ⟨_, he, -, hrest⟩ := derives_alike .objectEntry objectEntry he.runs
    (fun _ hn => (lockstep_of_le shifted_scans hn (Nat.le_refl _)).objectEntry hls (Nat.le_refl _))
    ((sound _).objectEntry hspelled)
  obtain ⟨_, _, rfl, hbehind⟩ := hrest.plain_cons (isPlain_entryEnd more)
  exact ⟨_, _, _, hscan, he, hbehind.peek_eof hend⟩

theorem IsHead.elsewhere {source : String} {t : Term} {p : Pattern} (h : IsHead source t p) (base : Nat) :
    ∃ ls o ls₁ rest, Token.scan source base = .ok ls ∧ Derives .term ls t (⟨.keyword .as, o⟩ :: ls₁) ∧
      Derives .pattern ls₁ p rest ∧ peek rest = .eof := by
  obtain ⟨n, ls, o, ls₁, rest, hscan, ht, hp, hend⟩ := h
  obtain ⟨ht, hspelled₁⟩ := (sound n).term (Token.wellSpelled_scan hscan) ht
  obtain ⟨hp, -⟩ := (sound n).pattern hspelled₁.tail hp
  obtain ⟨hscan, hls, hspelled⟩ := scan_elsewhere_alike hscan base
  obtain ⟨rest₁, ht, hspelled₁, hrest₁⟩ := derives_alike .term term ht.runs
    (fun _ hn => (lockstep_of_le shifted_scans hn (Nat.le_refl _)).term hls (Nat.le_refl _))
    ((sound _).term hspelled)
  obtain ⟨_, _, rfl, hls₁⟩ := hrest₁.plain_cons rfl
  obtain ⟨rest', hp, -, hrest⟩ := derives_alike .pattern pattern hp.runs
    (fun _ hn => (lockstep_of_le shifted_scans hn (Nat.le_refl _)).pattern hls₁ (Nat.le_refl _))
    ((sound _).pattern hspelled₁.tail)
  exact ⟨_, _, _, rest', hscan, ht, hp, hrest.peek_eof hend⟩

end Grammar

open Grammar in
theorem Query.read_elsewhere {source : String} {q : Query} (h : Query.parse source = .ok q) (base : Nat) :
    ∃ ls rest, Token.scan source base = .ok ls ∧ Derives .pipe ls q rest ∧ peek rest = .eof := by
  obtain ⟨ls, rest, hscan, hspelled, hq, hend⟩ := Query.derives_of_parse h
  obtain ⟨hscan, hls, hspelled⟩ := scan_elsewhere_alike hscan base
  obtain ⟨rest', hq, -, hrest⟩ := derives_alike .pipe pipe hq.runs
    (fun _ hn => (Change.lockstep_of_le Change.shifted_scans hn (Nat.le_refl _)).pipe hls (Nat.le_refl _))
    ((sound _).pipe hspelled)
  exact ⟨_, rest', hscan, hq, hrest.peek_eof hend⟩

namespace Token

/-! ## Pieces and their tokens -/

/-- Wherever a text starts, and whatever follows it of what is `allowed`, it is cut into lexemes of which `P` holds, in
front of those of what follows. The lexemes are given by what they make of those behind them. -/
def Cuts (allowed : List Char → Prop) (text : String) (P : (Lexemes → Lexemes) → Prop) : Prop :=
  ∀ base rest, allowed rest → ∃ front next, P front ∧
    scanFrom ⟨base, text.toList ++ rest⟩ = (scanFrom ⟨next, rest⟩).map front

/-- Anything may follow. -/
def Anything (_ : List Char) : Prop :=
  True

/-- What goes on no name. -/
def EndsName (rest : List Char) : Prop :=
  splitName rest = ([], rest)

/-- One lexeme. -/
def Puts (t : Token) (front : Lexemes → Lexemes) : Prop :=
  ∃ o, front = (⟨t, o⟩ :: ·)

section
variable {C D : List Char → Prop} {a b text : String} {P Q : (Lexemes → Lexemes) → Prop}

theorem Cuts.imp (h : Cuts C text P) (hPQ : ∀ front, P front → Q front) : Cuts C text Q := by
  intro base rest hrest
  obtain ⟨front, next, hfront, hscan⟩ := h base rest hrest
  exact ⟨front, next, hPQ front hfront, hscan⟩

theorem Cuts.anything (h : Cuts Anything text P) : Cuts C text P :=
  fun base rest _ => h base rest trivial

theorem Cuts.append (ha : Cuts C a P) (hb : Cuts D b Q) (hab : ∀ rest, D rest → C (b.toList ++ rest)) :
    Cuts D (a ++ b) fun front => ∃ f g, P f ∧ Q g ∧ front = f ∘ g := by
  intro base rest hrest
  obtain ⟨f, next, hf, hscan⟩ := ha base (b.toList ++ rest) (hab rest hrest)
  obtain ⟨g, next', hg, hscan'⟩ := hb next rest hrest
  refine ⟨f ∘ g, next', ⟨f, g, hf, hg, rfl⟩, ?_⟩
  rw [String.toList_append, List.append_assoc, hscan, hscan']
  cases scanFrom ⟨next', rest⟩ <;> rfl

/-- In front of what goes on no name. -/
theorem Cuts.beforeSign (ha : Cuts EndsName a P) (hb : Cuts D b Q) (hab : ∀ rest, EndsName (b.toList ++ rest)) :
    Cuts D (a ++ b) fun front => ∃ f g, P f ∧ Q g ∧ front = f ∘ g :=
  ha.append hb fun rest _ => hab rest

/-- In front of anything. -/
theorem Cuts.before (ha : Cuts Anything a P) (hb : Cuts D b Q) :
    Cuts D (a ++ b) fun front => ∃ f g, P f ∧ Q g ∧ front = f ∘ g :=
  ha.append hb fun _ _ => trivial

theorem Cuts.blank : Cuts Anything " " (· = id) := by
  intro base rest _
  refine ⟨id, base + 1, rfl, ?_⟩
  have hblank : (" " : String).toList ++ rest = ' ' :: rest := rfl
  rw [hblank, scanFrom_blank]
  cases scanFrom ⟨base + 1, rest⟩ <;> rfl

theorem Cuts.token {t : Token} (hread : ∀ rest, C rest → ReadsAs t text.toList rest) : Cuts C text (Puts t) := by
  intro base rest hrest
  obtain ⟨o, next, hscan⟩ := scanFrom_token .nil (hread rest hrest) base
  exact ⟨_, next, ⟨o, rfl⟩, hscan⟩

/-- A sign of one character. -/
theorem Cuts.sign {c : Char} {t : Token} (htext : text.toList = [c])
    (hread : ∀ offset cs, read offset c cs = .ok (t, ⟨offset + 1, cs⟩)) (hblank : isBlank c = false)
    (hcomment : c ≠ '#') (hsize : c.utf8Size = 1) : Cuts Anything text (Puts t) := by
  refine .token fun rest _ => ?_
  rw [htext]
  refine ⟨c, [], rfl, hblank, hcomment, fun offset => ?_⟩
  rw [List.nil_append, hread, Cursor.behind, byteLength_cons, byteLength_nil, hsize]

theorem cuts_leftParen : Cuts Anything "(" (Puts .leftParen) :=
  .sign rfl (fun _ _ => rfl) rfl (by decide) (by decide)

theorem cuts_rightParen : Cuts Anything ")" (Puts .rightParen) :=
  .sign rfl (fun _ _ => rfl) rfl (by decide) (by decide)

theorem cuts_leftBracket : Cuts Anything "[" (Puts .leftBracket) :=
  .sign rfl (fun _ _ => rfl) rfl (by decide) (by decide)

theorem cuts_rightBracket : Cuts Anything "]" (Puts .rightBracket) :=
  .sign rfl (fun _ _ => rfl) rfl (by decide) (by decide)

theorem cuts_leftBrace : Cuts Anything "\x7b" (Puts .leftBrace) :=
  .sign rfl (fun _ _ => rfl) rfl (by decide) (by decide)

theorem cuts_rightBrace : Cuts Anything "\x7d" (Puts .rightBrace) :=
  .sign rfl (fun _ _ => rfl) rfl (by decide) (by decide)

theorem cuts_semicolon : Cuts Anything ";" (Puts .semicolon) :=
  .sign rfl (fun _ _ => rfl) rfl (by decide) (by decide)

theorem cuts_colon : Cuts Anything ":" (Puts .colon) :=
  .sign rfl (fun _ _ => rfl) rfl (by decide) (by decide)

theorem cuts_comma : Cuts Anything "," (Puts (.op .comma)) :=
  .sign rfl (fun _ _ => rfl) rfl (by decide) (by decide)

/-- A dot in front of a bracket. -/
theorem cuts_dotBracket : Cuts Anything ".[" fun front => ∃ o o₁, front = (⟨.dot, o⟩ :: ⟨.leftBracket, o₁⟩ :: ·) := by
  have hdot : Cuts (fun rest => rest.head? = some '[') "." (Puts .dot) := by
    refine .token fun rest hrest => ?_
    obtain ⟨cs, rfl⟩ := List.head?_eq_some_iff.1 hrest
    exact ⟨'.', [], rfl, rfl, by decide, fun _ => rfl⟩
  refine (hdot.append cuts_leftBracket fun _ _ => rfl).imp ?_
  rintro _ ⟨_, _, ⟨o, rfl⟩, ⟨o₁, rfl⟩, rfl⟩
  exact ⟨o, o₁, rfl⟩

/-- What is in parentheses, if a closing one may follow it. -/
theorem Cuts.parentheses (h : Cuts EndsName a P) : Cuts Anything ("(" ++ a ++ ")") fun front =>
    ∃ f o o₁, P f ∧ front = fun tail => ⟨.leftParen, o⟩ :: f (⟨.rightParen, o₁⟩ :: tail) := by
  refine ((cuts_leftParen.before h).beforeSign cuts_rightParen fun _ => rfl).imp ?_
  rintro _ ⟨_, _, ⟨_, f, ⟨o, rfl⟩, hf, rfl⟩, ⟨o₁, rfl⟩, rfl⟩
  exact ⟨f, o, o₁, hf, rfl⟩

theorem Cuts.word {word : String} (h : IsWord word.toList) : Cuts EndsName word (Puts (ofWord word)) := by
  refine .token fun rest hrest => ?_
  have hback : splitName (word.toList ++ rest) = (word.toList, rest) := splitName_append_of_none h.1 hrest
  have hread := readsAs_word hback h.2
  rwa [String.ofList_toList] at hread

theorem isWord_keyword (k : Keyword) : IsWord k.text.toList := by
  cases k <;> exact ⟨rfl, _, rfl, rfl⟩

theorem Cuts.keyword (k : Keyword) : Cuts EndsName k.text (Puts (.keyword k)) := by
  have hword : Cuts EndsName k.text (Puts (ofWord k.text)) := .word (isWord_keyword k)
  rwa [ofWord, Keyword.ofText?_text] at hword

/-- A reserved word with a blank behind it. -/
theorem Cuts.keywordBlank (k : Keyword) : Cuts Anything (k.text ++ " ") (Puts (.keyword k)) := by
  refine ((Cuts.keyword k).beforeSign .blank fun _ => rfl).imp ?_
  rintro _ ⟨_, _, ⟨o, rfl⟩, rfl, rfl⟩
  exact ⟨o, rfl⟩

/-- A reserved word between blanks. -/
theorem Cuts.blankKeyword (k : Keyword) : Cuts Anything (" " ++ (k.text ++ " ")) (Puts (.keyword k)) := by
  refine (Cuts.blank.before (.keywordBlank k)).imp ?_
  rintro _ ⟨_, _, rfl, ⟨o, rfl⟩, rfl⟩
  exact ⟨o, rfl⟩

/-- A source with a line feed behind it. -/
theorem Cuts.source {source : String} (h : ∀ base, ∃ ls, Token.scan source base = .ok ls ∧ P (inFrontOf ls)) :
    Cuts Anything (source ++ "\n") P := by
  intro base rest _
  obtain ⟨ls, hscan, hP⟩ := h base
  refine ⟨inFrontOf ls, Cursor.finish ⟨base, source.toList⟩ + 1, hP, ?_⟩
  rw [String.toList_append, List.append_assoc]
  exact scanFrom_lineFeed hscan rest

/-- A string between its quotes. -/
theorem Cuts.string {Q : List StringPart → Prop}
    (h : ∀ quote rest, ∃ pieces offset', readPieces quote (quote + 1) (a.toList ++ '"' :: rest) =
      .ok (pieces, ⟨offset', rest⟩) ∧ Q (partsOf pieces)) :
    Cuts Anything ("\"" ++ a ++ "\"") fun front => ∃ parts o, Q parts ∧ front = (⟨.str parts, o⟩ :: ·) := by
  intro base rest _
  have htext : ("\"" ++ a ++ "\"").toList ++ rest = [] ++ '"' :: (a.toList ++ '"' :: rest) := by
    rw [String.toList_append, String.toList_append, List.append_assoc, List.append_assoc]
    rfl
  obtain ⟨o, hscan⟩ := scanFrom_quote .nil base (a.toList ++ '"' :: rest)
  obtain ⟨pieces, offset', hread, hQ⟩ := h o rest
  refine ⟨_, offset', ⟨partsOf pieces, o, hQ, rfl⟩, ?_⟩
  rw [htext, hscan, readString, hread]

/-- All of a text. -/
theorem Cuts.scan (h : Cuts C text P) (hnil : C []) (base : Nat) :
    ∃ front o, Token.scan text base = .ok (front [⟨.eof, o⟩]) ∧ P front := by
  obtain ⟨front, next, hfront, hscan⟩ := h base [] hnil
  rw [List.append_nil, scanFrom_nil] at hscan
  exact ⟨front, next, hscan, hfront⟩

end

/-! ## Pieces and what they are inside of -/

/-- A text that is skipped in an interpolation leads from a number of open parentheses to another one. -/
def Leads (d d' : Nat) (text : String) : Prop :=
  ∀ below, Enclosure.after (.interpolation d 0 :: below) text.toList = .interpolation d' 0 :: below

theorem Leads.append {d d₁ d' : Nat} {a b : String} (ha : Leads d d₁ a) (hb : Leads d₁ d' b) :
    Leads d d' (a ++ b) := by
  intro below
  rw [String.toList_append, Enclosure.after_append, ha, hb]

theorem Leads.quiet {text : String} (h : ∀ c ∈ text.toList, Quiet c) (d : Nat) : Leads d d text :=
  fun _ => after_quiet h

theorem leads_leftParen (d : Nat) : Leads d (d + 1) "(" :=
  fun _ => rfl

theorem leads_rightParen (d : Nat) : Leads (d + 1) d ")" :=
  fun _ => rfl

/-- What is in parentheses may be skipped anywhere. -/
theorem Leads.parentheses {a : String} (h : ∀ d, Leads d d a) (d : Nat) : Leads d d ("(" ++ a ++ ")") :=
  ((leads_leftParen d).append (h _)).append (leads_rightParen d)

/-- A source that closes the parentheses that it opens may be skipped anywhere. -/
theorem Leads.source {source : String} {base : Nat} {ls : Lexemes} (hscan : scan source base = .ok ls) {d : Nat}
    (h : opened d (inFrontOf ls []) = some d) : Leads d d (source ++ "\n") := by
  intro below
  rw [String.toList_append]
  exact after_scanFrom below ⟨base, source.toList⟩ hscan h

end Token

end DefTable
