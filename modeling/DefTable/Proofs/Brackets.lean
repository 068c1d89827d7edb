import DefTable.Proofs.Cutting

/-!
# Queries in brackets

What a query means does not depend on the brackets around it. `Enclosed` has a rule for every place between brackets in
which a query can stand: a source with a line feed behind it can stand there, and so can a text that is made by the
rules. Every such text is the tree that its rules say (`enclosed_parse`), so the queries are found in their places as
they are by themselves.
-/

namespace DefTable

open Text Token Grammar

/-! ## Texts in brackets -/

/-- What can be put together, with the trees that it makes. -/
inductive Place where
  | query
  /-- The arguments of a call, between its parentheses. -/
  | arguments
  /-- What is between brackets, and the closing bracket. -/
  | bracket
  /-- The value of an entry of an object, and the sign behind the entry: a comma if there are `more`, else a brace. -/
  | value (more : Bool)
  /-- An entry of an object, and the sign behind it. -/
  | entry (more : Bool)
  /-- What is between braces, and the closing brace. -/
  | entries
  /-- What comes behind the first branch of a conditional. -/
  | otherwise
  /-- Interpolations in a string, each with the characters behind it. -/
  | splices
  | definition

@[reducible] def Place.Tree : Place → Type
  | .query => Query
  | .arguments => Node (.list .query)
  | .bracket => Index
  | .value _ => Query
  | .entry _ => Node .entry
  | .entries => Node (.list .entry)
  | .otherwise => Node (.list .branch) × Node (.optional .query)
  | .splices => Node (.list .query)
  | .definition => Definition

/-- Characters as they are written in a string. -/
def escaped (s : String) : String :=
  String.ofList (s.toList.flatMap Wording.escape)

/-- The characters between two interpolations as part of a string, if there are any. -/
def literals (s : String) : Node (.list .query) :=
  if s = "" then .nil else .cons (Query.ofTerm (Term.ofText (plainText s))) .nil

/-- **Queries in brackets**, and the trees that they make. -/
inductive Enclosed : (k : Place) → String → k.Tree → Prop where
  /-- A query by itself, with a line feed behind it. -/
  | source {s q} (h : Query.parse s = .ok q) : Enclosed .query (s ++ "\n") q
  | parentheses {a q} (h : Enclosed .query a q) :
      Enclosed .query ("(" ++ a ++ ")") (Query.ofTerm (Term.ofQuery q))
  | array {a q} (h : Enclosed .query a q) : Enclosed .query ("[" ++ a ++ "]") (Query.ofTerm (Term.ofArray (some q)))
  | call {name a qs} (hname : (Token.ident name).WellSpelled) (h : Enclosed .arguments a qs) :
      Enclosed .query (name ++ ("(" ++ a ++ ")")) (Query.ofTerm (Term.ofCall name qs.toList))
  | access {a i} (h : Enclosed .bracket a i) : Enclosed .query (".[" ++ a) (Query.ofTerm (Term.ofIndex i))
  | object {a es} (h : Enclosed .entries a es) :
      Enclosed .query ("\x7b" ++ a) (Query.ofTerm (Term.ofObject es.toList))
  | conditional {a b c q r o} (hcond : Enclosed .query a q) (hthen : Enclosed .query b r)
      (hotherwise : Enclosed .otherwise c o) :
      Enclosed .query ("if " ++ (a ++ " then " ++ b ++ " " ++ c))
        (Query.ofTerm (Term.ofConditional (.conditional q r o.1 o.2)))
  | reduce {s t p a b q r} (hhead : IsHead s t p) (hstart : Enclosed .query a q) (hupdate : Enclosed .query b r) :
      Enclosed .query ("reduce " ++ (s ++ "\n") ++ ("(" ++ (a ++ ";" ++ b) ++ ")"))
        (Query.ofTerm (Term.ofReduce (.reduce t p q r)))
  | foreach {s t p a b q r} (hhead : IsHead s t p) (hstart : Enclosed .query a q) (hupdate : Enclosed .query b r) :
      Enclosed .query ("foreach " ++ (s ++ "\n") ++ ("(" ++ (a ++ ";" ++ b) ++ ")"))
        (Query.ofTerm (Term.ofForeach (.foreach t p q r .absent)))
  | foreachExtract {s t p a b c q r e} (hhead : IsHead s t p) (hstart : Enclosed .query a q)
      (hupdate : Enclosed .query b r) (hextract : Enclosed .query c e) :
      Enclosed .query ("foreach " ++ (s ++ "\n") ++ ("(" ++ (a ++ ";" ++ b ++ ";" ++ c) ++ ")"))
        (Query.ofTerm (Term.ofForeach (.foreach t p q r (.present e))))
  | string {before a qs} (h : Enclosed .splices a qs) :
      Enclosed .query ("\"" ++ (escaped before ++ a) ++ "\"")
        (Query.ofTerm (Term.ofText (.text "" ((literals before).append qs))))
  -- arguments
  | lastArgument {a q} (h : Enclosed .query a q) : Enclosed .arguments a (.cons q .nil)
  | argument {a b q qs} (h : Enclosed .query a q) (hs : Enclosed .arguments b qs) :
      Enclosed .arguments (a ++ ";" ++ b) (.cons q qs)
  -- brackets
  | position {a q} (h : Enclosed .query a q) :
      Enclosed .bracket (a ++ "]") (.index "" .absent (.present q) .absent false)
  | sliceFrom {a q} (h : Enclosed .query a q) :
      Enclosed .bracket (a ++ " :]") (.index "" .absent (.present q) .absent true)
  | sliceTo {a q} (h : Enclosed .query a q) :
      Enclosed .bracket (":" ++ a ++ "]") (.index "" .absent .absent (.present q) true)
  | slice {a b q r} (hstart : Enclosed .query a q) (hstop : Enclosed .query b r) :
      Enclosed .bracket (a ++ " :" ++ b ++ "]") (.index "" .absent (.present q) (.present r) true)
  -- objects: any entry can stand beside one with a computed key, and with any value
  | value {s v more} (h : IsValue s v more) : Enclosed (.value more) (s ++ "\n") v
  | innerValue {a q} (h : Enclosed .query a q) :
      Enclosed (.value true) ("(" ++ a ++ ")" ++ ",") (Query.ofTerm (Term.ofQuery q))
  | lastValue {a q} (h : Enclosed .query a q) :
      Enclosed (.value false) ("(" ++ a ++ ")" ++ "\x7d") (Query.ofTerm (Term.ofQuery q))
  | entry {s e more} (h : IsEntry s e more) : Enclosed (.entry more) (s ++ "\n") e
  | computedEntry {a q b v more} (h : Enclosed .query a q) (hv : Enclosed (.value more) b v) :
      Enclosed (.entry more) ("(" ++ a ++ ")" ++ ":" ++ b) (.entry "" .absent (.present q) (.present v))
  | noEntries : Enclosed .entries "\x7d" .nil
  | lastEntry {a e} (h : Enclosed (.entry false) a e) : Enclosed .entries a (.cons e .nil)
  | moreEntries {a e b es} (h : Enclosed (.entry true) a e) (hs : Enclosed .entries b es) :
      Enclosed .entries (a ++ b) (.cons e es)
  -- branches
  | finish : Enclosed .otherwise "end" (.nil, .absent)
  | otherwise {a q} (h : Enclosed .query a q) : Enclosed .otherwise ("else " ++ a ++ " end") (.nil, .present q)
  | branch {a b c q r o} (hcond : Enclosed .query a q) (hthen : Enclosed .query b r)
      (hotherwise : Enclosed .otherwise c o) :
      Enclosed .otherwise ("elif " ++ (a ++ " then " ++ b ++ " " ++ c)) (.cons (.branch q r) o.1, o.2)
  -- interpolations
  | lastSplice {a q behind} (h : Enclosed .query a q) :
      Enclosed .splices ("\\(" ++ a ++ ")" ++ escaped behind) (.cons q (literals behind))
  | splice {a q behind b qs} (h : Enclosed .query a q) (hs : Enclosed .splices b qs) :
      Enclosed .splices ("\\(" ++ a ++ ")" ++ (escaped behind ++ b)) (.cons q ((literals behind).append qs))
  -- definitions
  | definition {name a q} (hname : IsWord name.toList) (h : Enclosed .query a q) :
      Enclosed .definition ("def " ++ name ++ ": " ++ a ++ ";") (.definition name [] q)

/-! ## What a text in its place is read as -/

/-- In front of what ends a query, lexemes make a query. -/
def Makes (q : Query) (front : Lexemes → Lexemes) : Prop :=
  ∀ tail, (peek tail).endsQuery = true → Derives .pipe (front tail) q tail

/-- What is read between quotes starts with an interpolation and makes parts of a string. -/
def MakesParts (qs : Node (.list .query)) (pieces : List Piece) : Prop :=
  ∃ source o more, pieces = .interpolation source o :: more ∧ Derives (.fragments (gather [] pieces)) [] qs []

/-- A text is cut into what its place asks for, and may be skipped. -/
def Fits : (k : Place) → String → k.Tree → Prop
  | .query, a, q => Cuts EndsName a (Makes q) ∧ ∀ d, Leads d d a
  | .arguments, a, qs =>
    Cuts EndsName a (fun front => ∀ o tail,
      Derives (.separated .pipe .semicolon) (front (⟨.rightParen, o⟩ :: tail)) qs (⟨.rightParen, o⟩ :: tail)) ∧
      ∀ d, Leads d d a
  | .bracket, a, i =>
    Cuts Anything a (fun front => ∀ tail, Derives .bracket (front tail) (.present i) tail) ∧ ∀ d, Leads d d a
  | .value more, a, v =>
    Cuts Anything a (fun front => ∀ tail, ∃ o, Derives .objectValue (front tail) v (⟨entryEnd more, o⟩ :: tail)) ∧
      ∀ d, Leads d d a
  | .entry more, a, e =>
    Cuts Anything a (fun front => ∀ tail, ∃ o, Derives .objectEntry (front tail) e (⟨entryEnd more, o⟩ :: tail)) ∧
      ∀ d, Leads d d a
  | .entries, a, es =>
    Cuts Anything a (fun front => ∀ tail, Derives .objectEntries (front tail) es tail) ∧ ∀ d, Leads d d a
  | .otherwise, a, (bs, e) =>
    Cuts EndsName a (fun front => ∀ tail, (peek (front tail)).endsQuery = true ∧ ∃ mid o,
      Derives .branches (front tail) bs mid ∧
        Derives (.after (.keyword .else) .pipe) mid e (⟨.keyword .end, o⟩ :: tail)) ∧ ∀ d, Leads d d a
  | .splices, a, qs =>
    (∀ quote offset rest, ∃ pieces offset',
      readPieces quote offset (a.toList ++ '"' :: rest) = .ok (pieces, ⟨offset', rest⟩) ∧ MakesParts qs pieces) ∧
      StringBody a.toList
  | .definition, a, d => Cuts Anything a fun front => ∀ tail, Derives .definition (front tail) d tail

/-! ## Queries -/

theorem Node.append_nil {s : Shape} : ∀ ns : Node (.list s), ns.append .nil = ns
  | .nil => rfl
  | .cons n ns => by rw [append, append_nil ns]

theorem Term.withSuffixes_nil (t : Term) : Term.withSuffixes [] t = t := by
  cases t with
  | term => rw [withSuffixes, Node.ofList, Node.append_nil]

/-- A term in front of what ends a query. -/
theorem derives_of_primary {t : Term} {ls ls₁ : Lexemes} (h : Derives .primary ls t ls₁)
    (hend : (peek ls₁).endsQuery = true) : Derives .pipe ls (Query.ofTerm t) ls₁ := by
  have hsuffixes : Derives .suffixes ls₁ .nil ls₁ := .suffixesEnd (not_startsSuffix_of_endsQuery hend).1
  have hterm : Derives .term ls t ls₁ := by
    have hterm := Derives.term h hsuffixes
    rwa [Node.toList_nil, Term.withSuffixes_nil] at hterm
  have has : peek ls₁ ≠ .keyword .as := by
    intro has
    rw [has] at hend
    cases hend
  have hoperator : operator? ls₁ = none := by
    unfold operator?
    split <;> simp_all [Token.endsQuery]
  exact .pipe (.binary (.operand hterm has) (.binaryEnd (by simp [hoperator])))

/-- A text that makes a term makes a query. -/
theorem Token.Cuts.query {C : List Char → Prop} {a : String} {t : Term}
    (h : Cuts C a fun front => ∀ tail, Derives .primary (front tail) t tail) : Cuts C a (Makes (Query.ofTerm t)) :=
  h.imp fun _ hfront tail htail => derives_of_primary (hfront tail) htail

theorem fits_source {s : String} {q : Query} (h : Query.parse s = .ok q) : Fits .query (s ++ "\n") q := by
  constructor
  · refine (Cuts.source fun base => ?_).anything
    obtain ⟨ls, rest, hscan, hq, hend⟩ := Query.read_elsewhere h base
    refine ⟨ls, hscan, fun tail htail => ?_⟩
    have hq : Derives .pipe (inFrontOf ls tail) q (inFrontOf rest tail) := hq.inFrontOf fun _ => htail
    rwa [inFrontOf_of_eof hend] at hq
  · intro d below
    rw [String.toList_append]
    exact Query.after_lineFeed h d below

theorem fits_parentheses {a : String} {q : Query} (h : Fits .query a q) :
    Fits .query ("(" ++ a ++ ")") (Query.ofTerm (Term.ofQuery q)) := by
  refine ⟨(h.1.parentheses.imp ?_).query.anything, Leads.parentheses h.2⟩
  rintro _ ⟨f, o, o₁, hf, rfl⟩ tail
  exact .parentheses (hf _ rfl)

theorem fits_array {a : String} {q : Query} (h : Fits .query a q) :
    Fits .query ("[" ++ a ++ "]") (Query.ofTerm (Term.ofArray (some q))) := by
  have hcuts := (cuts_leftBracket.before h.1).beforeSign cuts_rightBracket fun _ => rfl
  refine ⟨(hcuts.imp ?_).query.anything, fun d => ?_⟩
  · rintro _ ⟨_, _, ⟨_, f, ⟨o, rfl⟩, hf, rfl⟩, ⟨o₁, rfl⟩, rfl⟩ tail
    exact .array (hf _ rfl)
  · exact ((Leads.quiet (quiet_of_all rfl) d).append (h.2 d)).append (.quiet (quiet_of_all rfl) d)

theorem fits_call {name a : String} {qs : Node (.list .query)} (hname : (Token.ident name).WellSpelled)
    (h : Fits .arguments a qs) :
    Fits .query (name ++ ("(" ++ a ++ ")")) (Query.ofTerm (Term.ofCall name qs.toList)) := by
  have hword : Cuts EndsName name (Puts (ofWord name)) := .word hname.1
  have hident : ofWord name = .ident name := by rw [ofWord, hname.2]
  have hcuts := hword.beforeSign h.1.parentheses fun _ => by rw [String.toList_append, String.toList_append]; rfl
  rw [hident] at hcuts
  refine ⟨(hcuts.imp ?_).query.anything, fun d => ?_⟩
  · rintro _ ⟨_, _, ⟨o, rfl⟩, ⟨f, o₁, o₂, hf, rfl⟩, rfl⟩ tail
    exact .call hname (hf _ _)
  · exact (Leads.quiet (quiet_of_splitName hname.1.1) d).append (.parentheses h.2 d)

theorem fits_access {a : String} {i : Index} (h : Fits .bracket a i) :
    Fits .query (".[" ++ a) (Query.ofTerm (Term.ofIndex i)) := by
  refine ⟨((cuts_dotBracket.before h.1).imp ?_).query.anything, fun d => ?_⟩
  · rintro _ ⟨_, f, ⟨o, o₁, rfl⟩, hf, rfl⟩ tail
    exact .dotAccess (hf tail)
  · exact (Leads.quiet (quiet_of_all rfl) d).append (h.2 d)

/-! ## Objects -/

theorem apart_entryEnd (more : Bool) : Apart (entryEnd more) := by
  cases more <;> decide

theorem not_isParen_entryEnd (more : Bool) : Wording.isParen (entryEnd more) = false := by
  cases more <;> rfl

/-- A source with the sign of an entry at its end. -/
theorem fits_ended {s : String} {p : Production} {x : Node p.shape} {more : Bool} (hp : KeepsPairs p)
    (hc : ∀ {tail o ls}, Continues tail p (⟨entryEnd more, o⟩ :: ls))
    (h : ∀ base, ∃ ls o rest, Token.scan s base = .ok ls ∧ Derives p ls x (⟨entryEnd more, o⟩ :: rest) ∧
      peek rest = .eof) :
    Cuts Anything (s ++ "\n") (fun front => ∀ tail, ∃ o, Derives p (front tail) x (⟨entryEnd more, o⟩ :: tail)) ∧
      ∀ d, Leads d d (s ++ "\n") := by
  have hread : ∀ {ls o rest} (tail : Lexemes), Derives p ls x (⟨entryEnd more, o⟩ :: rest) → peek rest = .eof →
      Derives p (inFrontOf ls tail) x (⟨entryEnd more, o⟩ :: tail) := by
    intro ls o rest tail hx hend
    have hx : Derives p (inFrontOf ls tail) x (inFrontOf (⟨entryEnd more, o⟩ :: rest) tail) := hx.inFrontOf hc
    rwa [inFrontOf_cons (apart_entryEnd more).1, inFrontOf_of_eof hend] at hx
  constructor
  · refine .source fun base => ?_
    obtain ⟨ls, o, rest, hscan, hx, hend⟩ := h base
    exact ⟨ls, hscan, fun tail => ⟨o, hread tail hx hend⟩⟩
  · intro d
    obtain ⟨ls, o, rest, hscan, hx, hend⟩ := h 0
    have hopened := (hread [] hx hend).opened_eq hp d
    rw [opened_token (not_isParen_entryEnd more)] at hopened
    exact .source hscan hopened

theorem fits_value {s : String} {v : Query} {more : Bool} (h : IsValue s v more) : Fits (.value more) (s ++ "\n") v :=
  fits_ended trivial (endsQuery_before (apart_entryEnd more)) h.elsewhere

theorem fits_entry {s : String} {e : Node .entry} {more : Bool} (h : IsEntry s e more) :
    Fits (.entry more) (s ++ "\n") e :=
  fits_ended trivial ((apart_entryEnd more).not_atEnd _ _) h.elsewhere

/-- A query in parentheses as a value: the sign of the entry goes on no term. -/
theorem derives_value {more : Bool} {q : Query} {ls tail : Lexemes} {o o₁ o₂ : Nat}
    (h : Derives .pipe ls q (⟨.rightParen, o₁⟩ :: ⟨entryEnd more, o₂⟩ :: tail)) :
    Derives .objectValue (⟨.leftParen, o⟩ :: ls) (Query.ofTerm (Term.ofQuery q)) (⟨entryEnd more, o₂⟩ :: tail) := by
  have hsuffix : ¬ StartsSuffix (⟨entryEnd more, o₂⟩ :: tail) := by cases more <;> exact id
  have hpipe : entryEnd more ≠ .op .pipe := by cases more <;> nofun
  have hterm : Derives .term (⟨.leftParen, o⟩ :: ls) (Term.ofQuery q) (⟨entryEnd more, o₂⟩ :: tail) :=
    .term (.parentheses h) (.suffixesEnd hsuffix)
  exact .objectValue hterm hpipe

theorem fits_queryValue {a sign : String} {q : Query} {more : Bool} (h : Fits .query a q)
    (hsign : Cuts Anything sign (Puts (entryEnd more))) (hquiet : ∀ d, Leads d d sign) :
    Fits (.value more) ("(" ++ a ++ ")" ++ sign) (Query.ofTerm (Term.ofQuery q)) := by
  refine ⟨(h.1.parentheses.before hsign).imp ?_, fun d => (Leads.parentheses h.2 d).append (hquiet d)⟩
  rintro _ ⟨_, _, ⟨f, o, o₁, hf, rfl⟩, ⟨o₂, rfl⟩, rfl⟩ tail
  exact ⟨o₂, derives_value (hf _ rfl)⟩

theorem fits_innerValue {a : String} {q : Query} (h : Fits .query a q) :
    Fits (.value true) ("(" ++ a ++ ")" ++ ",") (Query.ofTerm (Term.ofQuery q)) :=
  fits_queryValue h cuts_comma (.quiet (quiet_of_all rfl))

theorem fits_lastValue {a : String} {q : Query} (h : Fits .query a q) :
    Fits (.value false) ("(" ++ a ++ ")" ++ "\x7d") (Query.ofTerm (Term.ofQuery q)) :=
  fits_queryValue h cuts_rightBrace (.quiet (quiet_of_all rfl))

theorem fits_computedEntry {a b : String} {q v : Query} {more : Bool} (h : Fits .query a q)
    (hv : Fits (.value more) b v) :
    Fits (.entry more) ("(" ++ a ++ ")" ++ ":" ++ b) (.entry "" .absent (.present q) (.present v)) := by
  refine ⟨((h.1.parentheses.before cuts_colon).before hv.1).imp ?_, fun d => ?_⟩
  · rintro _ ⟨_, g, ⟨_, _, ⟨f, o, o₁, hf, rfl⟩, ⟨o₂, rfl⟩, rfl⟩, hg, rfl⟩ tail
    obtain ⟨o₃, hv⟩ := hg tail
    exact ⟨o₃, .computedEntry (hf _ rfl) hv⟩
  · exact ((Leads.parentheses h.2 d).append (.quiet (quiet_of_all rfl) d)).append (hv.2 d)

theorem fits_noEntries : Fits .entries "\x7d" .nil := by
  refine ⟨cuts_rightBrace.imp ?_, .quiet (quiet_of_all rfl)⟩
  rintro _ ⟨o, rfl⟩ tail
  exact .entriesEnd

theorem fits_lastEntry {a : String} {e : Node .entry} (h : Fits (.entry false) a e) :
    Fits .entries a (.cons e .nil) := by
  refine ⟨h.1.imp fun front hfront tail => ?_, h.2⟩
  obtain ⟨o, he⟩ := hfront tail
  exact .lastEntry he

theorem fits_moreEntries {a b : String} {e : Node .entry} {es : Node (.list .entry)} (h : Fits (.entry true) a e)
    (hs : Fits .entries b es) : Fits .entries (a ++ b) (.cons e es) := by
  refine ⟨(h.1.before hs.1).imp ?_, fun d => (h.2 d).append (hs.2 d)⟩
  rintro _ ⟨f, g, hf, hg, rfl⟩ tail
  obtain ⟨o, he⟩ := hf (g tail)
  exact .moreEntries he (hg tail)

theorem fits_object {a : String} {es : Node (.list .entry)} (h : Fits .entries a es) :
    Fits .query ("\x7b" ++ a) (Query.ofTerm (Term.ofObject es.toList)) := by
  refine ⟨((cuts_leftBrace.before h.1).imp ?_).query.anything, fun d => ?_⟩
  · rintro _ ⟨_, f, ⟨o, rfl⟩, hf, rfl⟩ tail
    exact .object (hf tail)
  · exact (Leads.quiet (quiet_of_all rfl) d).append (h.2 d)

/-! ## Conditionals -/

/-- A condition, the branch it is of, and what comes behind them. -/
theorem cuts_branch {a b c : String} {q r : Query} {o : Place.otherwise.Tree} (hcond : Fits .query a q)
    (hthen : Fits .query b r) (hotherwise : Fits .otherwise c o) :
    Cuts EndsName (a ++ " then " ++ b ++ " " ++ c) (fun front => ∀ tail, ∃ o₁ ls₁ ls₂ mid o₂,
      Derives .pipe (front tail) q (⟨.keyword .then, o₁⟩ :: ls₁) ∧ Derives .pipe ls₁ r ls₂ ∧
        Derives .branches ls₂ o.1 mid ∧
        Derives (.after (.keyword .else) .pipe) mid o.2 (⟨.keyword .end, o₂⟩ :: tail)) ∧
      ∀ d, Leads d d (a ++ " then " ++ b ++ " " ++ c) := by
  obtain ⟨hcuts, hleads⟩ := hotherwise
  have hthenWord : Cuts Anything " then " (Puts (.keyword .then)) := .blankKeyword .then
  have hfirst := (hcond.1.beforeSign hthenWord fun _ => rfl).before hthen.1
  have hcuts := (hfirst.beforeSign .blank fun _ => rfl).before hcuts
  refine ⟨hcuts.imp ?_, fun d => ?_⟩
  · rintro _ ⟨_, h, ⟨_, _, ⟨_, g, ⟨f, _, hf, ⟨o₁, rfl⟩, rfl⟩, hg, rfl⟩, rfl, rfl⟩, hh, rfl⟩ tail
    obtain ⟨hend, mid, o₂, hbranches, helse⟩ := hh tail
    exact ⟨o₁, _, _, mid, o₂, hf _ rfl, hg _ hend, hbranches, helse⟩
  · exact ((((hcond.2 d).append (.quiet (quiet_of_all rfl) d)).append (hthen.2 d)).append
      (.quiet (quiet_of_all rfl) d)).append (hleads d)

theorem fits_conditional {a b c : String} {q r : Query} {o : Place.otherwise.Tree} (hcond : Fits .query a q)
    (hthen : Fits .query b r) (hotherwise : Fits .otherwise c o) :
    Fits .query ("if " ++ (a ++ " then " ++ b ++ " " ++ c))
      (Query.ofTerm (Term.ofConditional (.conditional q r o.1 o.2))) := by
  have hif : Cuts Anything "if " (Puts (.keyword .if)) := .keywordBlank .if
  obtain ⟨hcuts, hleads⟩ := cuts_branch hcond hthen hotherwise
  refine ⟨((hif.before hcuts).imp ?_).query, fun d => ?_⟩
  · rintro _ ⟨_, f, ⟨o₀, rfl⟩, hf, rfl⟩ tail
    obtain ⟨_, _, _, _, _, hcond, hthen, hbranches, helse⟩ := hf tail
    exact .conditional hcond hthen hbranches helse
  · exact (Leads.quiet (quiet_of_all rfl) d).append (hleads d)

theorem fits_branch {a b c : String} {q r : Query} {o : Place.otherwise.Tree} (hcond : Fits .query a q)
    (hthen : Fits .query b r) (hotherwise : Fits .otherwise c o) :
    Fits .otherwise ("elif " ++ (a ++ " then " ++ b ++ " " ++ c)) (.cons (.branch q r) o.1, o.2) := by
  have helif : Cuts Anything "elif " (Puts (.keyword .elif)) := .keywordBlank .elif
  obtain ⟨hcuts, hleads⟩ := cuts_branch hcond hthen hotherwise
  refine ⟨(helif.before hcuts).imp ?_, fun d => ?_⟩
  · rintro _ ⟨_, f, ⟨o₀, rfl⟩, hf, rfl⟩ tail
    obtain ⟨_, _, _, mid, o₂, hcond, hthen, hbranches, helse⟩ := hf tail
    exact ⟨rfl, mid, o₂, .branch hcond hthen hbranches, helse⟩
  · exact (Leads.quiet (quiet_of_all rfl) d).append (hleads d)

theorem fits_finish : Fits .otherwise "end" (.nil, .absent) := by
  refine ⟨(Cuts.keyword .end).imp ?_, fun d => .quiet (quiet_of_all rfl) d⟩
  rintro _ ⟨o, rfl⟩ tail
  exact ⟨rfl, _, o, .branchesEnd nofun, .missing nofun⟩

theorem fits_otherwise {a : String} {q : Query} (h : Fits .query a q) :
    Fits .otherwise ("else " ++ a ++ " end") (.nil, .present q) := by
  have helse : Cuts Anything "else " (Puts (.keyword .else)) := .keywordBlank .else
  have hend : Cuts EndsName " end" (Puts (.keyword .end)) := by
    refine (Cuts.blank.before (.keyword .end)).imp ?_
    rintro _ ⟨_, _, rfl, ⟨o, rfl⟩, rfl⟩
    exact ⟨o, rfl⟩
  refine ⟨((helse.before h.1).beforeSign hend fun _ => rfl).imp ?_, fun d => ?_⟩
  · rintro _ ⟨_, _, ⟨_, f, ⟨o, rfl⟩, hf, rfl⟩, ⟨o₁, rfl⟩, rfl⟩ tail
    exact ⟨rfl, _, o₁, .branchesEnd nofun, .given (hf _ rfl)⟩
  · exact ((Leads.quiet (quiet_of_all rfl) d).append (h.2 d)).append (.quiet (quiet_of_all rfl) d)

/-! ## Reductions -/

theorem fits_head {s : String} {t : Term} {p : Pattern} (h : IsHead s t p) :
    Cuts Anything (s ++ "\n") (fun front => ∀ tail, ∃ o ls₁, Derives .term (front tail) t (⟨.keyword .as, o⟩ :: ls₁) ∧
      Derives .pattern ls₁ p tail) ∧ ∀ d, Leads d d (s ++ "\n") := by
  have hread : ∀ {ls o ls₁ rest} (tail : Lexemes), Derives .term ls t (⟨.keyword .as, o⟩ :: ls₁) →
      Derives .pattern ls₁ p rest → peek rest = .eof →
      Derives .term (inFrontOf ls tail) t (⟨.keyword .as, o⟩ :: inFrontOf ls₁ tail) ∧
        Derives .pattern (inFrontOf ls₁ tail) p tail := by
    intro ls o ls₁ rest tail ht hp hend
    have hp : Derives .pattern (inFrontOf ls₁ tail) p (inFrontOf rest tail) := hp.inFrontOf trivial
    rw [inFrontOf_of_eof hend] at hp
    exact ⟨ht.inFrontOf (endsQuery_before (by decide)), hp⟩
  constructor
  · refine .source fun base => ?_
    obtain ⟨ls, o, ls₁, rest, hscan, ht, hp, hend⟩ := h.elsewhere base
    exact ⟨ls, hscan, fun tail => ⟨o, _, hread tail ht hp hend⟩⟩
  · intro d
    obtain ⟨ls, o, ls₁, rest, hscan, ht, hp, hend⟩ := h.elsewhere 0
    obtain ⟨ht, hp⟩ := hread [] ht hp hend
    refine .source hscan ?_
    rw [ht.opened_eq trivial, opened_token rfl, hp.opened_eq trivial]
    rfl

/-- A word, a head, and what is in the parentheses behind them, if they make a term. -/
theorem fits_reduction {word : Keyword} {text s a : String} {t x : Term} {p : Pattern} {P : (Lexemes → Lexemes) → Prop}
    (hword : Cuts Anything text (Puts (.keyword word))) (hquiet : ∀ d, Leads d d text) (hhead : IsHead s t p)
    (ha : Cuts EndsName a P) (hleads : ∀ d, Leads d d a)
    (hx : ∀ {f ls ls₁ tail o o₁ o₂ o₃}, P f → Derives .term ls t (⟨.keyword .as, o₁⟩ :: ls₁) →
      Derives .pattern ls₁ p (⟨.leftParen, o₂⟩ :: f (⟨.rightParen, o₃⟩ :: tail)) →
      Derives .primary (⟨.keyword word, o⟩ :: ls) x tail) :
    Fits .query (text ++ (s ++ "\n") ++ ("(" ++ a ++ ")")) (Query.ofTerm x) := by
  obtain ⟨hcuts, hheadLeads⟩ := fits_head hhead
  refine ⟨(((hword.before hcuts).before ha.parentheses).imp ?_).query.anything, fun d => ?_⟩
  · rintro _ ⟨_, _, ⟨_, g, ⟨o, rfl⟩, hg, rfl⟩, ⟨f, o₂, o₃, hf, rfl⟩, rfl⟩ tail
    obtain ⟨o₁, ls₁, ht, hp⟩ := hg (⟨.leftParen, o₂⟩ :: f (⟨.rightParen, o₃⟩ :: tail))
    exact hx hf ht hp
  · exact ((hquiet d).append (hheadLeads d)).append (.parentheses hleads d)

/-- Two queries with a semicolon between them. -/
theorem fits_pair {a b : String} {q r : Query} (ha : Fits .query a q) (hb : Fits .query b r) :
    Cuts EndsName (a ++ ";" ++ b) (fun front => ∀ tail, (peek tail).endsQuery = true → ∃ o ls₁,
      Derives .pipe (front tail) q (⟨.semicolon, o⟩ :: ls₁) ∧ Derives .pipe ls₁ r tail) ∧
      ∀ d, Leads d d (a ++ ";" ++ b) := by
  refine ⟨((ha.1.beforeSign cuts_semicolon fun _ => rfl).before hb.1).imp ?_, fun d => ?_⟩
  · rintro _ ⟨_, g, ⟨f, _, hf, ⟨o, rfl⟩, rfl⟩, hg, rfl⟩ tail htail
    exact ⟨o, _, hf _ rfl, hg tail htail⟩
  · exact ((ha.2 d).append (.quiet (quiet_of_all rfl) d)).append (hb.2 d)

theorem fits_reduce {s a b : String} {t : Term} {p : Pattern} {q r : Query} (hhead : IsHead s t p)
    (hstart : Fits .query a q) (hupdate : Fits .query b r) :
    Fits .query ("reduce " ++ (s ++ "\n") ++ ("(" ++ (a ++ ";" ++ b) ++ ")"))
      (Query.ofTerm (Term.ofReduce (.reduce t p q r))) := by
  obtain ⟨hcuts, hleads⟩ := fits_pair hstart hupdate
  refine fits_reduction (.keywordBlank .reduce) (.quiet (quiet_of_all rfl)) hhead hcuts hleads ?_
  intro f ls ls₁ tail o o₁ o₂ o₃ hf ht hp
  obtain ⟨o₄, ls₂, hq, hr⟩ := hf (⟨.rightParen, o₃⟩ :: tail) rfl
  exact .reduce ht hp hq hr

theorem fits_foreach {s a b : String} {t : Term} {p : Pattern} {q r : Query} (hhead : IsHead s t p)
    (hstart : Fits .query a q) (hupdate : Fits .query b r) :
    Fits .query ("foreach " ++ (s ++ "\n") ++ ("(" ++ (a ++ ";" ++ b) ++ ")"))
      (Query.ofTerm (Term.ofForeach (.foreach t p q r .absent))) := by
  obtain ⟨hcuts, hleads⟩ := fits_pair hstart hupdate
  refine fits_reduction (.keywordBlank .foreach) (.quiet (quiet_of_all rfl)) hhead hcuts hleads ?_
  intro f ls ls₁ tail o o₁ o₂ o₃ hf ht hp
  obtain ⟨o₄, ls₂, hq, hr⟩ := hf (⟨.rightParen, o₃⟩ :: tail) rfl
  exact .foreach ht hp hq hr (.missing nofun)

theorem fits_foreachExtract {s a b c : String} {t : Term} {p : Pattern} {q r e : Query} (hhead : IsHead s t p)
    (hstart : Fits .query a q) (hupdate : Fits .query b r) (hextract : Fits .query c e) :
    Fits .query ("foreach " ++ (s ++ "\n") ++ ("(" ++ (a ++ ";" ++ b ++ ";" ++ c) ++ ")"))
      (Query.ofTerm (Term.ofForeach (.foreach t p q r (.present e)))) := by
  obtain ⟨hcuts, hleads⟩ := fits_pair hstart hupdate
  have hcuts := (hcuts.beforeSign cuts_semicolon fun _ => rfl).before hextract.1
  have hleads : ∀ d, Leads d d (a ++ ";" ++ b ++ ";" ++ c) := fun d =>
    ((hleads d).append (.quiet (quiet_of_all rfl) d)).append (hextract.2 d)
  refine fits_reduction (.keywordBlank .foreach) (.quiet (quiet_of_all rfl)) hhead hcuts hleads ?_
  rintro _ ls ls₁ tail o o₁ o₂ o₃ ⟨_, g, ⟨f, _, hf, ⟨o₄, rfl⟩, rfl⟩, hg, rfl⟩ ht hp
  obtain ⟨o₅, ls₂, hq, hr⟩ := hf (⟨.semicolon, o₄⟩ :: g (⟨.rightParen, o₃⟩ :: tail)) rfl
  exact .foreach ht hp hq hr (.given (hg _ rfl))

/-! ## Arguments and brackets -/

theorem fits_lastArgument {a : String} {q : Query} (h : Fits .query a q) : Fits .arguments a (.cons q .nil) :=
  ⟨h.1.imp fun _ hf _ _ => .last (hf _ rfl) nofun, h.2⟩

theorem fits_argument {a b : String} {q : Query} {qs : Node (.list .query)} (h : Fits .query a q)
    (hs : Fits .arguments b qs) : Fits .arguments (a ++ ";" ++ b) (.cons q qs) := by
  refine ⟨((h.1.beforeSign cuts_semicolon fun _ => rfl).before hs.1).imp ?_, fun d => ?_⟩
  · rintro _ ⟨_, g, ⟨f, _, hf, ⟨o, rfl⟩, rfl⟩, hg, rfl⟩ o₁ tail
    exact .more (hf _ rfl) (hg o₁ tail)
  · exact ((h.2 d).append (.quiet (quiet_of_all rfl) d)).append (hs.2 d)

theorem fits_position {a : String} {q : Query} (h : Fits .query a q) :
    Fits .bracket (a ++ "]") (.index "" .absent (.present q) .absent false) := by
  refine ⟨(h.1.beforeSign cuts_rightBracket fun _ => rfl).imp ?_, fun d => ?_⟩
  · rintro _ ⟨f, _, hf, ⟨o, rfl⟩, rfl⟩ tail
    exact .position (hf _ rfl)
  · exact (h.2 d).append (.quiet (quiet_of_all rfl) d)

theorem fits_sliceTo {a : String} {q : Query} (h : Fits .query a q) :
    Fits .bracket (":" ++ a ++ "]") (.index "" .absent .absent (.present q) true) := by
  refine ⟨((cuts_colon.before h.1).beforeSign cuts_rightBracket fun _ => rfl).imp ?_, fun d => ?_⟩
  · rintro _ ⟨_, _, ⟨_, f, ⟨o, rfl⟩, hf, rfl⟩, ⟨o₁, rfl⟩, rfl⟩ tail
    exact .sliceTo (hf _ rfl)
  · exact ((Leads.quiet (quiet_of_all rfl) d).append (h.2 d)).append (.quiet (quiet_of_all rfl) d)

/-- The colon of a slice, with a blank in front of it. -/
theorem cuts_blankColon : Cuts Anything " :" (Puts .colon) := by
  refine (Cuts.blank.before cuts_colon).imp ?_
  rintro _ ⟨_, _, rfl, ⟨o, rfl⟩, rfl⟩
  exact ⟨o, rfl⟩

theorem fits_sliceFrom {a : String} {q : Query} (h : Fits .query a q) :
    Fits .bracket (a ++ " :]") (.index "" .absent (.present q) .absent true) := by
  have hclose : Cuts Anything " :]" fun front => ∃ o o₁, front = (⟨.colon, o⟩ :: ⟨.rightBracket, o₁⟩ :: ·) := by
    refine (cuts_blankColon.before cuts_rightBracket).imp ?_
    rintro _ ⟨_, _, ⟨o, rfl⟩, ⟨o₁, rfl⟩, rfl⟩
    exact ⟨o, o₁, rfl⟩
  refine ⟨(h.1.beforeSign hclose fun _ => rfl).imp ?_, fun d => ?_⟩
  · rintro _ ⟨f, _, hf, ⟨o, o₁, rfl⟩, rfl⟩ tail
    exact .sliceFrom (hf _ rfl)
  · exact (h.2 d).append (.quiet (quiet_of_all rfl) d)

theorem fits_slice {a b : String} {q r : Query} (hstart : Fits .query a q) (hstop : Fits .query b r) :
    Fits .bracket (a ++ " :" ++ b ++ "]") (.index "" .absent (.present q) (.present r) true) := by
  have hcuts := ((hstart.1.beforeSign cuts_blankColon fun _ => rfl).before hstop.1).beforeSign cuts_rightBracket
    fun _ => rfl
  refine ⟨hcuts.imp ?_, fun d => ?_⟩
  · rintro _ ⟨_, _, ⟨_, g, ⟨f, _, hf, ⟨o, rfl⟩, rfl⟩, hg, rfl⟩, ⟨o₁, rfl⟩, rfl⟩ tail
    exact .slice (hf _ rfl) (hg _ rfl)
  · exact (((hstart.2 d).append (.quiet (quiet_of_all rfl) d)).append (hstop.2 d)).append (.quiet (quiet_of_all rfl) d)

/-! ## Strings -/

theorem toList_escaped (s : String) : (escaped s).toList = s.toList.flatMap Wording.escape :=
  String.toList_ofList

theorem stringBody_escaped (s : String) : StringBody (escaped s).toList := by
  rw [toList_escaped]
  induction s.toList with
  | nil => exact .nil
  | cons c cs ih =>
    rw [List.flatMap_cons, Wording.escape]
    split
    · next hc =>
      refine .escape ?_ ih
      rcases hc with rfl | rfl <;> decide
    · next hc =>
      obtain ⟨hquote, hback⟩ := not_or.1 hc
      exact .char hquote hback ih

/-- The characters in front of other parts. -/
theorem derives_literals (s : String) {parts : List StringPart} {qs : Node (.list .query)}
    (h : Derives (.fragments parts) [] qs []) :
    Derives (.fragments (literalPart s.toList.reverse ++ parts)) [] ((literals s).append qs) [] := by
  by_cases hs : s = ""
  · subst hs
    exact h
  · have hne : s.toList ≠ [] := fun hnil => hs (String.toList_eq_nil_iff.1 hnil)
    have hpart : literalPart s.toList.reverse = [.literal s] := by simp [literalPart, hne]
    rw [hpart, literals, if_neg hs]
    exact .literal h

/-- Characters in front of an interpolation, and what is read from it on. -/
theorem readPieces_literals (s : String) {b : String} {qs : Node (.list .query)} (h : Fits .splices b qs)
    (quote offset : Nat) (last : List Char) :
    ∃ pieces offset', readPieces quote offset ((escaped s ++ b).toList ++ '"' :: last) = .ok (pieces, ⟨offset', last⟩) ∧
      (∃ source o, .interpolation source o ∈ gather [] pieces) ∧
        Derives (.fragments (gather [] pieces)) [] ((literals s).append qs) [] := by
  obtain ⟨pieces, offset', hread, source, o, more, rfl, hparts⟩ :=
    readPieces_text (fun offset => h.1 quote offset last) s.toList offset
  have hgather : gather [] (s.toList.map .char ++ .interpolation source o :: more) =
      literalPart s.toList.reverse ++ gather [] (.interpolation source o :: more) := by
    rw [gather_chars, List.append_nil]
    rfl
  rw [String.toList_append, toList_escaped, List.append_assoc]
  refine ⟨_, offset', hread, ⟨source, o, ?_⟩, ?_⟩
  · rw [hgather]
    exact List.mem_append_right _ List.mem_cons_self
  · rw [hgather]
    exact derives_literals s hparts

/-- An interpolation, and what is read behind it. -/
theorem fits_interpolation {a b : String} {q : Query} {qs : Node (.list .query)} (h : Fits .query a q)
    (hb : StringBody b.toList)
    (hread : ∀ quote offset last, ∃ pieces offset', readPieces quote offset (b.toList ++ '"' :: last) =
      .ok (pieces, ⟨offset', last⟩) ∧ Derives (.fragments (gather [] pieces)) [] qs []) :
    Fits .splices ("\\(" ++ a ++ ")" ++ b) (.cons q qs) := by
  have htext : ("\\(" ++ a ++ ")" ++ b).toList = '\\' :: '(' :: (a.toList ++ ')' :: b.toList) := by simp
  constructor
  · intro quote offset last
    obtain ⟨o, hescape⟩ := readEscape_interpolation (h.2 0 []) quote offset (b.toList ++ '"' :: last)
    obtain ⟨pieces, offset', hread, hparts⟩ := hread quote o last
    obtain ⟨front, o₁, hscan, hfront⟩ := h.1.scan rfl (offset + 2)
    rw [String.ofList_toList] at hescape
    have hsource : Derives .pipe (front [⟨.eof, o₁⟩]) q [⟨.eof, o₁⟩] := hfront _ rfl
    rw [htext, List.cons_append, List.cons_append, List.append_assoc, List.cons_append]
    exact ⟨_, offset', readPieces_escape hescape hread, a, offset + 2, pieces, rfl,
      .interpolation hscan hsource rfl hparts⟩
  · rw [htext]
    exact .interpolation (h.2 0 []) hb

theorem fits_lastSplice {a behind : String} {q : Query} (h : Fits .query a q) :
    Fits .splices ("\\(" ++ a ++ ")" ++ escaped behind) (.cons q (literals behind)) := by
  refine fits_interpolation h (stringBody_escaped behind) fun quote offset last => ?_
  obtain ⟨offset', hread⟩ := readPieces_quoted quote last behind.toList offset
  have hliterals := derives_literals behind .fragmentsEnd
  have hgather := gather_chars [] behind.toList []
  rw [List.append_nil, Node.append_nil] at hliterals
  rw [List.append_nil, List.append_nil] at hgather
  rw [toList_escaped]
  refine ⟨_, offset', hread, ?_⟩
  rw [hgather]
  exact hliterals

theorem fits_splice {a behind b : String} {q : Query} {qs : Node (.list .query)} (h : Fits .query a q)
    (hs : Fits .splices b qs) :
    Fits .splices ("\\(" ++ a ++ ")" ++ (escaped behind ++ b)) (.cons q ((literals behind).append qs)) := by
  refine fits_interpolation h ?_ fun quote offset last => ?_
  · rw [String.toList_append]
    exact (stringBody_escaped behind).append hs.2
  · obtain ⟨pieces, offset', hread, -, hparts⟩ := readPieces_literals behind hs quote offset last
    exact ⟨pieces, offset', hread, hparts⟩

theorem fits_string {before a : String} {qs : Node (.list .query)} (h : Fits .splices a qs) :
    Fits .query ("\"" ++ (escaped before ++ a) ++ "\"")
      (Query.ofTerm (Term.ofText (.text "" ((literals before).append qs)))) := by
  have hcuts : Cuts Anything ("\"" ++ (escaped before ++ a) ++ "\"") fun front => ∃ parts o,
      (∀ o ls, Derives .string (⟨.str parts, o⟩ :: ls) (.text "" ((literals before).append qs)) ls) ∧
        front = (⟨.str parts, o⟩ :: ·) := by
    refine Cuts.string fun quote rest => ?_
    obtain ⟨pieces, offset', hread, ⟨source, o, hmem⟩, hparts⟩ := readPieces_literals before h quote (quote + 1) rest
    have hne : gather [] pieces ≠ [] := List.ne_nil_of_mem hmem
    have hliteral : ∀ s, gather [] pieces ≠ [.literal s] := by
      intro s heq
      rw [heq] at hmem
      cases List.mem_singleton.1 hmem
    refine ⟨pieces, offset', hread, fun o ls => ?_⟩
    rw [partsOf_of_gather hne]
    exact .string hne hliteral hparts
  refine ⟨(hcuts.imp ?_).query.anything, fun d below => ?_⟩
  · rintro _ ⟨parts, o, hparts, rfl⟩ tail
    exact .text (hparts o tail)
  · have hbody : StringBody (escaped before ++ a).toList := by
      rw [String.toList_append]
      exact (stringBody_escaped before).append h.2
    have htext : ("\"" ++ (escaped before ++ a) ++ "\"").toList =
        '"' :: ((escaped before ++ a).toList ++ '"' :: []) := by simp
    rw [htext, hbody.after_quoted, Enclosure.after_nil]

/-! ## Definitions -/

theorem wordKey?_ofWord (word : String) : wordKey? (ofWord word) = some word := by
  unfold ofWord
  split
  · next k hk =>
    rw [Keyword.ofText?] at hk
    have htext := List.find?_some hk
    rw [wordKey?, eq_of_beq htext]
  · rfl

theorem fits_definition {name a : String} {q : Query} (hname : IsWord name.toList) (h : Fits .query a q) :
    Fits .definition ("def " ++ name ++ ": " ++ a ++ ";") (.definition name [] q) := by
  have hdef : Cuts Anything "def " (Puts (.keyword .define)) := .keywordBlank .define
  have hcolon : Cuts Anything ": " (Puts .colon) := by
    refine (cuts_colon.before .blank).imp ?_
    rintro _ ⟨_, _, ⟨o, rfl⟩, rfl, rfl⟩
    exact ⟨o, rfl⟩
  have hcuts := (((hdef.before (.word hname)).beforeSign hcolon fun _ => rfl).before h.1).beforeSign cuts_semicolon
    fun _ => rfl
  refine hcuts.imp ?_
  rintro _ ⟨_, _, ⟨_, f, ⟨_, _, ⟨_, _, ⟨o, rfl⟩, ⟨o₁, rfl⟩, rfl⟩, ⟨o₂, rfl⟩, rfl⟩, hf, rfl⟩, ⟨o₃, rfl⟩, rfl⟩ tail
  exact .definition (wellSpelled_ofWord hname) (wordKey?_ofWord name) (.none nofun) (hf _ rfl)

/-! ## All places -/

/-- What is enclosed fits its place. -/
theorem Enclosed.fits {k : Place} {a : String} {x : k.Tree} (h : Enclosed k a x) : Fits k a x := by
  induction h with
  | source h => exact fits_source h
  | parentheses _ ih => exact fits_parentheses ih
  | array _ ih => exact fits_array ih
  | call hname _ ih => exact fits_call hname ih
  | access _ ih => exact fits_access ih
  | object _ ih => exact fits_object ih
  | conditional _ _ _ hcond hthen hotherwise => exact fits_conditional hcond hthen hotherwise
  | reduce hhead _ _ hstart hupdate => exact fits_reduce hhead hstart hupdate
  | foreach hhead _ _ hstart hupdate => exact fits_foreach hhead hstart hupdate
  | foreachExtract hhead _ _ _ hstart hupdate hextract => exact fits_foreachExtract hhead hstart hupdate hextract
  | string _ ih => exact fits_string ih
  | lastArgument _ ih => exact fits_lastArgument ih
  | argument _ _ ih ihs => exact fits_argument ih ihs
  | position _ ih => exact fits_position ih
  | sliceFrom _ ih => exact fits_sliceFrom ih
  | sliceTo _ ih => exact fits_sliceTo ih
  | slice _ _ hstart hstop => exact fits_slice hstart hstop
  | value h => exact fits_value h
  | innerValue _ ih => exact fits_innerValue ih
  | lastValue _ ih => exact fits_lastValue ih
  | entry h => exact fits_entry h
  | computedEntry _ _ ih ihv => exact fits_computedEntry ih ihv
  | noEntries => exact fits_noEntries
  | lastEntry _ ih => exact fits_lastEntry ih
  | moreEntries _ _ ih ihs => exact fits_moreEntries ih ihs
  | finish => exact fits_finish
  | otherwise _ ih => exact fits_otherwise ih
  | branch _ _ _ hcond hthen hotherwise => exact fits_branch hcond hthen hotherwise
  | lastSplice _ ih => exact fits_lastSplice ih
  | splice _ _ ih ihs => exact fits_splice ih ihs
  | definition hname _ ih => exact fits_definition hname ih

/-- **A query is the same in all brackets.** With any brackets around a source that is a query, at any depth, the text
is the tree that the brackets make of the query, and as the body of a definition it is a program. -/
theorem enclosed_parse :
    (∀ {text q}, Enclosed .query text q → Query.parse text = .ok q) ∧
      ∀ {text d}, Enclosed .definition text d → Definition.parseAll text = .ok [d] := by
  constructor
  · intro text q h
    obtain ⟨front, o, hscan, hfront⟩ := h.fits.1.scan rfl 0
    have hq : Derives .pipe (front [⟨.eof, o⟩]) q [⟨.eof, o⟩] := hfront _ rfl
    exact Query.parse_of_derives hscan hq rfl
  · intro text d h
    obtain ⟨front, o, hscan, hfront⟩ := Cuts.scan h.fits trivial 0
    have hd : Derives .definition (front [⟨.eof, o⟩]) d [⟨.eof, o⟩] := hfront _
    exact Definition.parseAll_of_derives hscan (.definitions hd (.definitionsEnd rfl))

/-- A binding, which owns what is behind it, with a comment that holds a quote and a parenthesis: in a string in a
string, and as the body of a definition. -/
theorem enclosed_parse_binding :
    ∃ q, Query.parse ". as $x | $x # \")" = .ok q ∧
      Query.parse "\"a\\(\"\\(. as $x | $x # \")\n)\")b\"" =
        .ok (Query.ofTerm (Term.ofText (.text "" ((literals "a").append
          (.cons (Query.ofTerm (Term.ofText (.text "" (.cons q .nil)))) (literals "b")))))) ∧
      Definition.parseAll "def f: . as $x | $x # \")\n;" = .ok [.definition "f" [] q] := by
  have hparse : (Query.parse ". as $x | $x # \")").toOption.isSome = true := by decide +kernel
  obtain ⟨q, hparse⟩ := Option.isSome_iff_exists.1 hparse
  have hparse := ok_of_toOption hparse
  have hsource : Enclosed .query (". as $x | $x # \")" ++ "\n") q := .source hparse
  have hinner := @Enclosed.string "" _ _ (@Enclosed.lastSplice _ _ "" hsource)
  have houter := @Enclosed.string "a" _ _ (@Enclosed.lastSplice _ _ "b" hinner)
  have hname : IsWord ("f" : String).toList := ⟨rfl, 'f', rfl, rfl⟩
  exact ⟨q, hparse, enclosed_parse.1 houter, enclosed_parse.2 (.definition hname hsource)⟩

end DefTable
